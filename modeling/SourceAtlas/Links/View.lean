import SourceAtlas.Text.Word

/-! The relations of a tree that can be shown as links. -/

namespace SourceAtlas

/-- A relation of the tree. -/
inductive View where
  /-- From a node to each of its children. -/
  | hierarchy
  /-- From a file to what it depends on. -/
  | dependency
  /-- From an input to the file that takes it. -/
  | input
  /-- From a file to its outputs. -/
  | output
  deriving DecidableEq, Repr

namespace View

def name : View → String
  | .hierarchy => "hierarchy"
  | .dependency => "dependency"
  | .input => "input"
  | .output => "output"

def label : View → String
  | .hierarchy => "Hierarchy"
  | .dependency => "Dependencies"
  | .input => "Inputs"
  | .output => "Outputs"

def all : List View := [.hierarchy, .dependency, .input, .output]

/-- The view that a text names, in singular or plural. White space around it and case do not matter.
No letter outside ASCII has a lower case that occurs in these words. -/
def parse? (text : String) : Option View :=
  match Text.lowerAscii (String.ofList (Text.trim text.toList)) with
  | "hierarchy" => some .hierarchy
  | "dependency" | "dependencies" => some .dependency
  | "input" | "inputs" => some .input
  | "output" | "outputs" => some .output
  | _ => none

def unknownMessage (text : String) : String :=
  "Unknown view: " ++ text ++ ". Valid options: hierarchy, dependency, input, output"

end View

end SourceAtlas
