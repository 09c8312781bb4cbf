import SourceAtlas.Text.Word

/-! The kinds of diagram. -/

namespace SourceAtlas

inductive Renderer where
  | tree
  | treemap
  | arc
  deriving DecidableEq, Repr

namespace Renderer

def name : Renderer → String
  | .tree => "tree"
  | .treemap => "treemap"
  | .arc => "arc"

/-- The kind of diagram that a text names; case does not matter. No letter outside ASCII has a lower
case that occurs in these words. -/
def parse? (text : String) : Option Renderer :=
  match Text.lowerAscii text with
  | "tree" => some .tree
  | "treemap" => some .treemap
  | "arc" | "arc-diagram" => some .arc
  | _ => none

def unknownMessage (text : String) : String :=
  "Unknown renderer: " ++ text ++ ". Valid options: tree, treemap, arc"

end Renderer

end SourceAtlas
