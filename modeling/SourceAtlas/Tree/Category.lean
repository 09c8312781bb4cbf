import SourceAtlas.Tree.Basic
import SourceAtlas.Text.Word

/-! Display categories. They decide the colour of a node in every diagram. -/

namespace SourceAtlas

inductive Category where
  | directory
  | c
  | h
  | makefile
  | other
  deriving DecidableEq, Repr

namespace Category

def all : List Category := [.directory, .c, .h, .makefile, .other]

def name : Category → String
  | .directory => "directory"
  | .c => "c"
  | .h => "h"
  | .makefile => "makefile"
  | .other => "other"

def color : Category → String
  | .directory => "#8BC34A"
  | .c => "#2196F3"
  | .h => "#FF9800"
  | .makefile => "#9C27B0"
  | .other => "#9E9E9E"

/-- The text after the last dot, if there is a dot. -/
def extension? (name : String) : Option String :=
  let cs := name.toList
  if cs.contains '.' then
    some (String.ofList (cs.reverse.takeWhile (· ≠ '.')).reverse)
  else none

/-- The category of an extension; case does not matter. -/
def ofExtension (ext : String) : Category :=
  match Text.lowerAscii ext with
  | "c" => .c
  | "h" => .h
  | _ => .other

/-- The category of a bare name: a name without a dot stands for a directory. -/
def ofName (name : String) : Category :=
  match extension? name with
  | none => .directory
  | some ext => ofExtension ext

/-- The category of a node: its kind tells directories, and a makefile is known by its name. -/
def ofEntry (e : Entry) : Category :=
  if e.kind = .directory then .directory
  else if Text.lowerAscii e.name = "makefile" then .makefile
  else match extension? e.name with
    | some ext => ofExtension ext
    | none => .other

def ofNode (n : Node) : Category := ofEntry n.entry

end Category

end SourceAtlas
