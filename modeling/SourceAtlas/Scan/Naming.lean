import SourceAtlas.Text.Word

/-! What a file's name alone decides: whether it belongs to the map of a codebase, and the stub of
its readme. -/

namespace SourceAtlas.Scan

def folded (name : String) : List Char := name.toList.map Text.foldCase

/-- Whether a text begins with a word; what follows the word is the result. -/
def after? (word : List Char) (cs : List Char) : Option (List Char) :=
  if word.isPrefixOf cs then some (cs.drop word.length) else none

/-- Leftovers of a build and documents that are no part of the code: readmes, file lists, plans,
logs of changes and precompiled headers. Case does not matter. -/
def isIgnored (name : String) : Bool :=
  let cs := folded name
  let oneLine (rest : List Char) : Bool := !rest.contains '\n'
  (match after? "readme".toList cs with
    | some rest => oneLine rest
    | none => false)
  || (match after? "files".toList cs with
    | some rest => rest.all Text.isDecimal
    | none => false)
  || cs == "todo".toList
  || cs == "changelog".toList
  || (oneLine cs && ".h.gch".toList.isSuffixOf cs)

def stem (name : String) : String := String.ofList (name.toList.takeWhile (· ≠ '.'))

def stubReadme (name : String) : String :=
  "# " ++ name ++ "\n\nThis file contains functionality related to " ++ stem name ++ "."

end SourceAtlas.Scan
