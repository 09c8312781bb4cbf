import SourceAtlas.Tree.Basic

/-! Putting files at their places in a tree. The children of a directory stay in the order of their
names, whatever the order in which files come, and a directory exists only for the sake of a
file. -/

namespace SourceAtlas.Scan

/-- Puts a file among the children of a directory, behind those whose names are not greater. -/
def putFile (file : Node) : List Node → List Node
  | [] => [file]
  | n :: ns => if file.name < n.name then file :: n :: ns else n :: putFile file ns

/-- Changes the children of the directory of a given name, which is made if it is not there yet. A
directory comes before a file of the same name. -/
def putDirectory (name : String) (change : List Node → List Node) : List Node → List Node
  | [] => [.directory name (change [])]
  | n :: ns =>
    if n.name = name ∧ n.kind = .directory then .mk n.entry (some (change n.children)) :: ns
    else if n.name < name then n :: putDirectory name change ns
    else .directory name (change []) :: n :: ns

def place (directories : List String) (file : Node) : List Node → List Node :=
  match directories with
  | [] => putFile file
  | d :: ds => putDirectory d (place ds file)

/-- The tree of files given with the names of the directories above them. -/
def assemble (name : String) (files : List (List String × Node)) : Node :=
  .directory name
    (files.foldl (fun children (directories, file) => place directories file children) [])

end SourceAtlas.Scan
