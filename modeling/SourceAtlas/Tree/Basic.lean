import SourceAtlas.Json.Basic

/-! The tree of a codebase: directories and files, each with what its document says of it. -/

namespace SourceAtlas

inductive Kind where
  | directory
  | file
  deriving DecidableEq, Repr

def Kind.name : Kind → String
  | .directory => "directory"
  | .file => "file"

/-- What is known of a file's contents: its source text, and members that are only carried along. -/
structure Content where
  source : Option String := none
  extra : Json.Members := []

/-- What a node says of itself. Members that have no meaning here are carried along in `extra`. -/
structure Entry where
  name : String
  kind : Kind
  size : Option UInt64 := none
  path : Option String := none
  dependencies : List String := []
  inputs : List String := []
  outputs : List String := []
  readme : Option String := none
  content : Option Content := none
  extra : Json.Members := []

/-- A node: its entry and, when the document lists them, its children in order. -/
inductive Node where
  | mk (entry : Entry) (children : Option (List Node))

namespace Node

def entry : Node → Entry
  | .mk e _ => e

def listed : Node → Option (List Node)
  | .mk _ cs => cs

def children (n : Node) : List Node := n.listed.getD []

def name (n : Node) : String := n.entry.name

def kind (n : Node) : Kind := n.entry.kind

def isFile (n : Node) : Bool := n.kind = .file

def isDirectory (n : Node) : Bool := n.kind = .directory

def source (n : Node) : Option String := n.entry.content.bind (·.source)

def directory (name : String) (children : List Node) : Node :=
  .mk { name, kind := .directory } (some children)

/-- A file about which nothing but its name is known. -/
def file (name : String) : Node := .mk { name, kind := .file } none

mutual
/-- The nodes of a tree, each before its children. -/
def preorder : Node → List Node
  | .mk e none => [.mk e none]
  | .mk e (some cs) => .mk e (some cs) :: preorderAll cs

def preorderAll : List Node → List Node
  | [] => []
  | n :: ns => preorder n ++ preorderAll ns
end

mutual
def nodeCount : Node → Nat
  | .mk _ none => 1
  | .mk _ (some cs) => 1 + nodeCountAll cs

def nodeCountAll : List Node → Nat
  | [] => 0
  | n :: ns => nodeCount n + nodeCountAll ns
end

mutual
/-- The greatest number of edges from the root down to a leaf. -/
def height : Node → Nat
  | .mk _ none => 0
  | .mk _ (some cs) => heightBelow cs

def heightBelow : List Node → Nat
  | [] => 0
  | n :: ns => max (height n + 1) (heightBelow ns)
end

mutual
/-- The bytes of a file, or of all files in a directory. A directory's own size does not count. A
size is a number of 64 bits, and so is the total: sums are taken to stay below `2 ^ 64`. -/
def totalSize : Node → Nat
  | .mk e none => if e.kind = .file then (e.size.map UInt64.toNat).getD 0 else 0
  | .mk e (some cs) => if e.kind = .file then (e.size.map UInt64.toNat).getD 0 else totalSizeAll cs

def totalSizeAll : List Node → Nat
  | [] => 0
  | n :: ns => totalSize n + totalSizeAll ns
end

mutual
/-- The same tree with a child list, possibly empty, on every directory. -/
def normalize : Node → Node
  | .mk e none => .mk e (if e.kind = .directory then some [] else none)
  | .mk e (some cs) => .mk e (some (normalizeAll cs))

def normalizeAll : List Node → List Node
  | [] => []
  | n :: ns => normalize n :: normalizeAll ns
end

def names (n : Node) : List String := n.preorder.map name

end Node

/-- The entry with the given source text attached; what else is known of the content stays. -/
def Entry.withSource (e : Entry) (text : String) : Entry :=
  { e with content := some { e.content.getD {} with source := some text } }

end SourceAtlas
