import SourceAtlas.Links.Basic
import SourceAtlas.Tree.Locate

/-! The detail panel of a selected node: a title, a few facts and sections that open and close. -/

namespace SourceAtlas

/-- What a panel describes: a node of the tree, or a name that only occurs as a reference. -/
inductive Subject where
  | full (node : Node)
  | minimal (endpoint : Endpoint)

namespace Subject

/-- The node of the tree that carries the endpoint's name, else the endpoint itself. -/
def resolve (root : Node) (endpoint : Endpoint) : Subject :=
  match root.findByName endpoint.name with
  | some n => .full n
  | none => .minimal endpoint

def at? (root : Node) (id : Nat) : Option Subject := (root.findById id).map .full

def name : Subject → String
  | .full n => n.name
  | .minimal e => e.name

end Subject

inductive Body where
  | text (value : String)
  | list (items : List String)
  | code (value : String)
  deriving DecidableEq, Repr

/-- A section with its heading; only an expanded one shows its body. -/
structure Section where
  title : String
  body : Body
  expanded : Bool := false
  deriving DecidableEq, Repr

structure Fact where
  label : String
  value : String
  deriving DecidableEq, Repr

structure Panel where
  title : String
  facts : List Fact := []
  sections : List Section := []
  message : Option String := none
  deriving DecidableEq, Repr

namespace Panel

/-- The panel when nothing is selected. -/
def empty : Panel :=
  { title := "", message := some "No details available for this node." }

def childNames (n : Node) (kind : Kind) : List String :=
  (n.children.filter (·.kind = kind)).map (·.name)

/-- A section with a list, left out when there are no items. -/
def listSection (title : String) (items : List String) : List Section :=
  if items.isEmpty then [] else [{ title, body := .list items }]

def directorySections (n : Node) : List Section :=
  [{ title := "Subdirectories", body := .list (childNames n .directory) },
   { title := "Files", body := .list (childNames n .file) }]

def fileSections (n : Node) : List Section :=
  let e := n.entry
  (e.readme.toList.map fun readme => { title := "Published Readme", body := .text readme })
    ++ [{ title := "Gen AI Analysis", body := .text "AI analysis not available yet." }]
    ++ listSection "Dependencies" e.dependencies
    ++ listSection "Inputs" e.inputs
    ++ listSection "Outputs" e.outputs
    ++ [{ title := "Source Code",
          body := match n.source with
            | some text => .code text
            | none => .text "Source code not available in static version" }]

/-- The facts of a node: its kind, and its size when that is known and not zero. -/
def nodeFacts (n : Node) : List Fact :=
  { label := "Type", value := n.kind.name } ::
    match n.entry.size with
    | some size => if 0 < size then [⟨"Size", toString size.toNat ++ " bytes"⟩] else []
    | none => []

def ofNode (n : Node) : Panel :=
  { title := n.name
    facts := nodeFacts n
    sections := if n.isDirectory then directorySections n else fileSections n }

/-- The panel of a name that is not in the tree. -/
def ofEndpoint (e : Endpoint) : Panel :=
  { title := e.name
    facts := [⟨"Category", e.group.name⟩]
    message := some "Not present in the codebase structure." }

def build : Subject → Panel
  | .full n => ofNode n
  | .minimal e => ofEndpoint e

def named (root : Node) (name : String) : Panel :=
  build (Subject.resolve root (Endpoint.ofName name))

def at? (root : Node) (id : Nat) : Option Panel := (Subject.at? root id).map build

def section? (p : Panel) (title : String) : Option Section :=
  p.sections.find? (·.title == title)

/-- Opens or closes the section at an index; its new state comes with the panel. -/
def toggle (p : Panel) (index : Nat) : Option Bool × Panel :=
  match p.sections[index]? with
  | some s =>
    let flipped := { s with expanded := !s.expanded }
    (some flipped.expanded, { p with sections := p.sections.set index flipped })
  | none => (none, p)

/-- Opens or closes the first section with the given title. -/
def toggleTitle (p : Panel) (title : String) : Option Bool × Panel :=
  match p.sections.findIdx? (·.title == title) with
  | some index => p.toggle index
  | none => (none, p)

def expandAll (p : Panel) : Panel :=
  { p with sections := p.sections.map fun s => { s with expanded := true } }

end Panel

end SourceAtlas
