import SourceAtlas.Links.View
import SourceAtlas.Tree.Category

/-! Links between names. Every view of a tree is a list of links in pre-order, a node's own links
before those of the nodes below it; the endpoints of a list are its distinct names by first
occurrence. -/

namespace SourceAtlas

structure Link where
  source : String
  target : String
  deriving DecidableEq, Repr

def Link.touches (l : Link) (name : String) : Bool := l.source == name || l.target == name

/-- An end of a link, as a diagram draws it. -/
structure Endpoint where
  name : String
  group : Category
  deriving DecidableEq, Repr

def Endpoint.ofName (name : String) : Endpoint := ⟨name, Category.ofName name⟩

/-- The links that an entry gives by itself: none for a directory. -/
def Entry.links (view : View) (e : Entry) : List Link :=
  if e.kind = .file then
    match view with
    | .hierarchy => []
    | .dependency => e.dependencies.map fun d => ⟨e.name, d⟩
    | .input => e.inputs.map fun i => ⟨i, e.name⟩
    | .output => e.outputs.map fun o => ⟨e.name, o⟩
  else []

namespace Node

mutual
def hierarchyLinks : Node → List Link
  | .mk _ none => []
  | .mk e (some cs) => hierarchyLinksBelow e.name cs

/-- The links from a parent to the nodes of a row, and the links below each of them. -/
def hierarchyLinksBelow (parent : String) : List Node → List Link
  | [] => []
  | n :: ns => ⟨parent, n.name⟩ :: (hierarchyLinks n ++ hierarchyLinksBelow parent ns)
end

mutual
def entryLinks (view : View) : Node → List Link
  | .mk e none => e.links view
  | .mk e (some cs) => e.links view ++ entryLinksAll view cs

/-- The links that the entries of a row of trees give by themselves. -/
def entryLinksAll (view : View) : List Node → List Link
  | [] => []
  | n :: ns => entryLinks view n ++ entryLinksAll view ns
end

def links (n : Node) (view : View) : List Link :=
  match view with
  | .hierarchy => n.hierarchyLinks
  | view => n.entryLinks view

/-- The links of the view that a text names; none when it names no view. -/
def linksNamed (n : Node) (text : String) : List Link :=
  match View.parse? text with
  | some view => n.links view
  | none => []

end Node

def addNames (known : List String) : List String → List String
  | [] => known
  | s :: rest => addNames (if known.contains s then known else known ++ [s]) rest

def Link.names (links : List Link) : List String :=
  addNames [] (links.flatMap fun l => [l.source, l.target])

/-- The endpoints of links by first occurrence. -/
def Link.endpoints (links : List Link) : List Endpoint := (Link.names links).map Endpoint.ofName

structure LinkSet where
  view : View
  links : List Link
  endpoints : List Endpoint

def Node.linkSet? (n : Node) (text : String) : Option LinkSet :=
  (View.parse? text).map fun view =>
    let links := n.links view
    ⟨view, links, Link.endpoints links⟩

end SourceAtlas
