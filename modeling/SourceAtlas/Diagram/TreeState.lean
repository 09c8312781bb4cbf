import SourceAtlas.Geometry.Rect
import SourceAtlas.Layout.Tidy
import SourceAtlas.Tree.Category

/-! The state of a collapsible tree: for each node, by its position in pre-order, whether it is
expanded and where it stands. A frame is the picture of a state; it depends only on which nodes are
expanded and on the extent. -/

namespace SourceAtlas

structure TreeState.Item (α : Type) where
  name : String
  category : Category
  depth : Nat
  parent : Option Nat
  children : List Nat
  expanded : Bool
  position : Point α
  previous : Point α

/-- The nodes of the collapsible tree in pre-order, and the height of the whole tree. -/
structure TreeState (α : Type) where
  items : Array (TreeState.Item α)
  levels : Nat

namespace TreeState

variable {α : Type} [Scalar α]

/-- The positions at which a row of trees starts, the first at `id`. -/
def startIds (id : Nat) : List Node → List Nat
  | [] => []
  | n :: ns => id :: startIds (id + n.nodeCount) ns

/-- The item of an entry. At first only the root is expanded. -/
def Item.ofEntry (e : Entry) (parent : Option Nat) (depth : Nat) (children : List Nat) : Item α :=
  { name := e.name
    category := Category.ofEntry e
    depth
    parent
    children
    expanded := depth == 0
    position := Point.origin
    previous := Point.origin }

mutual
def itemsOf (parent : Option Nat) (depth id : Nat) : Node → List (Item α)
  | .mk e none => [Item.ofEntry e parent depth []]
  | .mk e (some cs) =>
    Item.ofEntry e parent depth (startIds (id + 1) cs) :: itemsBelow id (depth + 1) (id + 1) cs

def itemsBelow (parent depth id : Nat) : List Node → List (Item α)
  | [] => []
  | n :: ns => itemsOf (some parent) depth id n ++ itemsBelow parent depth (id + n.nodeCount) ns
end

/-- The state in which only the root is expanded. -/
def ofTree (root : Node) : TreeState α := ⟨(itemsOf none 0 0 root).toArray, root.height⟩

/-- The number of nodes, visible or not. -/
def size (s : TreeState α) : Nat := s.items.size

def item? (s : TreeState α) (id : Nat) : Option (Item α) := s.items[id]?

def isExpanded (s : TreeState α) (id : Nat) : Bool := (s.item? id).any (·.expanded)

def idOf (s : TreeState α) (name : String) : Option Nat := s.items.findIdx? (·.name == name)

def children (s : TreeState α) (id : Nat) : List Nat := ((s.item? id).map (·.children)).getD []

def modify (s : TreeState α) (id : Nat) (f : Item α → Item α) : TreeState α :=
  { s with items := s.items.modify id f }

/-- Expands a collapsed node and collapses an expanded one; a node without children stays. -/
def toggle (s : TreeState α) (id : Nat) : TreeState α :=
  s.modify id fun i => if i.children.isEmpty then i else { i with expanded := !i.expanded }

def setExpanded (s : TreeState α) (id : Nat) (expanded : Bool) : TreeState α :=
  s.modify id fun i => { i with expanded }

/-- Visits the node on top of the stack and, where it is expanded, puts its children in its place;
`fuel` bounds the number of visits. -/
def visibleFrom (s : TreeState α) : (fuel : Nat) → List Nat → List Nat
  | 0, _ => []
  | _ + 1, [] => []
  | fuel + 1, id :: stack =>
    id :: s.visibleFrom fuel ((if s.isExpanded id then s.children id else []) ++ stack)

/-- The visible nodes: those reached from the root through expanded nodes. A tree has no more visits
than nodes. -/
def visible (s : TreeState α) : List Nat := s.visibleFrom s.size [0]

structure Extent (α : Type) where
  breadth : α
  depth : α

structure Placed (α : Type) where
  id : Nat
  name : String
  category : Category
  depth : Nat
  parent : Option Nat
  position : Point α
  hasChildren : Bool
  expanded : Bool

/-- The visible nodes with their places, and the links from parents to children. -/
structure Frame (α : Type) where
  nodes : List (Placed α)
  links : List (Nat × Nat)

def Frame.blank : Frame α := ⟨[], []⟩

def Frame.get? (f : Frame α) (id : Nat) : Option (Placed α) := f.nodes.find? (·.id == id)

def Frame.contains (f : Frame α) (id : Nat) : Bool := f.nodes.any (·.id == id)

def Placed.ofItem (id : Nat) (i : Item α) (position : Point α) : Placed α :=
  { id, name := i.name, category := i.category, depth := i.depth, parent := i.parent, position
    hasChildren := !i.children.isEmpty, expanded := i.expanded }

def linksTo (nodes : List (Placed α)) : List (Nat × Nat) :=
  nodes.filterMap fun n => n.parent.map fun p => (p, n.id)

def frame (s : TreeState α) (extent : Extent α) : Frame α :=
  let visible := s.visible
  let parents := visible.map fun id =>
    ((s.item? id).bind (·.parent)).bind fun p => visible.findIdx? (· == p)
  let points := Layout.tidyTree parents extent.breadth extent.depth s.levels
  let nodes := (visible.zip points).filterMap fun (id, position) =>
    (s.item? id).map fun i => Placed.ofItem id i position
  ⟨nodes, linksTo nodes⟩

/-- Remembers the places of a frame, and the places before. -/
def record (s : TreeState α) (f : Frame α) : TreeState α :=
  f.nodes.foldl (fun s n =>
    s.modify n.id fun i => { i with previous := i.position, position := n.position }) s

end TreeState

end SourceAtlas
