import SourceAtlas.Layout.Squarify
import SourceAtlas.Tree.Category
import SourceAtlas.Panel.Basic

/-! Treemaps: a rectangle for each node, its area in proportion to the size of the subtree, inside
the rectangle of the parent. Siblings come in decreasing order of size. -/

namespace SourceAtlas.Treemap

variable {α : Type} [Scalar α]

structure Cell (α : Type) where
  /-- The position of the node in pre-order. -/
  id : Nat
  name : String
  kind : Kind
  category : Category
  /-- The total size of the subtree. -/
  value : Nat
  depth : Nat
  hasChildren : Bool
  rect : Rect α

/-- The free space above the children of a cell, for its header. -/
def paddingTop : α := 50.0

def paddingRight : α := 7.0

/-- Half the free space between two siblings. -/
def halfGap : α := 3.0 / 2.0

/-- The rectangle of a node, within the tile that it was given. -/
def inset (depth : Nat) (tile : Rect α) : Rect α :=
  if depth = 0 then tile else tile.pad halfGap halfGap halfGap halfGap

/-- The part of a cell that its children tile. It is half a gap wider than the space they may fill,
since each of them keeps half a gap free. -/
def interior (rect : Rect α) : Rect α :=
  rect.pad (paddingTop - halfGap) (paddingRight - halfGap) (-halfGap) (-halfGap)

def Cell.ofNode (n : Node) (id depth : Nat) (rect : Rect α) : Cell α :=
  { id, name := n.name, kind := n.kind, category := Category.ofNode n, value := n.totalSize, depth
    hasChildren := !n.children.isEmpty, rect := rect.round }

/-- The order of siblings: larger ones first, equal ones as they stand. -/
def bySize (sizes : List Nat) : List Nat :=
  (sizes.zipIdx.mergeSort fun a b => b.1 ≤ a.1).map (·.2)

def siblingTiles (sizes : List Nat) (region : Rect α) : List (Rect α) :=
  let order := bySize sizes
  let tiles := Layout.squarify (order.map fun i => Scalar.ofCount (sizes.getD i 0)) region
  sizes.zipIdx.map fun (_, i) =>
    ((order.zip tiles).find? (·.1 == i)).elim region (·.2)

mutual
/-- The cells of a subtree, its root first, the node standing at position `id`. -/
def cellsOf (id depth : Nat) (tile : Rect α) : Node → List (Cell α)
  | .mk e none => [Cell.ofNode (.mk e none) id depth (inset depth tile)]
  | .mk e (some cs) =>
    let rect := inset depth tile
    let sizes := cs.map Node.totalSize
    let blocks := cellBlocks (id + 1) (depth + 1) (siblingTiles sizes (interior rect)) cs
    Cell.ofNode (.mk e (some cs)) id depth rect ::
      (bySize sizes).flatMap fun i => blocks.getD i []

def cellBlocks (id depth : Nat) : List (Rect α) → List Node → List (List (Cell α))
  | tile :: tiles, n :: ns =>
    cellsOf id depth tile n :: cellBlocks (id + n.nodeCount) depth tiles ns
  | _, _ => []
end

/-- The cells of a tree within the given bounds, parents before children. -/
def layout (root : Node) (bounds : Rect α) : List (Cell α) := cellsOf 0 0 bounds root

def select (root : Node) (cell : Cell α) : Option Subject := Subject.at? root cell.id

/-- A name cut so that it fits a width; a cut name ends in three dots. -/
def fitLabel (name : String) (width : α) : String :=
  let room := Scalar.floor ((width - 8.0) / 6.0)
  if Scalar.atMost room 0.0 then ""
  else
    let room := Scalar.toCount room
    if name.length ≤ room then name
    else String.ofList (name.toList.take (room - 3)) ++ "..."

end SourceAtlas.Treemap
