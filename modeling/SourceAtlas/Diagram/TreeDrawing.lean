import SourceAtlas.Diagram.TreeView
import SourceAtlas.Diagram.Legend

/-! The drawing of a collapsible tree. The tree grows from left to right, so the breadth of the
layout is the height of the drawing. -/

namespace SourceAtlas.TreeView

open Svg TreeState

/-- A curve between two nodes, level where it meets them. -/
def diagonal (s d : Point Float) : String :=
  let mid := (s.y + d.y) / 2.0
  "M " ++ number s.y ++ " " ++ number s.x ++ " C " ++ number mid ++ " " ++ number s.x ++ ", "
    ++ number mid ++ " " ++ number d.x ++ ", " ++ number d.y ++ " " ++ number d.x

def linkDrawing (f : Frame Float) (link : Nat × Nat) : Drawing :=
  match f.get? link.1, f.get? link.2 with
  | some parent, some child =>
    [.element "path" [("class", "link"), ("d", diagonal child.position parent.position)]]
  | _, _ => []

/-- A node: a circle, and its name on the side away from its children. -/
def nodeDrawing (n : Placed Float) : Drawing :=
  let (dx, anchor) : Float × String := if n.hasChildren then (-13.0, "end") else (13.0, "start")
  [.enter "g" [("class", "node"), ("data-id", toString n.id),
     ("data-expanded", if n.expanded then "true" else "false"),
     ("transform", translate n.position.y n.position.x)],
   .element "circle" [("r", number 7.0), ("fill", n.category.color), ("stroke", "#000"),
     ("stroke-width", "1px")],
   .text "text" [("dy", ".31em"), ("x", number dx), ("text-anchor", anchor), ("font-size", "10px")]
     n.name,
   .leave]

/-- The width of the surface; it leaves room for the names of the last level. -/
def surfaceWidth (v : TreeView Float) : Float :=
  let m := v.dims.margin
  Scalar.larger (m.left + v.extent.depth + m.right + 160.0) v.dims.width

def surfaceHeight (v : TreeView Float) : Float :=
  let m := v.dims.margin
  Scalar.larger (m.top + v.extent.breadth + m.bottom) v.dims.height

def drawing (v : TreeView Float) : Drawing :=
  let m := v.dims.margin
  [.enter "g" [("class", "tree"), ("transform", translate m.left m.top)],
   .enter "g" [("fill", "none"), ("stroke", "#ccc"), ("stroke-width", "1.5")]]
    ++ v.frame.links.flatMap (linkDrawing v.frame)
    ++ [.leave]
    ++ v.frame.nodes.flatMap nodeDrawing
    ++ [.leave]
    ++ Diagram.legend v.surfaceWidth v.dims

def toSvg (v : TreeView Float) : String := document v.surfaceWidth v.surfaceHeight v.drawing

end SourceAtlas.TreeView
