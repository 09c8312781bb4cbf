import SourceAtlas.Layout.PointScale
import SourceAtlas.Diagram.Legend
import SourceAtlas.Panel.Basic

/-! Arc diagrams: the endpoints of a view's links on a vertical line, and a semicircle for each
link. A diagram keeps the links of its view, their endpoints and the heights of these at hand; they
are made anew whenever the view changes. -/

namespace SourceAtlas

/-- An arc diagram. Without a view it is empty. -/
structure ArcDiagram where
  tree : Node
  dims : Dimensions Float
  view : Option View
  /-- The links of the view. -/
  links : List Link
  /-- The endpoints of the links, from top to bottom. -/
  endpoints : List Endpoint
  /-- The endpoints with their heights on the line. -/
  placed : List (Endpoint × Float)
  hovered : Option String

namespace ArcDiagram

/-- The height of three screens inside the margin. -/
def height (d : ArcDiagram) : Float :=
  d.dims.height * 3.0 - d.dims.margin.top - d.dims.margin.bottom

/-- Finds the endpoints of the links and spreads them over the line; nothing is hovered then. -/
def reindex (d : ArcDiagram) : ArcDiagram :=
  let endpoints := Link.endpoints d.links
  { d with
    endpoints
    placed := endpoints.zip (Layout.pointScale endpoints.length 0.0 d.height)
    hovered := none }

def setView (d : ArcDiagram) (view : View) : ArcDiagram :=
  { d with view := some view, links := d.tree.links view }.reindex

/-- Shows the view that a text names; a text that names none empties the diagram. -/
def select (d : ArcDiagram) (text : String) : ArcDiagram :=
  match View.parse? text with
  | some view => d.setView view
  | none => { d with view := none, links := [] }.reindex

def ofTree (tree : Node) (dims : Dimensions Float) : ArcDiagram :=
  let d : ArcDiagram :=
    { tree, dims, view := none, links := [], endpoints := [], placed := [], hovered := none }
  d.setView .hierarchy

def hover (d : ArcDiagram) (name : String) : ArcDiagram := { d with hovered := some name }

def leave (d : ArcDiagram) : ArcDiagram := { d with hovered := none }

def heightIn (placed : List (Endpoint × Float)) (name : String) : Option Float :=
  (placed.find? (·.1.name == name)).map (·.2)

def position? (d : ArcDiagram) (name : String) : Option Float := heightIn d.placed name

/-- A semicircle at `x` between two heights; it bulges to the right when it goes down. -/
def semicircle (x y1 y2 : Float) : String :=
  let r := Svg.number ((y2 - y1).abs / 2.0)
  "M" ++ Svg.number x ++ "," ++ Svg.number y1 ++ "A" ++ r ++ "," ++ r ++ " 0,0,"
    ++ (if y1 < y2 then "1" else "0") ++ " " ++ Svg.number x ++ "," ++ Svg.number y2

def pathIn (d : ArcDiagram) (placed : List (Endpoint × Float)) (l : Link) : Option String :=
  match heightIn placed l.source, heightIn placed l.target with
  | some y1, some y2 => some (semicircle d.dims.margin.left y1 y2)
  | _, _ => none

/-- The semicircle of a link; none when an end is not on the line. -/
def path? (d : ArcDiagram) (l : Link) : Option String := d.pathIn d.placed l

/-- Links at the hovered name stand out, the others fade. -/
def opacity (d : ArcDiagram) (l : Link) : Float :=
  match d.hovered with
  | none => 0.6
  | some name => if l.touches name then 1.0 else 0.1

/-- The hovered endpoint is drawn larger. -/
def radius (d : ArcDiagram) (name : String) : Float :=
  if d.hovered = some name then 6.0 else 3.0

/-- What a click on a name selects; nothing when it is not on the line. -/
def click (d : ArcDiagram) (name : String) : Option Subject :=
  (d.endpoints.find? (·.name == name)).map (Subject.resolve d.tree)

open Svg

def linkDrawing (d : ArcDiagram) (l : Link) : Drawing :=
  match d.path? l with
  | some path =>
    [.element "path" [("d", path), ("stroke", (Category.ofName l.source).color),
      ("stroke-opacity", number (d.opacity l)), ("data-source", l.source),
      ("data-target", l.target)]]
  | none => []

def endpointDrawing (d : ArcDiagram) (e : Endpoint) : Drawing :=
  [.enter "g" [("class", "arc-node"), ("data-id", e.name),
     ("transform", translate d.dims.margin.left ((d.position? e.name).getD 0.0))],
   .text "text" [("x", number (-6.0)), ("dy", "0.35em"), ("fill", e.group.color)] e.name,
   .element "circle" [("r", number (d.radius e.name)), ("fill", e.group.color)],
   .leave]

def drawing (d : ArcDiagram) : Drawing :=
  let m := d.dims.margin
  [.enter "g" [("class", "arc"), ("transform", translate m.left m.top)],
   .enter "g" [("fill", "none"), ("stroke-width", "1.5")]]
    ++ d.links.flatMap d.linkDrawing
    ++ [.leave, .enter "g" [("font-size", "10"), ("text-anchor", "end")]]
    ++ d.endpoints.flatMap d.endpointDrawing
    ++ [.leave, .leave]
    ++ Diagram.legend d.dims.width d.dims

def toSvg (d : ArcDiagram) : String :=
  document d.dims.width (d.height + d.dims.margin.top + d.dims.margin.bottom) d.drawing

end ArcDiagram

end SourceAtlas
