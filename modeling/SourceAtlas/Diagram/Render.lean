import SourceAtlas.Diagram.Renderer
import SourceAtlas.Diagram.TreeDrawing
import SourceAtlas.Diagram.TreemapDrawing
import SourceAtlas.Diagram.Arc

/-! Drawing a tree in one go. -/

namespace SourceAtlas.Diagram

/-- The document of a fresh diagram; the view matters for the arc diagram only. -/
def draw (root : Node) (renderer : Renderer) (dims : Dimensions Float) (view : View) : String :=
  match renderer with
  | .tree => (TreeView.ofTree root dims).toSvg
  | .treemap => Treemap.toSvg root dims
  | .arc => ((ArcDiagram.ofTree root dims).setView view).toSvg

/-- What is to be drawn: for the arc diagram the view, for the tree the names to expand. -/
structure Options where
  dims : Dimensions Float := Dimensions.standard
  view : View := .hierarchy
  expand : List String := []

/-- The document of a diagram. The tree diagram fails on the first name that no node carries. -/
def render (root : Node) (renderer : Renderer) (options : Options) : Except String String :=
  match renderer with
  | .tree =>
    ((TreeView.ofTree root options.dims).expandNames options.expand).map TreeView.toSvg
  | .treemap => .ok (Treemap.toSvg root options.dims)
  | .arc => .ok ((ArcDiagram.ofTree root options.dims).setView options.view).toSvg

end SourceAtlas.Diagram
