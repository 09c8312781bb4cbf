import SourceAtlas.Diagram.Dimensions
import SourceAtlas.Svg.Drawing
import SourceAtlas.Tree.Category

/-! The legend of a diagram: one swatch for each category, at the right end of the top margin. -/

namespace SourceAtlas.Diagram

open Svg

def legendItemWidth : Float := 100.0

def legendItem (index : Nat) (category : Category) : Drawing :=
  [.enter "g" [("class", "legend-item"),
     ("transform", translate (Scalar.ofCount index * legendItemWidth) 0.0)],
   .element "rect" [("width", "18"), ("height", "18"), ("fill", category.color)],
   .text "text" [("x", number 24.0), ("y", number 9.0), ("dy", ".35em"), ("font-size", "10px")]
     category.name,
   .leave]

def legend (surfaceWidth : Float) (dims : Dimensions Float) : Drawing :=
  let total := legendItemWidth * Scalar.ofCount Category.all.length
  let x := Scalar.positivePart (surfaceWidth - dims.margin.right - total)
  [.enter "g" [("class", "legend"), ("transform", translate x dims.margin.top)]]
    ++ Category.all.zipIdx.flatMap (fun (category, i) => legendItem i category)
    ++ [.leave]

end SourceAtlas.Diagram
