import SourceAtlas.Diagram.Treemap
import SourceAtlas.Diagram.Legend

/-! The drawing of a treemap. -/

namespace SourceAtlas.Treemap

open Svg

def caption (y : Float) (size : String) : Attributes :=
  [("x", number 4.0), ("y", number y), ("dy", ".35em"), ("font-size", size)]

/-- A cell: its rectangle, its name as far as it fits, its size, and a tooltip. -/
def cellDrawing (c : Cell Float) : Drawing :=
  let (stroke, strokeWidth) := if c.hasChildren then ("#000", "2") else ("none", "0")
  [.enter "g" [("class", "cell"), ("data-id", toString c.id), ("data-name", c.name),
     ("transform", translate c.rect.x0 c.rect.y0)],
   .element "rect" [("width", number c.rect.width), ("height", number c.rect.height),
     ("fill", c.category.color), ("stroke", stroke), ("stroke-width", strokeWidth)],
   .text "text" (caption 14.0 "10px") (fitLabel c.name c.rect.width),
   .text "text" (caption 26.0 "9px" ++ [("fill", "#555")]) (toString c.value),
   .text "title" []
     (c.name ++ "\nSize: " ++ toString c.value ++ "\nType: " ++ c.kind.name),
   .leave]

/-- The document of a tree's treemap, one and a half screens wide and two screens high. -/
def toSvg (root : Node) (dims : Dimensions Float) : String :=
  let m := dims.margin
  let width := dims.width * 1.5 - m.left - m.right
  let height := dims.height * 2.0 - m.top - m.bottom
  let surfaceWidth := width + m.left + m.right
  document surfaceWidth (height + m.top + m.bottom + paddingTop)
    ([.enter "g" [("class", "treemap"), ("transform", translate m.left (m.top + paddingTop))]]
      ++ (layout root ⟨0.0, 0.0, width, height⟩).flatMap cellDrawing
      ++ [.leave]
      ++ Diagram.legend surfaceWidth dims)

end SourceAtlas.Treemap
