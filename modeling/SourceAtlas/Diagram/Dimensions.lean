import SourceAtlas.Geometry.Scalar

/-! The size of a drawing. -/

namespace SourceAtlas

structure Margin (α : Type) where
  top : α
  right : α
  bottom : α
  left : α

/-- The size of the screen and the space left free. -/
structure Dimensions (α : Type) where
  width : α
  height : α
  margin : Margin α

namespace Dimensions

variable {α : Type} [Scalar α]

def ofSize (width height : α) : Dimensions α :=
  { width, height, margin := ⟨20.0, 20.0, 20.0, 40.0⟩ }

def standard : Dimensions α := ofSize 960.0 600.0

/-- The width inside the margin. -/
def boundWidth (d : Dimensions α) : α := d.width - d.margin.left - d.margin.right

/-- The height of two screens inside the margin; diagrams scroll. -/
def boundHeight (d : Dimensions α) : α := d.height * 2.0 - d.margin.top - d.margin.bottom

end Dimensions

end SourceAtlas
