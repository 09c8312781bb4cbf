import SourceAtlas.Geometry.Scalar

/-! Points and rectangles. -/

namespace SourceAtlas

/-- A point of the plane. In a tree layout `x` runs along the breadth and `y` along the depth. -/
structure Point (α : Type) where
  x : α
  y : α
  deriving Repr

/-- A rectangle given by two opposite corners. -/
structure Rect (α : Type) where
  x0 : α
  y0 : α
  x1 : α
  y1 : α
  deriving Repr

variable {α : Type} [Scalar α]

def Point.origin : Point α := ⟨0.0, 0.0⟩

namespace Rect

def width (r : Rect α) : α := r.x1 - r.x0

def height (r : Rect α) : α := r.y1 - r.y0

/-- The area, zero for a rectangle turned inside out. -/
def area (r : Rect α) : α := Scalar.positivePart r.width * Scalar.positivePart r.height

/-- Two edges that have moved past each other meet in the middle. -/
def meet (lo hi : α) : α × α :=
  if Scalar.less hi lo then
    let mid := (lo + hi) / 2.0
    (mid, mid)
  else (lo, hi)

def pad (r : Rect α) (top right bottom left : α) : Rect α :=
  let (x0, x1) := meet (r.x0 + left) (r.x1 - right)
  let (y0, y1) := meet (r.y0 + top) (r.y1 - bottom)
  ⟨x0, y0, x1, y1⟩

def round (r : Rect α) : Rect α :=
  ⟨Scalar.round r.x0, Scalar.round r.y0, Scalar.round r.x1, Scalar.round r.y1⟩

end Rect

end SourceAtlas
