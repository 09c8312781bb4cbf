/-! The numbers of the layouts. Layouts are written once, over any type with the operations below:
run on doubles they give the coordinates of a drawing, read over the rationals they can be reasoned
about exactly. Nothing is assumed of the operations, so what holds for every such type also holds of
doubles with their infinities and undefined values. -/

namespace SourceAtlas

/-- The arithmetic that layouts need. -/
class Scalar (α : Type) extends Add α, Sub α, Mul α, Div α, Neg α, OfScientific α where
  /-- The number of a count. -/
  ofCount : Nat → α
  /-- Strictly less; false when a side is undefined. -/
  less : α → α → Bool
  /-- Less or equal; false when a side is undefined. -/
  atMost : α → α → Bool
  /-- The larger of two numbers; an undefined one gives way to the other. -/
  larger : α → α → α
  /-- The smaller of two numbers; an undefined one gives way to the other. -/
  smaller : α → α → α
  /-- The nearest whole number, a half going away from zero. -/
  round : α → α
  /-- The greatest whole number that is not above. -/
  floor : α → α
  /-- The whole part as a count; zero below zero and when undefined. -/
  toCount : α → Nat

namespace Scalar

def positivePart {α : Type} [Scalar α] (a : α) : α := larger a 0.0

end Scalar

instance : Scalar Float where
  ofCount n := Float.ofScientific n false 0
  less a b := a < b
  atMost a b := a ≤ b
  larger a b := if a < b then b else if a.isNaN then b else a
  smaller a b := if b < a then b else if a.isNaN then b else a
  round := Float.round
  floor := Float.floor
  toCount a := a.toUInt64.toNat

instance : Scalar Rat where
  ofCount n := (n : Rat)
  less a b := a < b
  atMost a b := a ≤ b
  larger a b := if a < b then b else a
  smaller a b := if b < a then b else a
  round a := if a < 0 then -((-a + 1 / 2).floor : Rat) else ((a + 1 / 2).floor : Rat)
  floor a := (a.floor : Rat)
  toCount a := a.floor.toNat

end SourceAtlas
