import Mathlib.Algebra.Order.Field.Rat
import Mathlib.Tactic.NormNum
import SourceAtlas.Geometry.Rect

/-! # Exact numbers and rectangles

Over the rationals the operations of the layouts are the usual ones, and a rectangle is a set of
points: it may cover a point, lie inside another rectangle or have no inner point in common with
it. -/

namespace SourceAtlas

namespace Scalar

variable {a b : Rat}

theorem less_iff : less a b = true ↔ a < b := decide_eq_true_iff

theorem zero_eq : (toOfScientific.ofScientific 0 true 1 : Rat) = 0 := by norm_num

theorem positivePart_eq (a : Rat) : positivePart a = max a 0 := by
  rw [positivePart, zero_eq, max_def_lt]
  rfl

end Scalar

/-! ## Rectangles -/

namespace Rect

variable {r t a b : Rect Rat} {p : Point Rat}

/-- The point lies in the rectangle or on an edge of it. -/
def Covers (r : Rect Rat) (p : Point Rat) : Prop :=
  r.x0 ≤ p.x ∧ p.x ≤ r.x1 ∧ r.y0 ≤ p.y ∧ p.y ≤ r.y1

/-- The point lies strictly inside the rectangle. -/
def Interior (r : Rect Rat) (p : Point Rat) : Prop :=
  r.x0 < p.x ∧ p.x < r.x1 ∧ r.y0 < p.y ∧ p.y < r.y1

/-- The interiors of the two have no point in common. -/
def Apart (r t : Rect Rat) : Prop := ∀ p, r.Interior p → ¬ t.Interior p

/-- The edges of the rectangle stand in order. -/
def Upright (r : Rect Rat) : Prop := r.x0 ≤ r.x1 ∧ r.y0 ≤ r.y1

theorem Upright.area_eq (h : r.Upright) : r.area = r.width * r.height := by
  have hw : 0 ≤ r.width := sub_nonneg.mpr h.1
  have hh : 0 ≤ r.height := sub_nonneg.mpr h.2
  rw [area, Scalar.positivePart_eq, Scalar.positivePart_eq, max_eq_left hw, max_eq_left hh]

/-- The edges of the rectangle stand in order and within those of the other one. -/
structure Inside (r b : Rect Rat) : Prop where
  upright : r.Upright
  left : b.x0 ≤ r.x0
  right : r.x1 ≤ b.x1
  top : b.y0 ≤ r.y0
  bottom : r.y1 ≤ b.y1

theorem Inside.trans (h : r.Inside a) (h' : a.Inside b) : r.Inside b where
  upright := h.upright
  left := h'.left.trans h.left
  right := h.right.trans h'.right
  top := h'.top.trans h.top
  bottom := h.bottom.trans h'.bottom

theorem Inside.interior (h : r.Inside b) (hp : r.Interior p) : b.Interior p := by
  obtain ⟨h1, h2, h3, h4⟩ := hp
  exact ⟨h.left.trans_lt h1, h2.trans_le h.right, h.top.trans_lt h3, h4.trans_le h.bottom⟩

theorem Apart.inside (h : a.Apart b) (hr : r.Inside a) (ht : t.Inside b) : r.Apart t := by
  intro p hp hp'
  exact h p (hr.interior hp) (ht.interior hp')

/-- The rectangle between `start` and `stop` in one direction and between `near` and `far` in the
other one; a flat one has the first direction along `x`. -/
def laid (flat : Bool) (start stop near far : Rat) : Rect Rat :=
  if flat then ⟨start, near, stop, far⟩ else ⟨near, start, far, stop⟩

variable {flat : Bool} {start mid stop near far : Rat}

theorem laid_not : laid (!flat) start stop near far = laid flat near far start stop := by
  cases flat <;> rfl

theorem laid_upright : (laid flat start stop near far).Upright ↔ start ≤ stop ∧ near ≤ far := by
  cases flat with
  | true => exact Iff.rfl
  | false => exact and_comm

theorem laid_inside {start' stop' near' far' : Rat} (hwide : start ≤ stop) (hhigh : near ≤ far)
    (hstart : start' ≤ start) (hstop : stop ≤ stop') (hnear : near' ≤ near) (hfar : far ≤ far') :
    (laid flat start stop near far).Inside (laid flat start' stop' near' far') := by
  cases flat with
  | true => exact ⟨⟨hwide, hhigh⟩, hstart, hstop, hnear, hfar⟩
  | false => exact ⟨⟨hhigh, hwide⟩, hnear, hfar, hstart, hstop⟩

theorem area_laid (hwide : start ≤ stop) (hhigh : near ≤ far) :
    (laid flat start stop near far).area = (stop - start) * (far - near) := by
  rw [(laid_upright.mpr ⟨hwide, hhigh⟩).area_eq]
  cases flat with
  | true => rfl
  | false => exact mul_comm ..

theorem laid_apart : (laid flat start mid near far).Apart (laid flat mid stop near far) := by
  intro p hp hp'
  cases flat with
  | true => exact lt_asymm hp.2.1 hp'.1
  | false => exact lt_asymm hp.2.2.2 hp'.2.2.1

/-- A point between the ends lies on one side of each point in between. -/
theorem covers_laid (h : (laid flat start stop near far).Covers p) (mid : Rat) :
    (laid flat start mid near far).Covers p ∨ (laid flat mid stop near far).Covers p := by
  cases flat with
  | true =>
    obtain ⟨h1, h2, h3, h4⟩ := h
    exact (le_total p.x mid).imp (fun h => ⟨h1, h, h3, h4⟩) fun h => ⟨h, h2, h3, h4⟩
  | false =>
    obtain ⟨h1, h2, h3, h4⟩ := h
    exact (le_total p.y mid).imp (fun h => ⟨h1, h2, h3, h⟩) fun h => ⟨h1, h2, h, h4⟩

end Rect

end SourceAtlas
