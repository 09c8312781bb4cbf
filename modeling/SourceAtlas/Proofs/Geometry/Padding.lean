import Mathlib.Data.Rat.Floor
import Mathlib.Tactic.Linarith
import SourceAtlas.Proofs.Geometry.Exact

/-! # Moved and rounded edges

A half is rounded away from zero, so rounding does not commute with whole steps: a step that leaves
the negative numbers may gain one. It never loses anything, which is all that distances need: edges
that are a whole number apart are so after rounding (`round_add_le`). -/

namespace SourceAtlas

namespace Scalar

variable {a b : Rat}

theorem round_of_neg (h : a < 0) : round a = -(⌊-a + 1 / 2⌋ : Rat) := if_pos h

theorem round_of_nonneg (h : 0 ≤ a) : round a = (⌊a + 1 / 2⌋ : Rat) := if_neg (not_lt.mpr h)

/-- A number that lies a whole step above another one does so after rounding. -/
theorem round_add_le (n : Nat) (h : a + n ≤ b) : round a + n ≤ round b := by
  have hn : (0 : Rat) ≤ n := Nat.cast_nonneg n
  have hcast {x y : Int} (hxy : x + (n : Int) ≤ y) : (x : Rat) + n ≤ y := by exact_mod_cast hxy
  have hfloor {x y : Rat} (hxy : x + n ≤ y) : (⌊x⌋ : Rat) + n ≤ ⌊y⌋ := by
    refine hcast ?_
    rw [← Int.floor_add_natCast]
    exact Int.floor_le_floor hxy
  rcases lt_or_ge a 0 with ha | ha
  · rw [round_of_neg ha]
    rcases lt_or_ge b 0 with hb | hb
    · rw [round_of_neg hb]
      have := hfloor (show -b + 1 / 2 + n ≤ -a + 1 / 2 by linarith)
      linarith
    · -- on the two sides of zero a half goes in opposite directions
      rw [round_of_nonneg hb, ← Int.cast_neg]
      have hlow : -a + 1 / 2 < ⌊-a + 1 / 2⌋ + 1 := Int.lt_floor_add_one _
      refine hcast (Int.le_floor.mpr ?_)
      push_cast
      linarith
  · rw [round_of_nonneg ha, round_of_nonneg (by linarith)]
    exact hfloor (by linarith)

theorem round_add_ofNat_le {n : Nat} [n.AtLeastTwo] (h : a + ofNat(n) ≤ b) :
    round a + ofNat(n) ≤ round b := by
  have hcast : ((ofNat(n) : Nat) : Rat) = ofNat(n) := Nat.cast_ofNat
  rw [← hcast] at h ⊢
  exact round_add_le _ h

theorem round_mono (h : a ≤ b) : round a ≤ round b := by
  simpa using round_add_le 0 (by simpa using h)

end Scalar

namespace Rect

variable {r t : Rect Rat} {lo hi top right bottom left : Rat}

theorem meet_of_le (h : lo ≤ hi) : meet lo hi = (lo, hi) := by
  rw [meet, if_neg]
  rw [Scalar.less_iff]
  exact not_lt.mpr h

theorem meet_of_lt (h : hi < lo) : (meet lo hi).1 = (meet lo hi).2 := by
  rw [meet, if_pos (Scalar.less_iff.mpr h)]

theorem meet_le (lo hi : Rat) : (meet lo hi).1 ≤ (meet lo hi).2 := by
  rcases le_or_gt lo hi with h | h
  · rw [meet_of_le h]
    exact h
  · exact le_of_eq (meet_of_lt h)

/-- Edges that leave some space have not moved past each other. -/
theorem meet_of_space (h : (meet lo hi).1 < (meet lo hi).2) : meet lo hi = (lo, hi) := by
  refine meet_of_le (not_lt.mp fun hcross => ?_)
  exact absurd (meet_of_lt hcross) (ne_of_lt h)

theorem pad_eq (r : Rect Rat) (top right bottom left : Rat) : r.pad top right bottom left =
    ⟨(meet (r.x0 + left) (r.x1 - right)).1, (meet (r.y0 + top) (r.y1 - bottom)).1,
      (meet (r.x0 + left) (r.x1 - right)).2, (meet (r.y0 + top) (r.y1 - bottom)).2⟩ := rfl

/-- However far the edges move, they stay in order. -/
theorem pad_upright (r : Rect Rat) (top right bottom left : Rat) :
    (r.pad top right bottom left).Upright := ⟨meet_le .., meet_le ..⟩

/-- Where something with an extent in both directions is left, every edge has moved all the way. -/
theorem pad_of_inside (h : t.Inside (r.pad top right bottom left)) (hwidth : 0 < t.width)
    (hheight : 0 < t.height) : r.pad top right bottom left =
      ⟨r.x0 + left, r.y0 + top, r.x1 - right, r.y1 - bottom⟩ := by
  have hx : t.x0 < t.x1 := sub_pos.mp hwidth
  have hy : t.y0 < t.y1 := sub_pos.mp hheight
  have hxs := meet_of_space (h.left.trans_lt (hx.trans_le h.right))
  have hys := meet_of_space (h.top.trans_lt (hy.trans_le h.bottom))
  rw [pad_eq, hxs, hys]

theorem Upright.round (h : r.Upright) : r.round.Upright :=
  ⟨Scalar.round_mono h.1, Scalar.round_mono h.2⟩

theorem Apart.symm (h : r.Apart t) : t.Apart r := fun p hp hp' => h p hp' hp

/-- Rectangles with an extent in both directions that do not overlap lie beside each other in one of
the directions. -/
theorem Apart.beside (h : r.Apart t) (hr : 0 < r.width) (hr' : 0 < r.height) (ht : 0 < t.width)
    (ht' : 0 < t.height) : r.x1 ≤ t.x0 ∨ t.x1 ≤ r.x0 ∨ r.y1 ≤ t.y0 ∨ t.y1 ≤ r.y0 := by
  by_contra hnot
  simp only [not_or, not_le] at hnot
  obtain ⟨h1, h2, h3, h4⟩ := hnot
  have hrx : r.x0 < r.x1 := sub_pos.mp hr
  have hry : r.y0 < r.y1 := sub_pos.mp hr'
  have htx : t.x0 < t.x1 := sub_pos.mp ht
  have hty : t.y0 < t.y1 := sub_pos.mp ht'
  obtain ⟨x, hx, hx'⟩ := exists_between (max_lt (lt_min hrx h2) (lt_min h1 htx))
  obtain ⟨y, hy, hy'⟩ := exists_between (max_lt (lt_min hry h4) (lt_min h3 hty))
  rw [max_lt_iff] at hx hy
  rw [lt_min_iff] at hx' hy'
  exact h ⟨x, y⟩ ⟨hx.1, hx'.1, hy.1, hy'.1⟩ ⟨hx.2, hx'.2, hy.2, hy'.2⟩

end Rect

end SourceAtlas
