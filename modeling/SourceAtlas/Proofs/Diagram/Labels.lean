import Mathlib.Data.Rat.Floor
import Mathlib.Tactic.Linarith
import SourceAtlas.Diagram.Treemap
import SourceAtlas.Proofs.Geometry.Exact

/-! # Labels of cells

A label may be as long as there is room for glyphs of six units, eight units of the cell's width
being kept free. A longer name is cut, and its three dots count as glyphs: where there is room for
at most two, they alone are too long. Everywhere else a label fits its cell, and a cut one fills the
room up. -/

namespace SourceAtlas.Treemap

variable {name : String} {width : Rat} {n : Nat}

/-- How many glyphs there is room for. -/
def glyphs (width : Rat) : Nat := ⌊(width - 8) / 6⌋.toNat

theorem le_glyphs : n ≤ glyphs width ↔ 6 * (n : Rat) ≤ max 0 (width - 8) := by
  rcases Nat.eq_zero_or_pos n with rfl | hn
  · simp
  · have hpos : (0 : Rat) < n := Nat.cast_pos.mpr hn
    have hfloor : n ≤ glyphs width ↔ (n : Int) ≤ ⌊(width - 8) / 6⌋ := by
      unfold glyphs
      omega
    have hcast : ((n : Int) : Rat) = n := Int.cast_natCast n
    rw [hfloor, Int.le_floor, hcast, le_div_iff₀' (by norm_num), le_max_iff]
    constructor
    · exact .inr
    · rintro (h | h)
      · linarith
      · exact h

theorem glyphs_lt : glyphs width < n ↔ max 0 (width - 8) < 6 * (n : Rat) := by
  rw [← not_le, le_glyphs, not_le]

/-- The label in terms of the room for glyphs. -/
theorem fitLabel_eq (name : String) (width : Rat) : fitLabel name width =
    if glyphs width = 0 then ""
    else if name.length ≤ glyphs width then name
    else String.ofList (name.toList.take (glyphs width - 3)) ++ "..." := by
  have hroom : Scalar.floor ((width - 8.0) / 6.0) = ((⌊(width - 8) / 6⌋ : Int) : Rat) := by
    have h8 : (8.0 : Rat) = 8 := by norm_num
    have h6 : (6.0 : Rat) = 6 := by norm_num
    rw [h8, h6]
    rfl
  have hnone : Scalar.atMost ((⌊(width - 8) / 6⌋ : Int) : Rat) 0.0 = true ↔ glyphs width = 0 := by
    rw [Scalar.zero_eq, glyphs, Int.toNat_eq_zero, ← Int.cast_nonpos (R := Rat)]
    exact decide_eq_true_iff
  have hcount : Scalar.toCount ((⌊(width - 8) / 6⌋ : Int) : Rat) = glyphs width :=
    congrArg Int.toNat (Int.floor_intCast (R := Rat) ⌊(width - 8) / 6⌋)
  unfold fitLabel
  simp only [hroom, hnone, hcount]

theorem fitLabel_none (hroom : glyphs width = 0) : fitLabel name width = "" := by
  rw [fitLabel_eq, if_pos hroom]

theorem fitLabel_whole (hname : name.length ≤ glyphs width) : fitLabel name width = name := by
  rw [fitLabel_eq]
  split
  · next hroom =>
    have hempty : name.length = 0 := by omega
    exact (String.length_eq_zero_iff.mp hempty).symm
  · rfl

theorem fitLabel_cut (hroom : 0 < glyphs width) (hname : glyphs width < name.length) :
    fitLabel name width = String.ofList (name.toList.take (glyphs width - 3)) ++ "..." := by
  rw [fitLabel_eq, if_neg (Nat.ne_of_gt hroom), if_neg (Nat.not_le_of_lt hname)]

/-- A cut label takes all the room there is, but at least that of its three dots. -/
theorem fitLabel_length (hroom : 0 < glyphs width) (hname : glyphs width < name.length) :
    (fitLabel name width).length = max 3 (glyphs width) := by
  have hdots : "...".length = 3 := rfl
  rw [fitLabel_cut hroom hname, String.length_append, String.length_ofList, List.length_take,
    String.length_toList, hdots]
  omega

/-- Where there is room for a number of glyphs. -/
theorem le_glyphs_pos (hn : 0 < n) : n ≤ glyphs width ↔ 6 * (n : Rat) + 8 ≤ width := by
  have hpos : (0 : Rat) < n := Nat.cast_pos.mpr hn
  rw [le_glyphs, le_max_iff]
  constructor
  · rintro (h | h) <;> linarith
  · exact fun h => .inr (by linarith)

/-- A name for which there is room stands in full. Any other one is cut to a beginning with three
dots behind it, or left out, and there is no room for a longer cut. The label fits the space that
the cell has for it, with one exception: where there is room for one or two glyphs, a longer name
leaves the three dots. -/
theorem fitLabel_space (name : String) (width : Rat) :
    let label := fitLabel name width
    let space := max 0 (width - 8)
    (6 * (name.length : Rat) ≤ space → label = name) ∧
    (space < 6 * (name.length : Rat) → label ≠ "" →
      ∃ kept, kept <+: name.toList ∧ label.toList = kept ++ ['.', '.', '.']) ∧
    (space < 6 * (name.length : Rat) → 14 ≤ width → space < 6 * ((label.length : Rat) + 1)) ∧
    (6 * (label.length : Rat) ≤ space ↔
      ¬ (14 ≤ width ∧ width < 26 ∧ space < 6 * (name.length : Rat))) ∧
    (14 ≤ width → width < 26 → space < 6 * (name.length : Rat) → label = "...") := by
  intro label space
  have h14 : 0 < glyphs width ↔ 14 ≤ width := by
    rw [← Nat.succ_le_iff, le_glyphs_pos Nat.one_pos]
    norm_num
  have h26 : glyphs width < 3 ↔ width < 26 := by
    rw [← not_le, le_glyphs_pos (by decide), not_le]
    norm_num
  rw [← glyphs_lt, ← le_glyphs, ← le_glyphs, ← h14, ← h26]
  have hnext : space < 6 * ((label.length : Rat) + 1) ↔ glyphs width < label.length + 1 := by
    rw [glyphs_lt, Nat.cast_add_one]
  rw [hnext]
  refine ⟨fitLabel_whole, fun hname hne => ?_, fun hname hroom => ?_, ?_,
    fun hroom hfew hname => ?_⟩
  · have hroom : 0 < glyphs width := Nat.pos_of_ne_zero fun h => hne (fitLabel_none h)
    refine ⟨_, List.take_prefix (glyphs width - 3) _, ?_⟩
    rw [show label = _ from fitLabel_cut hroom hname, String.toList_append, String.toList_ofList]
    rfl
  · rw [show label.length = _ from fitLabel_length hroom hname]
    omega
  · rcases Nat.lt_or_ge (glyphs width) name.length with hname | hname
    · rcases Nat.eq_zero_or_pos (glyphs width) with hroom | hroom
      · have hlength : label.length = 0 := congrArg String.length (fitLabel_none hroom)
        omega
      · rw [show label.length = _ from fitLabel_length hroom hname]
        omega
    · have hlength : label.length = name.length := congrArg String.length (fitLabel_whole hname)
      omega
  · have hnone : glyphs width - 3 = 0 := by omega
    rw [show label = _ from fitLabel_cut hroom hname, hnone]
    rfl

/-- There is room for one glyph, and the label has three. -/
theorem fitLabel_narrow :
    fitLabel "abcd" (14 : Rat) = "..." ∧
      ¬ 6 * ((fitLabel "abcd" (14 : Rat)).length : Rat) ≤ max 0 (14 - 8) := by
  decide +kernel

end SourceAtlas.Treemap
