import Mathlib.Data.List.Induction
import SourceAtlas.Text.Pieces

/-! # Pieces of a text

A text has one piece more than it has cuts, and no piece holds a character at which it is cut. The
lines of the back of a text are lines of the whole text, only the first of them being the end of
one. -/

namespace SourceAtlas.Text

theorem cut_of_isCut {isCut : Char → Bool} {c : Char} (h : isCut c = true) (cs : List Char) :
    cut isCut (c :: cs) = [] :: cut isCut cs := by
  rw [cut, if_pos h]

theorem cut_of_not_isCut {isCut : Char → Bool} {c : Char} (h : isCut c = false) (cs : List Char) :
    ∃ piece pieces, cut isCut cs = piece :: pieces ∧
      cut isCut (c :: cs) = (c :: piece) :: pieces := by
  obtain ⟨piece, pieces, hp⟩ := List.exists_cons_of_ne_nil (cut_ne_nil isCut cs)
  exact ⟨piece, pieces, hp, by simp [cut, h, hp]⟩

theorem cut_length (isCut : Char → Bool) (cs : List Char) :
    (cut isCut cs).length = cs.countP isCut + 1 := by
  induction cs with
  | nil => rfl
  | cons c cs ih =>
    by_cases hc : isCut c = true
    · rw [cut_of_isCut hc, List.length_cons, ih, List.countP_cons_of_pos hc]
    · obtain ⟨piece, pieces, hp, hcons⟩ := cut_of_not_isCut (by simpa using hc) cs
      rw [hcons, List.countP_cons_of_neg hc, ← ih, hp]
      rfl

theorem not_isCut_of_mem_cut {isCut : Char → Bool} {cs piece : List Char}
    (h : piece ∈ cut isCut cs) : ∀ c ∈ piece, isCut c = false := by
  induction cs generalizing piece with
  | nil =>
    simp only [cut, List.mem_singleton] at h
    simp [h]
  | cons c cs ih =>
    by_cases hc : isCut c = true
    · rw [cut_of_isCut hc, List.mem_cons] at h
      obtain rfl | h := h
      · simp
      · exact ih h
    · obtain ⟨first, pieces, hp, hcons⟩ := cut_of_not_isCut (by simpa using hc) cs
      rw [hcons, List.mem_cons] at h
      rw [hp] at ih
      obtain rfl | h := h
      · intro d hd
        obtain rfl | hd := List.mem_cons.mp hd
        · simpa using hc
        · exact ih List.mem_cons_self d hd
      · exact ih (List.mem_cons_of_mem _ h)

theorem not_mem_of_mem_splitAt {sep : Char} {cs piece : List Char} (h : piece ∈ splitAt sep cs) :
    sep ∉ piece := by
  intro hsep
  simpa using not_isCut_of_mem_cut h sep hsep

/-! ## Lines -/

theorem lines_length (cs : List Char) : (lines cs).length = cs.count '\n' + 1 := by
  unfold lines splitAt
  rw [cut_length, List.count]

theorem lines_break (cs : List Char) : lines ('\n' :: cs) = [] :: lines cs := by
  unfold lines splitAt
  exact cut_of_isCut (by simp) cs

theorem lines_cons {c : Char} (h : c ≠ '\n') (cs : List Char) :
    ∃ first rest, lines cs = first :: rest ∧ lines (c :: cs) = (c :: first) :: rest := by
  unfold lines splitAt
  exact cut_of_not_isCut (by simpa using h) cs

/-- The lines of the back of a text are lines of the text; what stands in front of the first of them
is the end of the front part. -/
theorem lines_append (front : List Char) {back : List Char} {i : Nat} {l : List Char}
    (h : (lines back)[i]? = some l) :
    ∃ start, (lines (front ++ back))[front.count '\n' + i]? = some (start ++ l) ∧
      start <:+ front ∧ (i ≠ 0 → start = []) := by
  induction front using List.reverseRecOn generalizing back i l with
  | nil => exact ⟨[], by simpa using h, List.suffix_rfl, fun _ => rfl⟩
  | append_singleton front c ih =>
    rw [List.append_assoc, List.singleton_append]
    by_cases hc : c = '\n'
    · -- the line of the back part that was number `i` is number `i + 1` with the break before it
      subst hc
      have hl : (lines ('\n' :: back))[i + 1]? = some l := by simpa [lines_break] using h
      obtain ⟨start, hline, _, hstart⟩ := ih hl
      rw [hstart (by omega), List.nil_append] at hline
      refine ⟨[], ?_, List.nil_suffix, fun _ => rfl⟩
      rw [List.count_append, List.count_singleton_self, Nat.add_assoc, Nat.add_comm 1 i]
      exact hline
    · obtain ⟨first, rest, hback, hcons⟩ := lines_cons hc back
      rw [hback] at h
      have hcount : (front ++ [c]).count '\n' = front.count '\n' := by
        simp [List.count_append, hc]
      rw [hcount]
      cases i with
      | zero =>
        obtain rfl : first = l := by simpa using h
        have hl : (lines (c :: back))[0]? = some (c :: first) := by simp [hcons]
        obtain ⟨start, hline, hsuffix, _⟩ := ih hl
        refine ⟨start ++ [c], by simpa using hline, ?_, by simp⟩
        exact (List.suffix_append_inj_of_length_eq rfl).mpr ⟨hsuffix, rfl⟩
      | succ i =>
        have hl : (lines (c :: back))[i + 1]? = some l := by simpa [hcons] using h
        obtain ⟨start, hline, _, hstart⟩ := ih hl
        rw [hstart (by omega)] at hline
        exact ⟨[], hline, List.nil_suffix, fun _ => rfl⟩

/-! ## Stretches without white space -/

/-- White space, or nothing. -/
def Gap (g : List Char) : Prop := ∀ c ∈ g, isBlank c = true

/-- The stretches of a text that hold no white space, in order. -/
inductive Stretches : List Char → List (List Char) → Prop
  | gap {g : List Char} : Gap g → Stretches g []
  | next {g w rest : List Char} {ws : List (List Char)} : Gap g → w ≠ [] →
      (∀ c ∈ w, isBlank c = false) → (rest = [] ∨ rest.head?.any isBlank = true) →
      Stretches rest ws → Stretches (g ++ w ++ rest) (w :: ws)

theorem Stretches.blank {c : Char} (hc : isBlank c = true) {cs : List Char} {ws : List (List Char)}
    (h : Stretches cs ws) : Stretches (c :: cs) ws := by
  have hgap {g : List Char} (hg : Gap g) : Gap (c :: g) := by
    intro d hd
    obtain rfl | hd := List.mem_cons.mp hd
    · exact hc
    · exact hg d hd
  cases h with
  | gap hg => exact .gap (hgap hg)
  | next hg hw hall hrest hs =>
    rw [← List.cons_append, ← List.cons_append]
    exact .next (hgap hg) hw hall hrest hs

/-- A first piece that is empty is no stretch, any other is the first one. -/
theorem stretches_of_cut {cs first back : List Char} {rest : List (List Char)}
    (hcut : cut isBlank cs = first :: rest) (hcs : cs = first ++ back)
    (hback : back = [] ∨ back.head?.any isBlank = true)
    (h : Stretches back (rest.filter fun f => !f.isEmpty)) : Stretches cs (fields cs) := by
  have hfirst := not_isCut_of_mem_cut (hcut ▸ List.mem_cons_self : first ∈ cut isBlank cs)
  unfold fields
  rw [hcut, hcs]
  cases first with
  | nil => simpa using h
  | cons c first =>
    have hgap : Gap [] := by simp [Gap]
    simpa using Stretches.next hgap (by simp) hfirst hback h

/-- The first piece stands in front of the others, which white space divides from it. -/
theorem cut_stretches {cs first : List Char} {rest : List (List Char)}
    (h : cut isBlank cs = first :: rest) :
    ∃ back, cs = first ++ back ∧ (back = [] ∨ back.head?.any isBlank = true) ∧
      Stretches back (rest.filter fun f => !f.isEmpty) := by
  induction cs generalizing first rest with
  | nil =>
    cases h
    exact ⟨[], rfl, .inl rfl, .gap (by simp [Gap])⟩
  | cons c cs ih =>
    by_cases hc : isBlank c = true
    · rw [cut_of_isCut hc] at h
      cases h
      obtain ⟨first, rest, hcut⟩ := List.exists_cons_of_ne_nil (cut_ne_nil isBlank cs)
      obtain ⟨back, hcs, hback, hs⟩ := ih hcut
      exact ⟨c :: cs, rfl, .inr (by simpa using hc), .blank hc (stretches_of_cut hcut hcs hback hs)⟩
    · obtain ⟨first', rest', hcut, hcons⟩ := cut_of_not_isCut (by simpa using hc) cs
      rw [hcons] at h
      cases h
      obtain ⟨back, rfl, hback, hs⟩ := ih hcut
      exact ⟨back, rfl, hback, hs⟩

/-- The fields of a text are its stretches without white space. -/
theorem stretches_fields (cs : List Char) : Stretches cs (fields cs) := by
  obtain ⟨first, rest, hcut⟩ := List.exists_cons_of_ne_nil (cut_ne_nil isBlank cs)
  obtain ⟨back, hcs, hback, hs⟩ := cut_stretches hcut
  exact stretches_of_cut hcut hcs hback hs

end SourceAtlas.Text
