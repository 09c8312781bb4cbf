import Mathlib.Data.List.Nodup
import Mathlib.Data.List.Sort

/-! # Facts about lists

What layouts and diagrams use about lists in general: what is picked out of the parts of a list,
where an element of a list in two parts stands, and what order and keys tell about an element. -/

namespace SourceAtlas.Lists

variable {α β γ : Type}

/-! ## Parts -/

/-- Where one thing is picked out of each part, they are the things of the parts in order. -/
theorem filterMap_flatMap_single {f : α → List β} {g : β → Option γ} {e : α → γ} {l : List α}
    (h : ∀ a ∈ l, (f a).filterMap g = [e a]) : (l.flatMap f).filterMap g = l.map e := by
  rw [List.filterMap_flatMap, List.map_eq_flatMap]
  exact List.flatMap_congr h

theorem filterMap_flatMap_none {f : α → List β} {g : β → Option γ} {l : List α}
    (h : ∀ a ∈ l, (f a).filterMap g = []) : (l.flatMap f).filterMap g = [] := by
  rw [List.filterMap_flatMap, List.flatMap_eq_nil_iff]
  exact h

/-- Where a list is cut into two, an element of it belongs to one of the parts. -/
theorem split_append {xs ys before after : List α} {x : α} (h : xs ++ ys = before ++ x :: after) :
    (∃ more, xs = before ++ x :: more) ∨ ∃ more, before = xs ++ more ∧ ys = more ++ x :: after := by
  rcases List.append_eq_append_iff.mp h with ⟨more, rfl, hys⟩ | ⟨more, rfl, hxs⟩
  · exact .inr ⟨more, rfl, hys⟩
  · cases more with
    | nil => exact .inr ⟨[], by simp, by simpa using hxs.symm⟩
    | cons y more =>
      rw [List.cons_append, List.cons.injEq] at hxs
      exact .inl ⟨more, by rw [hxs.1]⟩

/-! ## Order and keys -/

/-- A member of a sorted list that none of the others precedes is the first one. -/
theorem head?_eq_of_sorted {r : α → α → Prop} {xs : List α} {x : α} (hxs : xs.Pairwise r)
    (hx : x ∈ xs) (h : ∀ y ∈ xs, ¬ r y x) : xs.head? = some x := by
  cases hxs with
  | nil => cases hx
  | @cons y ys hy _ =>
    rcases List.mem_cons.mp hx with rfl | hx
    · rfl
    · exact absurd (hy x hx) (h y List.mem_cons_self)

/-- Among elements with different keys, looking for one by its key finds it. -/
theorem find?_of_nodup {key : α → Nat} {l : List α} (h : (l.map key).Nodup) {x : α}
    (hx : x ∈ l) : l.find? (key · == key x) = some x := by
  obtain ⟨y, hy⟩ : ∃ y, l.find? (key · == key x) = some y := by
    rw [← Option.isSome_iff_exists, List.find?_isSome]
    exact ⟨x, hx, beq_self_eq_true _⟩
  have hkey := List.find?_some hy
  rw [hy, List.inj_on_of_nodup_map h (List.mem_of_find?_eq_some hy) hx (eq_of_beq hkey)]

/-- A stable sort leaves elements that it takes for equal as they stood. -/
theorem pairwise_mergeSort_stable (le : α → α → Bool) {R : α → α → Prop}
    (trans : ∀ a b c, le a b → le b c → le a c) (total : ∀ a b, le a b || le b a) {l : List α}
    (h : l.Pairwise R) : (l.mergeSort le).Pairwise fun a b => le a b ∧ (le b a → R a b) := by
  induction l with
  | nil =>
    rw [List.mergeSort_nil]
    exact .nil
  | cons x l ih =>
    obtain ⟨hx, hl⟩ := List.pairwise_cons.mp h
    have ih := ih hl
    have hsorted := List.pairwise_mergeSort trans total (x :: l)
    have hperm := List.mergeSort_perm l le
    obtain ⟨front, back, hcons, hsort, hfront⟩ := List.mergeSort_cons trans total x l
    rw [hsort] at ih hperm
    rw [hcons] at hsorted ⊢
    obtain ⟨ihfront, ihback, ihcross⟩ := List.pairwise_append.mp ih
    obtain ⟨_, hxback, hcross⟩ := List.pairwise_append.mp hsorted
    -- the new element goes behind what is less and before all else, its equals among them
    refine List.pairwise_append.mpr ⟨ihfront, List.pairwise_cons.mpr ⟨?_, ihback⟩, ?_⟩
    · intro b hb
      refine ⟨(List.pairwise_cons.mp hxback).1 b hb, fun _ => hx b ?_⟩
      exact hperm.subset (List.mem_append_right _ hb)
    · intro a ha b hb
      rcases List.mem_cons.mp hb with rfl | hb
      · refine ⟨hcross a ha b List.mem_cons_self, fun hle => ?_⟩
        have := hfront a ha
        simp [hle] at this
      · exact ihcross a ha b hb

end SourceAtlas.Lists
