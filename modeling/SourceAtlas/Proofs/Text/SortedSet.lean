import SourceAtlas.Proofs.Text.ByteOrder
import SourceAtlas.Text.Pieces

/-! # Ordered sets of texts

Inserting a text keeps an ordered list ordered and adds nothing else, so what is gathered from a
list is its texts in increasing order, each once. -/

namespace SourceAtlas.Text

theorem mem_insertSorted {s t : String} {l : List String} :
    t ∈ insertSorted s l ↔ t = s ∨ t ∈ l := by
  induction l with
  | nil => simp [insertSorted]
  | cons u rest ih =>
    rw [insertSorted]
    split
    · exact List.mem_cons
    · split
      · next he =>
        subst he
        simp
      · rw [List.mem_cons, ih, List.mem_cons]
        exact or_left_comm

theorem pairwise_insertSorted {l : List String} (h : l.Pairwise (· < ·)) (s : String) :
    (insertSorted s l).Pairwise (· < ·) := by
  induction l with
  | nil => exact List.pairwise_singleton ..
  | cons t rest ih =>
    obtain ⟨ht, hrest⟩ := List.pairwise_cons.mp h
    rw [insertSorted]
    split
    · next hlt =>
      refine List.pairwise_cons.mpr ⟨?_, h⟩
      intro u hu
      obtain rfl | hu := List.mem_cons.mp hu
      · exact hlt
      · exact lt_trans hlt (ht u hu)
    · next hge =>
      split
      · exact h
      · next hne =>
        refine List.pairwise_cons.mpr ⟨?_, ih hrest⟩
        intro u hu
        obtain rfl | hu := mem_insertSorted.mp hu
        · exact lt_of_le_of_ne (not_lt.mp hge) (Ne.symm hne)
        · exact ht u hu

theorem mem_foldl_insertSorted {t : String} {xs acc : List String} :
    t ∈ xs.foldl (fun acc s => insertSorted s acc) acc ↔ t ∈ acc ∨ t ∈ xs := by
  induction xs generalizing acc with
  | nil => simp
  | cons s xs ih =>
    rw [List.foldl_cons, ih, mem_insertSorted, List.mem_cons]
    tauto

theorem pairwise_foldl_insertSorted (xs : List String) {acc : List String}
    (h : acc.Pairwise (· < ·)) :
    (xs.foldl (fun acc s => insertSorted s acc) acc).Pairwise (· < ·) := by
  induction xs generalizing acc with
  | nil => exact h
  | cons s xs ih => exact ih (pairwise_insertSorted h s)

/-- A list holds the texts of another one, each once and in the order of their octets. -/
structure Collects (set xs : List String) : Prop where
  increasing : set.Pairwise fun s t => Utf8.encode s < Utf8.encode t
  mem_iff : ∀ s, s ∈ set ↔ s ∈ xs

theorem sortedSet_collects (xs : List String) : Collects (sortedSet xs) xs where
  increasing := (pairwise_foldl_insertSorted xs .nil).imp Utf8.encode_lt
  mem_iff _ := mem_foldl_insertSorted.trans (by simp)

theorem Collects.congr {set xs ys : List String} (h : Collects set xs)
    (hxs : ∀ s, s ∈ xs ↔ s ∈ ys) : Collects set ys :=
  ⟨h.increasing, fun s => (h.mem_iff s).trans (hxs s)⟩

end SourceAtlas.Text
