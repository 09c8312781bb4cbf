import Mathlib.Algebra.Field.Rat
import Mathlib.Tactic.Linarith
import Mathlib.Tactic.Ring
import SourceAtlas.Proofs.Layout.FirstWalk

/-! # Displacements owed to siblings

A subtree that is moved leaves the siblings before it behind. What each of them is owed is noted at
the ends of the range only, as a shift and a change of shift, and is added up and paid out when
their parent is placed. -/

namespace SourceAtlas.Layout.Walk

variable {w w' : Walk Rat} {D D' : Nat → Rat} {owed change : Rat} {vs : List Nat}

/-- Paying out from right to left, as `payShifts` does, gives each node what `D` says. -/
def Owes (w : Walk Rat) (D : Nat → Rat) : (owed change : Rat) → List Nat → Prop
  | _, _, [] => True
  | owed, change, v :: vs =>
    D v = owed ∧
      Owes w D (owed + (w.shift v + (change + w.change v))) (change + w.change v) vs

theorem Owes.congr (h : w.Owes D owed change vs) (hD : ∀ v ∈ vs, D' v = D v)
    (hshift : ∀ v ∈ vs, w'.shift v = w.shift v) (hchange : ∀ v ∈ vs, w'.change v = w.change v) :
    w'.Owes D' owed change vs := by
  induction vs generalizing owed change with
  | nil => trivial
  | cons v vs ih =>
    rw [List.forall_mem_cons] at hD hshift hchange
    rw [Owes, hD.1, hshift.1, hchange.1]
    exact ⟨h.1, ih h.2 hD.2 hshift.2 hchange.2⟩

/-- What is owed is what is paid. -/
theorem payShifts_owes {n : Nat} (hw : w.Fits n) (hvs : ∀ v ∈ vs, v ≤ n) (hnd : vs.Nodup)
    (h : w.Owes D owed change vs) {v : Nat} (hv : v ∈ vs) :
    (w.payShifts owed change vs).prelim v = w.prelim v + D v ∧
      (w.payShifts owed change vs).modifier v = w.modifier v + D v := by
  induction vs generalizing w owed change with
  | nil => cases hv
  | cons u vs ih =>
    obtain ⟨hu, hvs⟩ := List.forall_mem_cons.mp hvs
    obtain ⟨hmem, hnd⟩ := List.nodup_cons.mp hnd
    obtain ⟨hD, hrest⟩ := h
    have hset : (w.setPrelim u (w.prelim u + owed)).Fits n := hw.congr sizes_setPrelim
    rw [payShifts]
    rcases List.mem_cons.mp hv with rfl | hv
    · have hnote {W : Walk Rat} {x y : Rat} : (W.payShifts x y vs).note v = W.note v :=
        note_payShifts hmem
      refine ⟨(congrArg Note.prelim hnote).trans ?_, (congrArg Note.modifier hnote).trans ?_⟩
      · rw [hD]; exact prelim_setPrelim hw hu
      · rw [hD]; exact modifier_setModifier hset hu
    · have hne : v ≠ u := fun h => hmem (h ▸ hv)
      have hnote :
          ((w.setPrelim u (w.prelim u + owed)).setModifier u (w.modifier u + owed)).note v =
          w.note v := (note_setModifier hne).trans (note_setPrelim hne)
      rw [← show _ = w.prelim v from congrArg Note.prelim hnote,
        ← show _ = w.modifier v from congrArg Note.modifier hnote]
      exact ih (hset.congr sizes_setModifier) hvs hnd
        (hrest.congr (fun _ _ => rfl) (fun _ _ => rfl) fun _ _ => rfl) hv

variable {s : Shape} {p a : Nat} {cs : List Nat} {q : Rat}

/-- What is owed to the siblings `cs` grows by `q` from each to the next, beginning after `a`, when
a change of `q` is noted at `a` and one of `-q` comes in from the right. -/
theorem Owes.stretch (hs : s.Sound) (hcs : cs <+: s.children p) (ha : a ∈ s.children p)
    (h : w.Owes D owed change cs.reverse) (hshift : ∀ c ∈ cs, w'.shift c = w.shift c)
    (hchange : ∀ c ∈ cs, w'.change c = w.change c + if c = a then q else 0) :
    w'.Owes (fun c => D c + q * ((s.number c - s.number a : Nat) : Rat))
      (owed + q * ((cs.length - 1 - s.number a : Nat) : Rat))
      (change - if s.number a < cs.length then q else 0) cs.reverse := by
  induction cs using List.reverseRecOn generalizing owed change with
  | nil => trivial
  | append_singleton cs u ih =>
    have hnumber : s.number u = cs.length := hs.number_next hcs
    have hu : u ∈ cs ++ [u] := List.mem_append_right cs (List.mem_singleton_self u)
    have hua : u = a ↔ s.number a = cs.length :=
      ⟨fun h => h ▸ hnumber, fun h => hs.number_injective (hcs.subset hu) ha (hnumber.trans h.symm)⟩
    rw [List.reverse_concat] at h ⊢
    obtain ⟨hD, hrest⟩ := h
    have hih := ih ((List.prefix_append cs [u]).trans hcs) hrest
      (fun c hc => hshift c (List.mem_append_left [u] hc))
      fun c hc => hchange c (List.mem_append_left [u] hc)
    rw [List.length_append, List.length_singleton, Nat.add_sub_cancel]
    refine ⟨by simp only [hD, hnumber], ?_⟩
    rw [hshift u hu, hchange u hu]
    -- The sibling stands to the right of `a`, at `a` or to its left.
    rcases Nat.lt_trichotomy (s.number a) cs.length with hlt | heq | hgt
    · rw [if_pos (Nat.lt_succ_of_lt hlt), if_neg (mt hua.mp (Nat.ne_of_lt hlt))]
      rw [if_pos hlt] at hih
      convert hih using 1
      · rw [show cs.length - s.number a = cs.length - 1 - s.number a + 1 by omega]
        push_cast
        ring
      · ring
    · rw [if_pos (Nat.lt_succ_of_le (Nat.le_of_eq heq)), if_pos (hua.mpr heq)]
      rw [if_neg (Nat.not_lt_of_le (Nat.le_of_eq heq.symm))] at hih
      convert hih using 1
      · rw [show cs.length - s.number a = 0 by omega, show cs.length - 1 - s.number a = 0 by omega]
        ring
      · ring
    · rw [if_neg (Nat.not_lt_of_le hgt), if_neg (mt hua.mp (Nat.ne_of_gt hgt))]
      rw [if_neg (Nat.lt_asymm hgt)] at hih
      convert hih using 1
      · rw [show cs.length - s.number a = 0 by omega, show cs.length - 1 - s.number a = 0 by omega]
        ring
      · ring

/-- How far the siblings are moved when the last of them is moved by `gap`: those up to `a` not at
all, each further one by the same amount more than the one before. -/
def spread (s : Shape) (a v : Nat) (gap : Rat) (c : Nat) : Rat :=
  share s a v gap * ((s.number c - s.number a : Nat) : Rat)

section Move

variable {v : Nat} {gap : Rat}

theorem spread_self (h : s.number a < s.number v) : spread s a v gap v = gap := by
  have hne : (s.number v : Rat) - s.number a ≠ 0 := by
    rw [sub_ne_zero]
    exact_mod_cast Nat.ne_of_gt h
  rw [spread, Nat.cast_sub (Nat.le_of_lt h)]
  exact div_mul_cancel₀ gap hne

theorem spread_of_le {c : Nat} (h : s.number c ≤ s.number a) : spread s a v gap c = 0 := by
  rw [spread, Nat.sub_eq_zero_of_le h, Nat.cast_zero, mul_zero]

theorem spread_mono {c d : Nat} (hgap : 0 ≤ gap) (hav : s.number a < s.number v)
    (h : s.number c ≤ s.number d) : spread s a v gap c ≤ spread s a v gap d := by
  have hpos : (0 : Rat) ≤ (s.number v : Rat) - s.number a := by
    rw [sub_nonneg]
    exact_mod_cast Nat.le_of_lt hav
  have hshare : 0 ≤ share s a v gap := div_nonneg hgap hpos
  exact mul_le_mul_of_nonneg_left (by exact_mod_cast Nat.sub_le_sub_right h _) hshare

/-- A subtree that is moved by `gap` spreads its siblings. -/
theorem Owes.moveSubtree (hs : s.Sound) (hw : w.Fits s.count) (hcs : cs ++ [v] <+: s.children p)
    (ha : a ∈ cs) (h : w.Owes D (w.shift v + w.change v) (w.change v) cs.reverse) :
    (w.moveSubtree s a v gap).Owes (fun c => D c + spread s a v gap c)
      ((w.moveSubtree s a v gap).shift v + (w.moveSubtree s a v gap).change v)
      ((w.moveSubtree s a v gap).change v) cs.reverse := by
  have hfront : cs <+: s.children p := (List.prefix_append cs [v]).trans hcs
  have hv : v ≤ s.count := Nat.le_of_lt (hs.child_lt_count (hcs.subset (by simp)))
  have han : a ≤ s.count := Nat.le_of_lt (hs.child_lt_count (hfront.subset ha))
  have hnumber : s.number v = cs.length := hs.number_next hcs
  have hlt : s.number a < cs.length := hs.number_lt_length hfront ha
  have hne {c : Nat} (hc : c ∈ cs) : c ≠ v := hs.ne_of_within_left hcs (Shape.within_of_mem hc)
  have hshift (c : Nat) (hc : c ∈ cs) : (w.moveSubtree s a v gap).shift c = w.shift c :=
    shift_moveSubtree_ne (hne hc)
  have hchange (c : Nat) (hc : c ∈ cs) : (w.moveSubtree s a v gap).change c =
      w.change c + if c = a then share s a v gap else 0 := by
    split
    · next hca => rw [hca]; exact change_moveSubtree_left hw han (hne ha)
    · next hca => rw [add_zero]; exact congrArg Note.change (note_moveSubtree hca (hne hc))
  have hstretch := h.stretch hs hfront (hfront.subset ha) hshift hchange
  have hgap :
      gap = share s a v gap * ((cs.length - 1 - s.number a : Nat) : Rat) + share s a v gap := by
    have hself : spread s a v gap v = gap := spread_self (hnumber ▸ hlt)
    rw [spread, hnumber, show cs.length - s.number a = cs.length - 1 - s.number a + 1 by omega]
      at hself
    push_cast at hself
    linarith
  rw [if_pos hlt] at hstretch
  have howed : w.shift v + gap + (w.change v - share s a v gap) = w.shift v + w.change v +
      share s a v gap * ((cs.length - 1 - s.number a : Nat) : Rat) := by linarith
  rw [shift_moveSubtree hw hv, change_moveSubtree_right hw hv (hne ha).symm, howed]
  exact hstretch

end Move

end SourceAtlas.Layout.Walk
