import Mathlib.Algebra.Order.Field.Rat
import Mathlib.Logic.Relation
import Mathlib.Tactic.IntervalCases
import SourceAtlas.Proofs.Layout.Preorder
import SourceAtlas.Proofs.Layout.Visits

/-! # What the first walk relies on

The links between nodes do not depend on the numbers, so what is said here holds of exact numbers
and of doubles alike. Every thread leads one level down. So does every round of following the
contours, which therefore end; the outer contours go on as long as the inner ones do; and the
sibling charged for a conflict stands on the left of the subtree that is moved. -/

namespace SourceAtlas.Layout

open Relation (ReflTransGen)

/-- `u` is a sibling on the left of `v`, so there is a distance between them to divide by. -/
structure Shape.StandsLeft (s : Shape) (u v : Nat) : Prop where
  sibling : u ∈ s.children (s.parent v)
  number_lt : s.number u < s.number v
  distance_pos : (0 : Rat) < Scalar.ofCount (s.number v) - Scalar.ofCount (s.number u)

theorem Shape.Sound.standsLeft {s : Shape} {p u v : Nat} {cs : List Nat} (hs : s.Sound)
    (hcs : cs ++ [v] <+: s.children p) (hu : u ∈ cs) : s.StandsLeft u v := by
  have hfront : cs <+: s.children p := (List.prefix_append cs [v]).trans hcs
  have hv : v ∈ s.children p := hcs.subset (List.mem_append_right cs (List.mem_singleton_self v))
  have hlt : s.number u < s.number v := hs.number_next hcs ▸ hs.number_lt_length hfront hu
  exact ⟨hs.parent_child hv ▸ hfront.subset hu, hlt, sub_pos.mpr (Nat.cast_lt.mpr hlt)⟩

namespace Walk

variable {α : Type} {s : Shape} {w w₀ w' : Walk α}

/-! ## Threads -/

/-- Every thread leads from a node without children to a node one level deeper. -/
def ThreadsDescend (w : Walk α) (s : Shape) : Prop :=
  ∀ ⦃u x⦄, w.thread u = some x →
    u < s.count ∧ x < s.count ∧ s.children u = [] ∧ s.depth x = s.depth u + 1

theorem ThreadsDescend.congr (h : w.ThreadsDescend s) (hw : w'.threads = w.threads) :
    w'.ThreadsDescend s := by
  intro u x hu
  refine h ?_
  rwa [thread, ← hw]

variable [Scalar α] {c : Contours α} {p v fb ℓ : Nat} {cs : List Nat} {r r' : Walk α × Contours α}

theorem start_threadsDescend (s : Shape) : (start s.count : Walk α).ThreadsDescend s := by
  intro u x h
  have hnone : (start s.count : Walk α).thread u = none := by
    simp only [thread, start, Array.getD_eq_getD_getElem?, Array.getElem?_replicate]
    split <;> rfl
  rw [hnone] at h
  cases h

theorem ThreadsDescend.hook {o next : Nat} {a : α} (h : w.ThreadsDescend s) (hw : w.Fits s.count)
    (ho : o < s.count) (hnext : next < s.count) (hleaf : s.children o = [])
    (hdepth : s.depth next = s.depth o + 1) : (w.hook o next a).ThreadsDescend s := by
  intro u x hu
  by_cases huo : u = o
  · subst huo
    obtain rfl := Option.some.inj ((thread_hook hw (Nat.le_of_lt ho)).symm.trans hu)
    exact ⟨ho, hnext, hleaf, hdepth⟩
  · exact h ((congrArg Note.thread (note_hook huo)).symm.trans hu)

/-- The end of the shorter contour is hooked to the next level of the longer one. -/
theorem Joins.threadsDescend {r : Walk α × Nat} (hs : s.Sound) (hw : w.Fits s.count)
    (hsib : cs ++ [v] <+: s.children p) (hc : Clearing s w₀ cs v ℓ w c)
    (hj : Joins s w c cs v fb ℓ r) (h : w.ThreadsDescend s) : r.1.ThreadsDescend s := by
  obtain ⟨hcs, hv⟩ := List.append_subset.mp hsib.subset
  have hroot : v ∈ s.children p := hv (List.mem_singleton_self v)
  cases hj with
  | forest hnext hstop =>
    have ho := List.mem_of_getLast? hc.outerRight
    have hnext := List.mem_of_getLast? hnext
    refine h.hook hw (hs.lt_count_of_mem_level hv ho) (hs.lt_count_of_mem_level hcs hnext)
      (Shape.children_eq_nil hstop ho) ?_
    rw [hs.depth_of_mem_level hcs hroot hnext, hs.depth_of_mem_level hv hroot ho, Nat.add_assoc]
  | tree hstop hnext =>
    have ho := List.mem_of_head? hc.outerLeft
    have hnext := List.mem_of_head? hnext
    refine h.hook hw (hs.lt_count_of_mem_level hcs ho) (hs.lt_count_of_mem_level hv hnext)
      (Shape.children_eq_nil hstop ho) ?_
    rw [hs.depth_of_mem_level hv hroot hnext, hs.depth_of_mem_level hcs hroot ho, Nat.add_assoc]
  | neither _ _ => exact h

theorem visit_threadsDescend (hs : s.Sound) (hdue : w.Due s p cs v) (h : w.ThreadsDescend s) :
    (visit s w v).ThreadsDescend s := by
  have hlinks := sameLinks_placeNode w s v
  have hplaced : (w.placeNode s v).ThreadsDescend s := h.congr hlinks.threads
  rcases visit_cases (M := fun _ _ _ => True) hs hdue (fun _ _ => trivial)
    (fun _ => fun _ _ _ _ _ _ => trivial) with
    ⟨-, hvisit⟩ | ⟨fb, ℓ, w', c, r, -, -, hc, -, hj, hvisit⟩
  · rw [hvisit]
    exact hplaced.congr rfl
  · have hfits : w'.Fits s.count := (hdue.fits.congr hlinks.sizes).congr hc.sizes
    rw [hvisit]
    exact (hj.threadsDescend hs hfits hdue.siblings' hc (hplaced.congr hc.threads)).congr rfl

/-! ## Rounds -/

/-- One round of following the contours: all four go on. -/
inductive Round (s : Shape) (v fb : Nat) : Walk α × Contours α → Walk α × Contours α → Prop
  | down {w : Walk α} {c : Contours α} {x y x' y' : Nat} :
      w.nextRight s c.innerLeft = some x → w.nextLeft s c.innerRight = some y →
      w.nextLeft s c.outerLeft = some x' → w.nextRight s c.outerRight = some y' →
      Round s v fb (w, c) (clearLevel s v fb w c x y x' y')

structure Contours.StandAt (c : Contours α) (s : Shape) (d : Nat) : Prop where
  innerLeft : s.depth c.innerLeft = d
  innerRight : s.depth c.innerRight = d
  outerLeft : s.depth c.outerLeft = d
  outerRight : s.depth c.outerRight = d

/-- It is safe to follow the contours on: where the inner ones go on, so do the outer ones, a round
leads all four one level down, and the node charged for a conflict at the next level is a left
sibling. -/
structure SafeAt (s : Shape) (v fb : Nat) (r : Walk α × Contours α) : Prop where
  outer : ∀ {x y}, r.1.nextRight s r.2.innerLeft = some x → r.1.nextLeft s r.2.innerRight = some y →
    (r.1.nextLeft s r.2.outerLeft).isSome ∧ (r.1.nextRight s r.2.outerRight).isSome
  down : ∀ {r'}, Round s v fb r r' → ∃ d, r.2.StandAt s d ∧ r'.2.StandAt s (d + 1)
  charged : ∀ {x y'}, r.1.nextRight s r.2.innerLeft = some x →
    r.1.nextRight s r.2.outerRight = some y' →
    s.StandsLeft ((r.1.setAncestor y' v).charged s (s.parent v) fb x) v

section Clearing

variable (hs : s.Sound) (hw : w₀.Fits s.count) (hf : w₀.Facing s p cs v fb)
include hs hw hf

theorem Clearing.round (hc : Clearing s w₀ cs v ℓ r.1 r.2) (h : Round s v fb r r') :
    Clearing s w₀ cs v (ℓ + 1) r'.1 r'.2 := by
  cases h with
  | down hx hy hx' hy' =>
    rw [hc.next_innerLeft hf] at hx
    rw [hc.next_innerRight hf] at hy
    rw [hc.next_outerLeft hf] at hx'
    rw [hc.next_outerRight hf] at hy'
    exact hc.step hs hw hf hx hy hx' hy'

theorem Clearing.rounds (hc : Clearing s w₀ cs v ℓ r.1 r.2) (h : ReflTransGen (Round s v fb) r r') :
    ∃ ℓ', Clearing s w₀ cs v ℓ' r'.1 r'.2 := by
  induction h with
  | refl => exact ⟨ℓ, hc⟩
  | tail _ hround ih =>
    obtain ⟨ℓ', hc'⟩ := ih
    exact ⟨ℓ' + 1, hc'.round hs hw hf hround⟩

omit hw in
theorem Clearing.standAt (hc : Clearing s w₀ cs v ℓ w c) : c.StandAt s (s.depth v + ℓ) := by
  obtain ⟨hcs, hv⟩ := List.append_subset.mp hf.siblings.subset
  have hroot := hf.mem_children
  exact ⟨hs.depth_of_mem_level hcs hroot (List.mem_of_getLast? hc.innerLeft),
    hs.depth_of_mem_level hv hroot (List.mem_of_head? hc.innerRight),
    hs.depth_of_mem_level hcs hroot (List.mem_of_head? hc.outerLeft),
    hs.depth_of_mem_level hv hroot (List.mem_of_getLast? hc.outerRight)⟩

/-- The forest and the tree have both ends of a level if they have one. -/
theorem Clearing.safeAt (hc : Clearing s w₀ cs v ℓ r.1 r.2) : SafeAt s v fb r where
  outer {x y} hx hy := by
    rw [hc.next_innerLeft hf] at hx
    rw [hc.next_innerRight hf] at hy
    rw [hc.next_outerLeft hf, hc.next_outerRight hf, List.isSome_head?, List.getLast?_isSome]
    exact ⟨List.ne_nil_of_mem (List.mem_of_getLast? hx), List.ne_nil_of_mem (List.mem_of_head? hy)⟩
  down hround := ⟨_, hc.standAt hs hf, (hc.round hs hw hf hround).standAt hs hf⟩
  charged {x y'} hx hy' := by
    rw [hc.next_innerLeft hf] at hx
    rw [hc.next_outerRight hf] at hy'
    rw [hc.charged_eq hs hf (Shape.within_of_getLast? hx) (Shape.within_of_getLast? hy')]
    exact hs.standsLeft hf.siblings (hf.charged hx).mem

end Clearing

/-! ## Visits -/

/-- Where the visit to `v` starts to follow the contours, the node being placed. -/
def facingContours (w : Walk α) (s : Shape) (v left : Nat) : Walk α × Contours α :=
  let w := w.placeNode s v
  (w, w.atRoots ((s.children (s.parent v)).headD v) left v)

/-- The sibling that the visit to `v` charges when no better one is known. -/
def chargedAt (w : Walk α) (s : Shape) (v : Nat) : Nat :=
  ((w.placeNode s v).fallback (s.parent v)).getD ((s.children (s.parent v)).headD v)

/-- The visit to `v` moves its subtree clear of its left siblings. Whatever it comes to by following
the contours is safe to go on from, and however many rounds it may make, it comes to the end of an
inner contour. -/
structure SafeVisit (s : Shape) (w : Walk α) (v left : Nat) : Prop where
  clears : visit s w v =
    let r := (w.placeNode s v).apportion s v left (w.chargedAt s v)
    r.1.setFallback (s.parent v) r.2
  safe : ∀ {r}, ReflTransGen (Round s v (w.chargedAt s v)) (w.facingContours s v left) r →
    SafeAt s v (w.chargedAt s v) r
  ends : ∀ {fuel}, s.count < fuel →
    ∃ r, ReflTransGen (Round s v (w.chargedAt s v)) (w.facingContours s v left) r ∧
      (r.1.nextRight s r.2.innerLeft = none ∨ r.1.nextLeft s r.2.innerRight = none) ∧
      clear s v (w.chargedAt s v) fuel (w.facingContours s v left).1 (w.facingContours s v left).2 =
        (r.1, r.2, r.1.nextRight s r.2.innerLeft, r.1.nextLeft s r.2.innerRight)

theorem clear_ends (hs : s.Sound) (hw : w₀.Fits s.count) (hf : w₀.Facing s p cs v fb)
    (hc : Clearing s w₀ cs v ℓ r.1 r.2) {fuel : Nat} (hfuel : s.count < fuel) :
    ∃ r', ReflTransGen (Round s v fb) r r' ∧
      (r'.1.nextRight s r'.2.innerLeft = none ∨ r'.1.nextLeft s r'.2.innerRight = none) ∧
      clear s v fb fuel r.1 r.2 =
        (r'.1, r'.2, r'.1.nextRight s r'.2.innerLeft, r'.1.nextLeft s r'.2.innerRight) := by
  have hstep : KeptByLevels s w₀ cs v fb fun _ w c => ReflTransGen (Round s v fb) r (w, c) := by
    intro ℓ w c x y x' y' hc hreached hx hy hx' hy'
    refine hreached.tail (.down ?_ ?_ ?_ ?_)
    · rw [hc.next_innerLeft hf, hx]
    · rw [hc.next_innerRight hf, hy]
    · rw [hc.next_outerLeft hf, hx']
    · rw [hc.next_outerRight hf, hy']
  obtain ⟨ℓ', w', c', hc', hreached, hend, heq⟩ :=
    clear_rule hs hw hf hstep fuel (by omega) hc .refl
  refine ⟨(w', c'), hreached, ?_, ?_⟩
  · rw [hc'.next_innerLeft hf, hc'.next_innerRight hf, List.getLast?_eq_none_iff,
      List.head?_eq_none_iff]
    exact hend
  · rw [hc'.next_innerLeft hf, hc'.next_innerRight hf]
    exact heq

theorem Due.safeVisit {left : Nat} (hs : s.Sound) (h : w.Due s p cs v)
    (hleft : s.leftSibling? v = some left) : SafeVisit s w v left := by
  have hvisit : visit s w v =
      let r := (w.placeNode s v).apportion s v left (w.chargedAt s v)
      r.1.setFallback (s.parent v) r.2 := by
    rw [visit, hleft]
    rfl
  rw [h.leftSibling?_eq hs] at hleft
  have hne : cs ≠ [] := by
    rintro rfl
    cases hleft
  obtain ⟨first, hfirst⟩ : ∃ first, cs.head? = some first :=
    Option.isSome_iff_exists.mp (by simpa using hne)
  obtain ⟨fb, hfb⟩ := Option.ne_none_iff_exists'.mp (h.forest.fallback.not.mpr hne)
  have hlinks := sameLinks_placeNode w s v
  have hf := h.facing hfb
  have hfits : (w.placeNode s v).Fits s.count := h.fits.congr hlinks.sizes
  have hcharged : w.chargedAt s v = fb := by
    rw [chargedAt, fallback, hlinks.fallbacks, hs.parent_child h.mem_children]
    rw [fallback] at hfb
    rw [hfb]
    rfl
  have hc : Clearing s (w.placeNode s v) cs v 0 (w.facingContours s v left).1
      (w.facingContours s v left).2 := by
    rw [facingContours, hf.headD_eq hs hfirst]
    exact clearing_atRoots _ hfirst hleft
  refine ⟨hvisit, fun {r} hreached => ?_, fun {fuel} hfuel => ?_⟩
  · rw [hcharged] at hreached ⊢
    obtain ⟨ℓ, hr⟩ := hc.rounds hs hfits hf hreached
    exact hr.safeAt hs hfits hf
  · rw [hcharged]
    exact clear_ends hs hfits hf hc hfuel

/-! ## The whole walk -/

/-- Whatever the numbers are: after each of the visits that the first walk makes, every thread leads
from a node without children one level down, and the next visit is safe. -/
theorem firstWalk_safe {parents : List (Option Nat)} (h : IsPreorder parents) :
    let s := Shape.ofParents parents
    (firstWalk s : Walk α) = s.visits.foldl (visit s) (start s.count) ∧
    ∀ done rest, s.visits = done ++ rest →
      let w : Walk α := done.foldl (visit s) (start s.count)
      w.ThreadsDescend s ∧
      ∀ v ∈ rest.head?, ∀ left ∈ s.leftSibling? v, SafeVisit s w v left := by
  intro s
  have hs : s.Sound := Shape.ofParents_sound h
  have hcount : 0 < s.count := by
    rw [(Shape.ofParents_built h).count]
    exact (List.getElem?_eq_some_iff.mp h.root).1
  refine ⟨rfl, fun done rest hsplit => ?_⟩
  intro w
  refine ⟨?_, fun v hv left hleft => ?_⟩
  · exact walk_rule (P := fun _ w => w.ThreadsDescend s) hs hcount (start_threadsDescend s)
      (fun hdue _ h => visit_threadsDescend hs hdue h) hsplit
  · obtain ⟨rest, rfl⟩ := List.head?_eq_some_iff.mp hv
    obtain ⟨p, cs, hdue⟩ := due_in_visits (α := α) hs hcount hsplit
    exact hdue.safeVisit hs hleft

/-- Before `5` is visited, a thread leads from `2` to `4`, a child of its sibling `3`. -/
theorem firstWalk_safe_threaded :
    let parents := [none, some 0, some 1, some 1, some 3, some 0, some 5, some 5]
    let s := Shape.ofParents parents
    let w : Walk Rat := [2, 4, 3, 1, 6, 7].foldl (visit s) (start s.count)
    IsPreorder parents ∧ w.thread 2 = some 4 ∧ w.ThreadsDescend s ∧ SafeVisit s w 5 1 := by
  intro parents s w
  have hpre : IsPreorder parents := by
    refine ⟨rfl, fun {i} hi => ?_⟩
    have hi : i < 7 := Nat.lt_of_succ_lt_succ hi
    interval_cases i
    · exact ⟨0, rfl, .self⟩
    · exact ⟨1, rfl, .self⟩
    · exact ⟨1, rfl, .up rfl .self⟩
    · exact ⟨3, rfl, .self⟩
    · exact ⟨0, rfl, .up rfl (.up rfl (.up rfl .self))⟩
    · exact ⟨5, rfl, .self⟩
    · exact ⟨5, rfl, .up rfl .self⟩
  have hsplit : s.visits = [2, 4, 3, 1, 6, 7] ++ [5, 0] := by decide +kernel
  obtain ⟨hthreads, hvisit⟩ := (firstWalk_safe (α := Rat) hpre).2 _ _ hsplit
  exact ⟨hpre, by decide +kernel, hthreads, hvisit 5 rfl 1 (by decide +kernel)⟩

example :
    (firstWalk (Shape.ofParents [none, some 0, some 1, some 1, some 3, some 0, some 5, some 5]) :
      Walk Rat).threads = #[none, none, some 4, none, none, none, none, some 4, none] := by
  decide +kernel

end Walk

end SourceAtlas.Layout
