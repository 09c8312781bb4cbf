import Mathlib.Data.List.Nodup
import SourceAtlas.Proofs.Layout.Clearance

/-! # Spacing after the first walk

A visit sets the tree at a node clear of its left siblings and joins their contours, so that what
has been visited below a node is always a forest that keeps its separations once it is paid what it
is owed (`Arranged`). The root is owed nothing, and so after the first walk all rows of the tree
keep their separations (`firstWalk_apart`). -/

namespace SourceAtlas.Layout.Walk

variable {s : Shape} {w w' w₀ : Walk Rat} {D : Nat → Rat} {c : Contours Rat}
  {p v fb ℓ : Nat} {a b : Rat} {cs : List Nat}

/-! ## Joining the contours -/

/-- What `v` alone has been moved by. -/
def movedBy (D : Nat → Rat) (v u : Nat) : Rat := if u = v then D v else 0

/-- The forest `cs` and the tree at `v` stand apart on all levels, the trees being displaced by `D`.
The sums of the contours are what the ends of level `ℓ` hand down. -/
structure Abreast (s : Shape) (w : Walk Rat) (cs : List Nat) (v : Nat) (D : Nat → Rat) (ℓ : Nat)
    (c : Contours Rat) : Prop where
  apart : ∀ j, (w.places s D j (cs ++ [v])).Pairwise s.Apart
  forestLeft : Leads (w.stepLeft s) fun j => (w.row s D j cs).head?
  forestRight : ∀ {j x}, ℓ ≤ j → (w.row s D j cs).getLast? = some x →
    w.stepRight s x = (w.row s D (j + 1) cs).getLast?
  treeLeft : Leads (w.stepLeft s) fun j => (w.row s D j [v]).head?
  treeRight : Leads (w.stepRight s) fun j => (w.row s D j [v]).getLast?
  ends : Ends s w cs v D ℓ c.innerLeft c.innerRight c.outerLeft c.outerRight
    (c.sumInnerLeft - w.modifier c.innerLeft) (c.sumInnerRight - w.modifier c.innerRight)
    (c.sumOuterLeft - w.modifier c.outerLeft) (c.sumOuterRight - w.modifier c.outerRight)

theorem Cleared.paid (hs : s.Sound) (hf : w₀.Facing s p cs v fb) (hc : Clearing s w₀ cs v ℓ w c)
    (h : Cleared s w₀ cs v D ℓ w c) : Paid s (movedBy D v) (cs ++ [v]) w₀ w where
  prelim _ := h.prelim _
  modifier _ := h.modifier _
  thread _ := by rw [thread, thread, hc.threads]
  below {j u} hu := if_neg fun huv => by
    have hroot : u ∈ s.level 0 (cs ++ [v]) := by rw [huv]; exact List.mem_append_right cs (by simp)
    exact Nat.succ_ne_zero j (hs.level_unique hf.siblings.subset hu hroot)

theorem Cleared.abreast (hs : s.Sound) (hf : w₀.Facing s p cs v fb)
    (htree : w₀.Spaced s (fun _ => 0) [v]) (hc : Clearing s w₀ cs v ℓ w c)
    (h : Cleared s w₀ cs v D ℓ w c)
    (hend : s.level (ℓ + 1) cs = [] ∨ s.level (ℓ + 1) [v] = []) :
    Abreast s w cs v (fun u => D u - movedBy D v u) ℓ c := by
  have hpaid := h.paid hs hf hc
  have hforest : Paid s (movedBy D v) cs w₀ w := hpaid.mono (List.subset_append_left cs [v])
  have hv : Paid s (movedBy D v) [v] w₀ w := hpaid.mono (List.subset_append_right cs [v])
  have hends {u : Nat} {t : Rat} :
      unpaid (movedBy D v) (u, t - w₀.modifier u) = (u, t - w.modifier u) := by
    rw [h.modifier, unpaid, movedBy, sub_sub]
  refine ⟨fun j => ?_, hforest.left h.left, fun hj hx => ?_, hv.left (htree.displaced D).left,
    hv.right (htree.displaced D).right, ⟨?_, ?_, ?_, ?_⟩⟩
  · rw [hpaid.places]
    rcases Nat.lt_or_ge ℓ j with hj | hj
    · -- Below level `ℓ` one of the two has no nodes.
      rw [places_append]
      rcases hend with hnil | hnil
      · rw [places, row_eq_nil.mpr (Shape.level_eq_nil hnil hj)]
        exact (htree.displaced D).apart j
      · rw [places, places, row_eq_nil.mpr (Shape.level_eq_nil hnil hj), List.map_nil,
          List.append_nil]
        exact h.forest j
    · exact h.apart j hj
  · rw [hforest.row, List.getLast?_map] at hx
    obtain ⟨x₀, hx₀, rfl⟩ := Option.map_eq_some_iff.mp hx
    exact hforest.stepRight hx₀ (h.right hj hx₀)
  · rw [hforest.row, List.getLast?_map, h.ends.innerLeft, Option.map_some, hends]
  · rw [hv.row, List.head?_map, h.ends.innerRight, Option.map_some, hends]
  · rw [hforest.row, List.head?_map, h.ends.outerLeft, Option.map_some, hends]
  · rw [hv.row, List.getLast?_map, h.ends.outerRight, Option.map_some, hends]

section Hook

variable {o next : Nat} {t : Rat} {z : Nat × Rat}

/-- A node without children hands nothing down, so a thread does not change the rows. -/
theorem row_hook (ho : s.children o = []) : (w.hook o next t).row s D ℓ cs = w.row s D ℓ cs := by
  refine generation_congr fun j _ z _ => ?_
  by_cases hz : z.1 = o
  · rw [hang, hang, hz, ho]; rfl
  · rw [hang, handed, show (w.hook o next t).modifier z.1 = w.modifier z.1 from
      congrArg Note.modifier (note_hook hz)]
    rfl

theorem places_hook (ho : s.children o = []) :
    (w.hook o next t).places s D ℓ cs = w.places s D ℓ cs := by
  rw [places, row_hook ho]; rfl

theorem handed_hook_ne (hz : z.1 ≠ o) : (w.hook o next t).handed z = w.handed z :=
  congrArg (z.2 + ·) (congrArg Note.modifier (note_hook hz))

theorem stepLeft_hook_ne (hz : z.1 ≠ o) : (w.hook o next t).stepLeft s z = w.stepLeft s z := by
  rw [stepLeft, nextLeft_hook_ne hz, handed_hook_ne hz, stepLeft]

theorem stepRight_hook_ne (hz : z.1 ≠ o) : (w.hook o next t).stepRight s z = w.stepRight s z := by
  rw [stepRight, nextRight_hook_ne hz, handed_hook_ne hz, stepRight]

/-- The thread leads on to where the longer contour stands. -/
theorem handed_hook (hw : w.Fits s.count) (ho : o ≤ s.count) :
    (w.hook o next (b - a)).handed (o, a - w.modifier o) = b := by
  rw [handed, modifier_hook hw ho]; ring

theorem stepLeft_hook (hw : w.Fits s.count) (ho : o ≤ s.count) (hleaf : s.children o = []) :
    (w.hook o next (b - a)).stepLeft s (o, a - w.modifier o) = some (next, b) := by
  rw [stepLeft, nextLeft_hook hw ho hleaf, handed_hook hw ho]; rfl

theorem stepRight_hook (hw : w.Fits s.count) (ho : o ≤ s.count) (hleaf : s.children o = []) :
    (w.hook o next (b - a)).stepRight s (o, a - w.modifier o) = some (next, b) := by
  rw [stepRight, nextRight_hook hw ho hleaf, handed_hook hw ho]; rfl

end Hook

section Join

variable {r : Walk Rat × Nat}

theorem endsOf_row_head? (s : Shape) (w : Walk Rat) (D : Nat → Rat) (cs : List Nat) :
    s.EndsOf Prod.fst cs fun j => (w.row s D j cs).head? :=
  Shape.endsOf_head? fun _ => row_nodes

theorem endsOf_row_getLast? (s : Shape) (w : Walk Rat) (D : Nat → Rat) (cs : List Nat) :
    s.EndsOf Prod.fst cs fun j => (w.row s D j cs).getLast? :=
  Shape.endsOf_getLast? fun _ => row_nodes

variable (hs : s.Sound) (hsib : cs ++ [v] <+: s.children p) (hw : w.Fits s.count)
  (h : Abreast s w cs v D ℓ c)
include hs hsib hw h

theorem Abreast.left (hj : Joins s w c cs v fb ℓ r) :
    Leads (r.1.stepLeft s) fun j => (r.1.row s D j (cs ++ [v])).head? := by
  have hcs := endsOf_row_head? s w D cs
  have hv := endsOf_row_head? s w D [v]
  have hmem := h.ends.outerLeft_mem
  have hne : s.level ℓ cs ≠ [] := List.ne_nil_of_mem hmem
  cases hj with
  | forest _ hstop =>
    simp only [row_hook (Shape.children_eq_nil hstop h.ends.outerRight_mem), row_append,
      List.head?_append]
    refine hcs.join_long hv (hs.not_within_both hsib) h.forestLeft hne hstop fun hx => ?_
    exact stepLeft_hook_ne fun heq => hx (heq ▸ ⟨ℓ, h.ends.outerRight_mem⟩)
  | tree hstop hnext =>
    have hsub := (List.append_subset.mp hsib.subset).1
    have hle := Nat.le_of_lt (hs.lt_count_of_mem_level hsub hmem)
    have hleaf := Shape.children_eq_nil hstop hmem
    have hinner := stepLeft_eq (h.treeLeft h.ends.innerRight) (head?_row.trans hnext)
    simp only [row_hook hleaf, row_append, List.head?_append]
    exact hcs.join_short hv (hs.not_within_both hsib) h.forestLeft hs hsub hstop h.ends.outerLeft
      ((stepLeft_hook hw hle hleaf).trans hinner.symm) (fun _ hx => h.treeLeft hx) stepLeft_hook_ne
  | neither _ hstop =>
    simp only [row_append, List.head?_append]
    exact hcs.join_long hv (hs.not_within_both hsib) h.forestLeft hne hstop fun _ => rfl

theorem Abreast.right (hj : Joins s w c cs v fb ℓ r) :
    Leads (r.1.stepRight s) fun j => (r.1.row s D j (cs ++ [v])).getLast? := by
  have hcs := endsOf_row_getLast? s w D cs
  have hv := endsOf_row_getLast? s w D [v]
  have hdisjoint {u : Nat} (hu : s.Within [v] u) : ¬ s.Within cs u :=
    fun h => hs.not_within_both hsib h hu
  have hmem := h.ends.outerRight_mem
  have hne : s.level ℓ [v] ≠ [] := List.ne_nil_of_mem hmem
  cases hj with
  | forest hnext hstop =>
    have hsub := (List.append_subset.mp hsib.subset).2
    have hle := Nat.le_of_lt (hs.lt_count_of_mem_level hsub hmem)
    have hleaf := Shape.children_eq_nil hstop hmem
    have hinner := stepRight_eq (h.forestRight (Nat.le_refl ℓ) h.ends.innerLeft)
      (getLast?_row.trans hnext)
    simp only [row_hook hleaf, row_append, List.getLast?_append]
    exact hv.join_short hcs hdisjoint h.treeRight hs hsub hstop h.ends.outerRight
      ((stepRight_hook hw hle hleaf).trans hinner.symm) h.forestRight stepRight_hook_ne
  | tree hstop _ =>
    simp only [row_hook (Shape.children_eq_nil hstop h.ends.outerLeft_mem), row_append,
      List.getLast?_append]
    refine hv.join_long hcs hdisjoint h.treeRight hne hstop fun hx => ?_
    exact stepRight_hook_ne fun heq => hx (heq ▸ ⟨ℓ, h.ends.outerLeft_mem⟩)
  | neither hstop _ =>
    simp only [row_append, List.getLast?_append]
    exact hv.join_long hcs hdisjoint h.treeRight hne hstop fun _ => rfl

theorem Abreast.spaced (hj : Joins s w c cs v fb ℓ r) : r.1.Spaced s D (cs ++ [v]) := by
  refine ⟨fun j => ?_, h.left hs hsib hw hj, h.right hs hsib hw hj⟩
  cases hj with
  | forest hcs hv =>
    rw [places_hook (Shape.children_eq_nil hv h.ends.outerRight_mem)]
    exact h.apart j
  | tree hcs hv =>
    rw [places_hook (Shape.children_eq_nil hcs h.ends.outerLeft_mem)]
    exact h.apart j
  | neither hcs hv => exact h.apart j

end Join

/-! ## Visits -/

/-- The siblings `cs` will be well spaced once they are paid what they are owed, `D`. The outermost
ones are owed nothing. -/
structure Arranged (s : Shape) (w : Walk Rat) (D : Nat → Rat) (cs : List Nat) : Prop where
  spaced : w.Spaced s D cs
  owes : w.Owes D 0 0 cs.reverse
  first : ∀ c ∈ cs.head?, D c = 0
  last : ∀ c ∈ cs.getLast?, D c = 0

theorem Arranged.frame (hw : w.Arranged s D cs) (h : ∀ {u}, s.Within cs u → w'.note u = w.note u) :
    w'.Arranged s D cs where
  spaced := hw.spaced.frame h
  owes := hw.owes.congr (fun _ _ => rfl)
    (fun _ hc => congrArg Note.shift (h (Shape.within_of_mem (List.mem_reverse.mp hc))))
    fun _ hc => congrArg Note.change (h (Shape.within_of_mem (List.mem_reverse.mp hc)))
  first := hw.first
  last := hw.last

/-- The children are paid what they are owed. -/
theorem executeShifts_paid {E : Nat → Rat} (hs : s.Sound) (hw : w.Fits s.count)
    (h : w.Owes E 0 0 (s.children v).reverse) :
    Paid s (fun u => if u ∈ s.children v then E u else 0) (s.children v) w
      (w.executeShifts s v) := by
  have hpays {u : Nat} (hu : u ∈ s.children v) :
      (w.executeShifts s v).prelim u = w.prelim u + E u ∧
        (w.executeShifts s v).modifier u = w.modifier u + E u := by
    rw [executeShifts, Scalar.zero_eq]
    exact payShifts_owes hw
      (fun c hc => Nat.le_of_lt (hs.child_lt_count (List.mem_reverse.mp hc)))
      (List.nodup_reverse.mpr (hs.children_nodup v)) h (List.mem_reverse.mpr hu)
  refine ⟨fun {u} _ => ?_, fun {u} _ => ?_, fun _ => ?_, fun {ℓ u} hu => if_neg fun hchild => ?_⟩
  · split
    · next hu => exact (hpays hu).1
    · next hu => rw [add_zero]; exact congrArg Note.prelim (note_executeShifts hu)
  · split
    · next hu => exact (hpays hu).2
    · next hu => rw [add_zero]; exact congrArg Note.modifier (note_executeShifts hu)
  · rw [thread, (sameLinks_executeShifts w s v).threads]; rfl
  · exact Nat.succ_ne_zero ℓ (hs.level_unique (List.Subset.refl _) hu hchild)

/-- Once the node is placed, its tree is well spaced. -/
theorem Due.tree_spaced {E : Nat → Rat} (hs : s.Sound) (h : w.Due s p cs v)
    (hE : w.Arranged s E (s.children v)) : (w.placeNode s v).Spaced s (fun _ => 0) [v] := by
  have hpaid := executeShifts_paid hs h.fits hE.owes
  have hchildren : (w.executeShifts s v).Spaced s (fun _ => 0 + (w.placeNode s v).modifier v)
      (s.children v) :=
    (hpaid.spaced (hE.spaced.slide _)).roots fun c hc => by rw [if_pos hc]; ring
  have hnote {u : Nat} (hu : s.Within (s.children v) u) :
      (w.placeNode s v).note u = (w.executeShifts s v).note u :=
    note_placeNode fun heq => hs.not_within_children v (heq ▸ hu)
  refine Spaced.tree (hchildren.frame hnote) ?_
  exact (thread_placeNode w s v v).trans (congrArg Note.thread h.note)

theorem Due.forest_arranged (hs : s.Sound) (h : w.Due s p cs v) (hD : w.Arranged s D cs) :
    (w.placeNode s v).Arranged s D cs :=
  hD.frame fun hu => (placeNode_changedWithin s p w).note (hs.not_within_both h.siblings' hu)

/-- A placed node keeps its separation from its left sibling. -/
theorem Due.apart_left {left : Nat} (hs : s.Sound) (h : w.Due s p cs v)
    (hleft : cs.getLast? = some left) :
    s.Apart ((w.placeNode s v).spot (left, 0)) ((w.placeNode s v).spot (v, 0)) := by
  have hv : v ≤ s.count := Nat.le_of_lt (hs.child_lt_count h.mem_children)
  have hne : left ≠ v :=
    hs.ne_of_within_left h.siblings' (Shape.within_of_mem (List.mem_of_getLast? hleft))
  have hplace := prelim_placeNode h.fits hv ((h.leftSibling?_eq hs).trans hleft)
  have hsame : (w.placeNode s v).prelim left = (w.executeShifts s v).prelim left :=
    congrArg Note.prelim (note_placeNode hne)
  simp only [Shape.Apart, spot, hplace, hsame, s.separation_comm left v]
  linarith

theorem Due.cleared_start {first left : Nat} (hs : s.Sound) (h : w.Due s p cs v)
    (hD : w.Arranged s D cs) (htree : (w.placeNode s v).Spaced s (fun _ => 0) [v])
    (hfirst : cs.head? = some first) (hleft : cs.getLast? = some left) :
    Cleared s (w.placeNode s v) cs v (fun u => if u = v then 0 else D u) 0 (w.placeNode s v)
      ((w.placeNode s v).atRoots first left v) := by
  have hforest := h.forest_arranged hs hD
  have hroots (c : Nat) (hc : c ∈ cs) : (if c = v then 0 else D c) = D c :=
    if_neg (hs.ne_of_within_left h.siblings' (Shape.within_of_mem hc))
  have hspaced := hforest.spaced.roots hroots
  have hfirst₀ (c : Nat) (hc : c ∈ cs.head?) : (if c = v then 0 else D c) = 0 := by
    rw [hroots c (List.mem_of_head? hc), hD.first c hc]
  have hlast₀ : (if left = v then 0 else D left) = 0 := by
    rw [hroots left (List.mem_of_getLast? hleft), hD.last left hleft]
  have hends : Ends s (w.placeNode s v) cs v (fun u => if u = v then 0 else D u) 0 left v first v
      0 0 0 0 := by
    refine ⟨?_, ?_, ?_, ?_⟩
    · rw [row, generation, List.getLast?_map, hleft, Option.map_some, hlast₀]
    · simp [row, generation]
    · rw [row, generation, List.head?_map, hfirst, Option.map_some, hfirst₀ first hfirst]
    · simp [row, generation]
  have hnote : (w.placeNode s v).shift v + (w.placeNode s v).change v = 0 ∧
      (w.placeNode s v).change v = 0 := by
    have hlinks := sameLinks_placeNode w s v
    have hshift : w.shift v = 0 := (congrArg Note.shift h.note).trans Scalar.zero_eq
    have hchange : w.change v = 0 := (congrArg Note.change h.note).trans Scalar.zero_eq
    rw [shift, change, hlinks.shifts, hlinks.changes, ← shift, ← change, hshift, hchange]
    exact ⟨add_zero 0, rfl⟩
  refine ⟨⟨hspaced.apart, hspaced.left, fun _ hx => hspaced.right hx, fun u => by simp,
    fun u => by simp, ?_, hfirst₀⟩, fun j hj => ?_, ?_⟩
  · rw [hnote.1, hnote.2]
    exact hforest.owes.congr (fun c hc => hroots c (List.mem_reverse.mp hc)) (fun _ _ => rfl)
      fun _ _ => rfl
  · rw [Nat.le_zero.mp hj]
    exact hends.apart htree (hspaced.apart 0) (h.apart_left hs hleft)
  · simpa only [atRoots, sub_self] using hends

/-- The forest is arranged anew with the tree that has been set beside it. -/
theorem Cleared.arranged {r : Walk Rat × Nat} (hs : s.Sound) (hw : w₀.Fits s.count)
    (hf : w₀.Facing s p cs v fb) (htree : w₀.Spaced s (fun _ => 0) [v]) (hne : cs ≠ [])
    (hc : Clearing s w₀ cs v ℓ w c) (h : Cleared s w₀ cs v D ℓ w c)
    (hj : Joins s w c cs v fb ℓ r) :
    r.1.Arranged s (fun u => D u - movedBy D v u) (cs ++ [v]) := by
  have hroots (c : Nat) (hc : c ∈ cs) : D c - movedBy D v c = D c := by
    rw [movedBy, if_neg (hs.ne_of_within_left hf.siblings (Shape.within_of_mem hc)), sub_zero]
  have hself : D v - movedBy D v v = 0 := by rw [movedBy, if_pos rfl, sub_self]
  have hshift (u : Nat) : r.1.shift u = w.shift u := by rw [shift, hj.shifts_eq]; rfl
  have hchange (u : Nat) : r.1.change u = w.change u := by rw [change, hj.changes_eq]; rfl
  have habreast := h.abreast hs hf htree hc hj.ends
  refine ⟨habreast.spaced hs hf.siblings (hw.congr hc.sizes) hj, ?_, fun c hc => ?_, fun c hc => ?_⟩
  · rw [List.reverse_concat, Owes, hshift, hchange, zero_add, zero_add]
    exact ⟨hself, h.owes.congr (fun c hc => hroots c (List.mem_reverse.mp hc)) (fun c _ => hshift c)
      fun c _ => hchange c⟩
  · rw [List.head?_append_of_ne_nil _ hne] at hc
    rw [hroots c (List.mem_of_head? hc), h.first c hc]
  · rw [List.getLast?_concat] at hc
    obtain rfl := Option.some.inj hc
    exact hself

theorem visit_arranged {E : Nat → Rat} (hs : s.Sound) (h : w.Due s p cs v) (hD : w.Arranged s D cs)
    (hE : w.Arranged s E (s.children v)) : ∃ D', (visit s w v).Arranged s D' (cs ++ [v]) := by
  have htree := h.tree_spaced hs hE
  have hfits : (w.placeNode s v).Fits s.count := h.fits.congr (sameLinks_placeNode w s v).sizes
  rcases visit_cases hs h
    (fun hfirst hleft => ⟨_, h.cleared_start hs hD htree hfirst hleft⟩)
    (fun hf => cleared_keptByLevels hs hf htree hfits) with
    ⟨rfl, hvisit⟩ | ⟨fb, ℓ, w', c, r, hne, hfb, hc, ⟨D', hD'⟩, hj, hvisit⟩
  · rw [hvisit]
    exact ⟨fun _ => 0, Spaced.frame (w := w.placeNode s v) (fun _ => rfl) htree, ⟨rfl, trivial⟩,
      fun _ _ => rfl, fun _ _ => rfl⟩
  · rw [hvisit]
    exact ⟨_, (hD'.arranged hs hfits (h.facing hfb) htree hne hc hj).frame fun _ => rfl⟩

theorem Arranged.nil (s : Shape) (w : Walk Rat) : w.Arranged s (fun _ => 0) [] where
  spaced :=
    have hrow (ℓ : Nat) : w.row s (fun _ => 0) ℓ [] = [] := generation_nil ..
    ⟨fun ℓ => by rw [places, hrow]; exact .nil, fun ℓ x hx => by simp [hrow] at hx,
      fun ℓ x hx => by simp [hrow] at hx⟩
  owes := trivial
  first _ hc := by cases hc
  last _ hc := by cases hc

/-- After the first walk the rows of the whole tree keep their separations. -/
theorem firstWalk_apart (hs : s.Sound) (hcount : 0 < s.count) :
    (firstWalk s : Walk Rat).Fits s.count ∧
      ∀ ℓ, ((firstWalk s).places s (fun _ => 0) ℓ [0]).Pairwise s.Apart := by
  obtain ⟨hfits, D, hD⟩ := firstWalk_rule (Q := fun w _ cs => ∃ D, w.Arranged s D cs) hs hcount
    ⟨_, Arranged.nil s _⟩ (fun _ hnote ⟨D, hD⟩ => ⟨D, hD.frame hnote⟩)
    (fun hdue ⟨D, hD⟩ ⟨E, hE⟩ => visit_arranged hs hdue hD hE)
  have hroot (c : Nat) (hc : c ∈ [0]) : 0 = D c := by
    rw [List.mem_singleton.mp hc, hD.first 0 rfl]
  exact ⟨hfits, (hD.spaced.roots hroot).apart⟩

end SourceAtlas.Layout.Walk
