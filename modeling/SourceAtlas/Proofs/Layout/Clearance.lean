import SourceAtlas.Proofs.Layout.Rows
import SourceAtlas.Proofs.Layout.Shifts

/-! # Setting a tree clear of its left siblings

Level by level the tree at `v` is moved to the right until it clears the forest of its left
siblings, and the siblings between the one in its way and `v` are owed a share of the way. `Cleared`
says how far this has come: the levels down to the one reached are apart if everything owed is
counted as paid, and the sums along the contours are what the ends of the level hand down. Siblings
that are moved later do not reach the levels still to come, so what is known of these stays true
(`row_spread`). -/

namespace SourceAtlas.Layout.Walk

/-! ## What one level does -/

section Level

variable {α : Type} [Scalar α] {s : Shape} {w : Walk α} {c : Contours α} {v fb x y x' y' : Nat}

def contoursAt (w : Walk α) (x y x' y' : Nat) (a b a' b' : α) : Contours α :=
  { innerLeft := x, innerRight := y, outerLeft := x', outerRight := y'
    sumInnerLeft := a + w.modifier x, sumInnerRight := b + w.modifier y
    sumOuterLeft := a' + w.modifier x', sumOuterRight := b' + w.modifier y' }

theorem clearLevel_stay (h : Scalar.less 0.0 (w.gap s c x y) = false) :
    clearLevel s v fb w c x y x' y' = (w.setAncestor y' v, (w.setAncestor y' v).contoursAt x y x' y'
      c.sumInnerLeft c.sumInnerRight c.sumOuterLeft c.sumOuterRight) := by
  have h' : Scalar.less 0.0 ((w.setAncestor y' v).gap s c x y) = false := h
  simp only [clearLevel, h', Bool.false_eq_true, if_false]
  rfl

theorem clearLevel_move (h : Scalar.less 0.0 (w.gap s c x y) = true) :
    clearLevel s v fb w c x y x' y' =
      ((w.setAncestor y' v).moveSubtree s ((w.setAncestor y' v).charged s (s.parent v) fb x) v
          (w.gap s c x y),
        ((w.setAncestor y' v).moveSubtree s ((w.setAncestor y' v).charged s (s.parent v) fb x) v
          (w.gap s c x y)).contoursAt x y x' y' c.sumInnerLeft (c.sumInnerRight + w.gap s c x y)
          c.sumOuterLeft (c.sumOuterRight + w.gap s c x y)) := by
  have h' : Scalar.less 0.0 ((w.setAncestor y' v).gap s c x y) = true := h
  simp only [clearLevel, h', if_true]
  rfl

end Level

variable {s : Shape} {w w' w₀ : Walk Rat} {D : Nat → Rat} {c : Contours Rat}
  {p v fb ℓ j x y x' y' : Nat} {a b a' b' : Rat} {cs : List Nat}

/-! ## Ends of a level -/

/-- The ends of level `ℓ` of the forest `cs` and of the tree at `v`, with the displacements that
they inherit. -/
structure Ends (s : Shape) (w₀ : Walk Rat) (cs : List Nat) (v : Nat) (D : Nat → Rat) (ℓ : Nat)
    (x y x' y' : Nat) (a b a' b' : Rat) : Prop where
  innerLeft : (w₀.row s D ℓ cs).getLast? = some (x, a)
  innerRight : (w₀.row s D ℓ [v]).head? = some (y, b)
  outerLeft : (w₀.row s D ℓ cs).head? = some (x', a')
  outerRight : (w₀.row s D ℓ [v]).getLast? = some (y', b')

namespace Ends

variable (h : Ends s w₀ cs v D ℓ x y x' y' a b a' b')
include h

theorem innerLeft_mem : x ∈ s.level ℓ cs := mem_level_of_mem_row (List.mem_of_getLast? h.innerLeft)

theorem innerRight_mem : y ∈ s.level ℓ [v] := mem_level_of_mem_row (List.mem_of_head? h.innerRight)

theorem outerLeft_mem : x' ∈ s.level ℓ cs := mem_level_of_mem_row (List.mem_of_head? h.outerLeft)

theorem outerRight_mem : y' ∈ s.level ℓ [v] :=
  mem_level_of_mem_row (List.mem_of_getLast? h.outerRight)

end Ends

/-- A tree is spaced wherever it stands. -/
theorem Spaced.displaced (h : w₀.Spaced s (fun _ => 0) [v]) (D : Nat → Rat) : w₀.Spaced s D [v] :=
  (h.slide (D v)).roots fun c hc => by rw [List.mem_singleton.mp hc, zero_add]

/-- Where the inner ends of a level are apart, the level is. -/
theorem Ends.apart (htree : w₀.Spaced s (fun _ => 0) [v])
    (h : Ends s w₀ cs v D ℓ x y x' y' a b a' b') (hforest : (w₀.places s D ℓ cs).Pairwise s.Apart)
    (hxy : s.Apart (w₀.spot (x, a)) (w₀.spot (y, b))) :
    (w₀.places s D ℓ (cs ++ [v])).Pairwise s.Apart := by
  rw [places_append]
  refine Shape.pairwise_apart_append hforest ((htree.displaced D).apart ℓ) ?_
  rw [places, List.getLast?_map, h.innerLeft, places, List.head?_map, h.innerRight]
  rintro _ ⟨⟩ _ ⟨⟩
  exact hxy

/-- Below the roots no end is `v`. -/
theorem Ends.ne_root (hs : s.Sound) (hsib : cs ++ [v] <+: s.children p)
    (h : Ends s w₀ cs v D (ℓ + 1) x y x' y' a b a' b') : x ≠ v ∧ y ≠ v ∧ x' ≠ v ∧ y' ≠ v := by
  have hforest {u : Nat} (hu : u ∈ s.level (ℓ + 1) cs) : u ≠ v := hs.ne_of_within_left hsib ⟨_, hu⟩
  have htree {u : Nat} (hu : u ∈ s.level (ℓ + 1) [v]) : u ≠ v := fun h =>
    Nat.succ_ne_zero ℓ (hs.level_unique (List.append_subset.mp hsib.subset).2 hu
      (List.mem_singleton.mpr h))
  exact ⟨hforest h.innerLeft_mem, htree h.innerRight_mem, hforest h.outerLeft_mem,
    htree h.outerRight_mem⟩

/-! ## Spreading the siblings -/

section Spread

variable {k : Nat} {gap : Rat} (hs : s.Sound) (hsib : cs ++ [v] <+: s.children p)

include hs hsib in
theorem number_lt_last (hk : k ∈ cs) : s.number k < s.number v := by
  rw [hs.number_next hsib]
  exact hs.number_lt_length ((List.prefix_append cs [v]).trans hsib) hk

include hs in
theorem spread_sorted {as : List Nat} (has : as <+: s.children p) (hgap : 0 ≤ gap)
    (hk : s.number k < s.number v) :
    as.Pairwise fun c d => spread s k v gap c ≤ spread s k v gap d :=
  (hs.number_sorted has).imp fun hcd => spread_mono hgap hk (Nat.le_of_lt hcd)

include hs in
theorem spread_front {as bs : List Nat} (hcs : cs <+: s.children p) (h : cs = as ++ k :: bs)
    {c : Nat} (hc : c ∈ as ++ [k]) : D c + spread s k v gap c = D c := by
  have hfront : as ++ [k] <+: s.children p :=
    (List.prefix_append _ bs).trans (by rwa [← List.append_cons, ← h])
  have hlt := hs.number_lt_length hfront hc
  rw [List.length_append, ← hs.number_next hfront] at hlt
  rw [spread_of_le (Nat.le_of_lt_succ hlt), add_zero]

variable (hk : s.LastReaching cs ℓ k)
include hs hsib hk

/-- Only trees that do not reach level `ℓ` are spread. -/
theorem row_spread (hj : ℓ ≤ j) :
    w₀.row s (fun c => D c + spread s k v gap c) j cs = w₀.row s D j cs := by
  have hcs : cs <+: s.children p := (List.prefix_append cs [v]).trans hsib
  obtain ⟨as, bs, h, -, hshort⟩ := hk
  rw [h, List.append_cons]
  exact row_congr_front (fun c hc => spread_front hs hcs h hc) (Shape.level_eq_nil hshort hj)

/-- Spreading leaves the left ends of all rows where they are. -/
theorem head?_row_spread (j : Nat) :
    (w₀.row s (fun c => D c + spread s k v gap c) j cs).head? = (w₀.row s D j cs).head? := by
  rcases Nat.le_total ℓ j with hj | hj
  · rw [row_spread hs hsib hk hj]
  · have hcs : cs <+: s.children p := (List.prefix_append cs [v]).trans hsib
    obtain ⟨as, bs, h, hreach, -⟩ := hk
    rw [h, List.append_cons]
    refine head?_row_congr_front (fun c hc => spread_front hs hcs h hc) fun hnil => ?_
    rw [Shape.level_append, List.append_eq_nil_iff] at hnil
    exact hreach (Shape.level_eq_nil hnil.2 hj)

/-- The ends of the forest stay, and those of the tree move with it. -/
theorem Ends.spread (h : Ends s w₀ cs v D ℓ x y x' y' a b a' b') :
    Ends s w₀ cs v (fun c => D c + spread s k v gap c) ℓ x y x' y' a (b + gap) a' (b' + gap) := by
  have hself : Walk.spread s k v gap v = gap := spread_self (number_lt_last hs hsib hk.mem)
  refine ⟨?_, ?_, ?_, ?_⟩
  · rw [row_spread hs hsib hk (Nat.le_refl ℓ), h.innerLeft]
  · rw [row_tree_slide, List.head?_map, h.innerRight, hself]; rfl
  · rw [head?_row_spread hs hsib hk, h.outerLeft]
  · rw [row_tree_slide, List.getLast?_map, h.outerRight, hself]; rfl

end Spread

/-! ## What has been moved -/

/-- The tree at `v` has been moved by `D v`, and `D` is also what the trees of the forest `cs` are
owed. The right contour of the forest need not be known any more above level `ℓ`. -/
structure Moved (s : Shape) (w₀ : Walk Rat) (cs : List Nat) (v : Nat) (D : Nat → Rat) (ℓ : Nat)
    (w : Walk Rat) : Prop where
  forest : ∀ j, (w₀.places s D j cs).Pairwise s.Apart
  left : Leads (w₀.stepLeft s) fun j => (w₀.row s D j cs).head?
  right : ∀ {j x}, ℓ ≤ j → (w₀.row s D j cs).getLast? = some x →
    w₀.stepRight s x = (w₀.row s D (j + 1) cs).getLast?
  prelim : ∀ u, w.prelim u = w₀.prelim u + if u = v then D v else 0
  modifier : ∀ u, w.modifier u = w₀.modifier u + if u = v then D v else 0
  owes : w.Owes D (w.shift v + w.change v) (w.change v) cs.reverse
  first : ∀ c ∈ cs.head?, D c = 0

namespace Moved

variable (h : Moved s w₀ cs v D ℓ w) {u : Nat}
include h

theorem prelim_root : w.prelim v = w₀.prelim v + D v := by rw [h.prelim, if_pos rfl]

theorem prelim_ne (hu : u ≠ v) : w.prelim u = w₀.prelim u := by rw [h.prelim, if_neg hu, add_zero]

theorem modifier_root : w.modifier v = w₀.modifier v + D v := by rw [h.modifier, if_pos rfl]

theorem modifier_ne (hu : u ≠ v) : w.modifier u = w₀.modifier u := by
  rw [h.modifier, if_neg hu, add_zero]

theorem setAncestor (u r : Nat) : Moved s w₀ cs v D ℓ (w.setAncestor u r) :=
  ⟨h.forest, h.left, h.right, h.prelim, h.modifier,
    h.owes.congr (fun _ _ => rfl) (fun _ _ => rfl) fun _ _ => rfl, h.first⟩

theorem deeper : Moved s w₀ cs v D (ℓ + 1) w :=
  ⟨h.forest, h.left, fun hj => h.right (Nat.le_of_succ_le hj), h.prelim, h.modifier, h.owes,
    h.first⟩

/-- The tree is moved on by `gap`, and the siblings after `k` are owed their shares. -/
theorem moveSubtree {k : Nat} {gap : Rat} (hs : s.Sound) (hsib : cs ++ [v] <+: s.children p)
    (hw : w.Fits s.count) (hk : s.LastReaching cs ℓ k) (hgap : 0 < gap) :
    Moved s w₀ cs v (fun c => D c + spread s k v gap c) ℓ (w.moveSubtree s k v gap) := by
  have hfront : cs <+: s.children p := (List.prefix_append cs [v]).trans hsib
  have hv : v ≤ s.count := Nat.le_of_lt (hs.child_lt_count (hsib.subset (by simp)))
  have hlt := number_lt_last hs hsib hk.mem
  have hself : spread s k v gap v = gap := spread_self hlt
  refine ⟨fun j => pairwise_stretch (h.forest j) (spread_sorted hs hfront (le_of_lt hgap) hlt), ?_,
    fun hj hx => ?_, fun u => ?_, fun u => ?_, h.owes.moveSubtree hs hw hsib hk.mem, fun f hf => ?_⟩
  · simpa only [head?_row_spread hs hsib hk] using h.left
  · rw [row_spread hs hsib hk hj] at hx
    rw [h.right hj hx, row_spread hs hsib hk (Nat.le_succ_of_le hj)]
  · by_cases hu : u = v
    · rw [hu, prelim_moveSubtree hw hv, if_pos rfl, hself, ← add_assoc, ← h.prelim_root]
    · rw [prelim_moveSubtree_ne hu, if_neg hu, add_zero, ← h.prelim_ne hu]
  · by_cases hu : u = v
    · rw [hu, modifier_moveSubtree hw hv, if_pos rfl, hself, ← add_assoc, ← h.modifier_root]
    · rw [modifier_moveSubtree_ne hu, if_neg hu, add_zero, ← h.modifier_ne hu]
  · rw [h.first f hf, zero_add, spread_of_le]
    rw [hs.number_first hfront hf]
    exact Nat.zero_le _

end Moved

/-! ## Levels that are apart -/

/-- Down to level `ℓ` the forest `cs` and the tree at `v` stand apart, and the contours stand at the
ends of this level. -/
structure Cleared (s : Shape) (w₀ : Walk Rat) (cs : List Nat) (v : Nat) (D : Nat → Rat) (ℓ : Nat)
    (w : Walk Rat) (c : Contours Rat) : Prop extends Moved s w₀ cs v D ℓ w where
  apart : ∀ j ≤ ℓ, (w₀.places s D j (cs ++ [v])).Pairwise s.Apart
  ends : Ends s w₀ cs v D ℓ c.innerLeft c.innerRight c.outerLeft c.outerRight
    (c.sumInnerLeft - w₀.modifier c.innerLeft) (c.sumInnerRight - w₀.modifier c.innerRight)
    (c.sumOuterLeft - w₀.modifier c.outerLeft) (c.sumOuterRight - w₀.modifier c.outerRight)

/-- The sums of the contours are what the ends of the next level inherit. -/
theorem Cleared.next_ends (htree : w₀.Spaced s (fun _ => 0) [v])
    (h : Cleared s w₀ cs v D ℓ w c) (hx : (s.level (ℓ + 1) cs).getLast? = some x)
    (hy : (s.level (ℓ + 1) [v]).head? = some y) (hx' : (s.level (ℓ + 1) cs).head? = some x')
    (hy' : (s.level (ℓ + 1) [v]).getLast? = some y') :
    Ends s w₀ cs v D (ℓ + 1) x y x' y' c.sumInnerLeft c.sumInnerRight c.sumOuterLeft
      c.sumOuterRight where
  innerLeft := stepRight_eq (h.right (Nat.le_refl ℓ) h.ends.innerLeft) (getLast?_row.trans hx)
  innerRight := stepLeft_eq ((htree.displaced D).left h.ends.innerRight) (head?_row.trans hy)
  outerLeft := stepLeft_eq (h.left h.ends.outerLeft) (head?_row.trans hx')
  outerRight := stepRight_eq ((htree.displaced D).right h.ends.outerRight) (getLast?_row.trans hy')

section Step

variable (hs : s.Sound) (hsib : cs ++ [v] <+: s.children p) (htree : w₀.Spaced s (fun _ => 0) [v])
include hs hsib htree

/-- A further level is cleared when its inner ends are apart. -/
theorem Moved.reach (h : Moved s w₀ cs v D (ℓ + 1) w)
    (happart : ∀ j ≤ ℓ, (w₀.places s D j (cs ++ [v])).Pairwise s.Apart)
    (hends : Ends s w₀ cs v D (ℓ + 1) x y x' y' a b a' b')
    (hxy : s.Apart (w₀.spot (x, a)) (w₀.spot (y, b))) :
    Cleared s w₀ cs v D (ℓ + 1) w (w.contoursAt x y x' y' a b a' b') := by
  refine ⟨h, fun j hj => ?_, ?_⟩
  · rcases Nat.le_succ_iff.mp hj with hj | rfl
    · exact happart j hj
    · exact hends.apart htree (h.forest (ℓ + 1)) hxy
  · obtain ⟨hx, hy, hx', hy'⟩ := hends.ne_root hs hsib
    have hcancel {t : Rat} {u : Nat} (hu : u ≠ v) : t + w.modifier u - w₀.modifier u = t := by
      rw [h.modifier_ne hu]; ring
    simp only [contoursAt, hcancel hx, hcancel hy, hcancel hx', hcancel hy']
    exact hends

theorem Cleared.stay (h : Cleared s w₀ cs v D ℓ w c)
    (hends : Ends s w₀ cs v D (ℓ + 1) x y x' y' c.sumInnerLeft c.sumInnerRight c.sumOuterLeft
      c.sumOuterRight)
    (hgap : w.gap s c x y ≤ 0) :
    Cleared s w₀ cs v D (ℓ + 1) (w.setAncestor y' v) ((w.setAncestor y' v).contoursAt x y x' y'
      c.sumInnerLeft c.sumInnerRight c.sumOuterLeft c.sumOuterRight) := by
  obtain ⟨hx, hy, -, -⟩ := hends.ne_root hs hsib
  refine (h.setAncestor y' v).deeper.reach hs hsib htree h.apart hends ?_
  rw [gap, h.prelim_ne hx, h.prelim_ne hy] at hgap
  simp only [Shape.Apart, spot]
  linarith

theorem Cleared.move {k : Nat} (hw : w.Fits s.count) (h : Cleared s w₀ cs v D ℓ w c)
    (hends : Ends s w₀ cs v D (ℓ + 1) x y x' y' c.sumInnerLeft c.sumInnerRight c.sumOuterLeft
      c.sumOuterRight)
    (hk : s.LastReaching cs (ℓ + 1) k) (hgap : 0 < w.gap s c x y) :
    Cleared s w₀ cs v (fun c' => D c' + spread s k v (w.gap s c x y) c') (ℓ + 1)
      ((w.setAncestor y' v).moveSubtree s k v (w.gap s c x y))
      (((w.setAncestor y' v).moveSubtree s k v (w.gap s c x y)).contoursAt x y x' y'
        c.sumInnerLeft (c.sumInnerRight + w.gap s c x y) c.sumOuterLeft
        (c.sumOuterRight + w.gap s c x y)) := by
  obtain ⟨hx, hy, -, -⟩ := hends.ne_root hs hsib
  have hmoved :=
    (h.setAncestor y' v).deeper.moveSubtree hs hsib (hw.congr sizes_setAncestor) hk hgap
  refine hmoved.reach hs hsib htree (fun j hj => ?_) (hends.spread hs hsib hk) ?_
  · exact pairwise_stretch (h.apart j hj)
      (spread_sorted hs hsib (le_of_lt hgap) (number_lt_last hs hsib hk.mem))
  · simp only [Shape.Apart, spot, gap, h.prelim_ne hx, h.prelim_ne hy]
    linarith

end Step

theorem cleared_keptByLevels (hs : s.Sound) (hf : w₀.Facing s p cs v fb)
    (htree : w₀.Spaced s (fun _ => 0) [v]) (hw : w₀.Fits s.count) :
    KeptByLevels s w₀ cs v fb fun ℓ w c => ∃ D, Cleared s w₀ cs v D ℓ w c := by
  rintro ℓ w c x y x' y' hc ⟨D, h⟩ hx hy hx' hy'
  have hends := h.next_ends htree hx hy hx' hy'
  have hless : Scalar.less 0.0 (w.gap s c x y) = true ↔ 0 < w.gap s c x y := by
    rw [Scalar.less_iff, Scalar.zero_eq]
  by_cases hgap : 0 < w.gap s c x y
  · rw [clearLevel_move (hless.mpr hgap),
      hc.charged_eq hs hf (Shape.within_of_getLast? hx) (Shape.within_of_getLast? hy')]
    exact ⟨_, h.move hs hf.siblings htree (hw.congr hc.sizes) hends (hf.charged hx) hgap⟩
  · rw [clearLevel_stay (Bool.eq_false_iff.mpr (mt hless.mp hgap))]
    exact ⟨D, h.stay hs hf.siblings htree hends (not_lt.mp hgap)⟩

end SourceAtlas.Layout.Walk
