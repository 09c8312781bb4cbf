import SourceAtlas.Proofs.Layout.TidyTree

/-! # A tidy tree in its area

The stretch makes the outermost nodes and a margin on either side fill the breadth, so the same room
is free at both ends. The levels stand a column apart, from the near end on. -/

namespace SourceAtlas.Layout

section Breadth

variable {s : Shape} {xs : Array Rat} {breadth : Rat}

theorem bestIndex_lt (better : Rat → Rat → Bool) (hxs : 0 < xs.size) :
    bestIndex better xs < xs.size := by
  have hrun (n : Nat) (hn : n ≤ xs.size) :
      (List.range n).foldl (fun best v =>
        if better (xs.getD v 0.0) (xs.getD best 0.0) then v else best) 0 < xs.size := by
    induction n with
    | zero => exact hxs
    | succ n ih =>
      rw [List.range_succ, List.foldl_append, List.foldl_cons, List.foldl_nil]
      split
      · exact hn
      · exact ih (Nat.le_of_succ_le hn)
  exact hrun xs.size (Nat.le_refl _)

theorem leftmost_lt (hxs : 0 < xs.size) : leftmost xs < xs.size := bestIndex_lt _ hxs

theorem rightmost_lt (hxs : 0 < xs.size) : rightmost xs < xs.size := bestIndex_lt _ hxs

/-- Stretched, the distance of the outermost nodes and the two margins are the breadth. -/
theorem span_mul_scale (s : Shape) (hxs : 0 < xs.size) (breadth : Rat) :
    (xs.getD (rightmost xs) 0 - xs.getD (leftmost xs) 0 + 2 * margin s xs) * scale s xs breadth =
      breadth := by
  have hspan : 0 < xs.getD (rightmost xs) 0 - xs.getD (leftmost xs) 0 + 2 * margin s xs := by
    have := margin_pos s xs
    have := leftmost_le (rightmost_lt hxs)
    linarith
  have hscale : scale s xs breadth =
      breadth / (xs.getD (rightmost xs) 0 - xs.getD (leftmost xs) 0 + 2 * margin s xs) := by
    rw [scale_eq, inset, Scalar.zero_eq]
    congr 1
    ring
  rw [hscale, mul_div_cancel₀ _ (ne_of_gt hspan)]

variable {parents : List (Option Nat)}

/-- All nodes leave some room free at both ends of the breadth, and the outermost ones leave no
more. -/
theorem tidyTree_breadth (h : IsPreorder parents) (hb : 0 < breadth) (extent : Rat) (levels : Nat) :
    let points := tidyTree parents breadth extent levels
    ∃ room : Rat, 0 < room ∧ (∀ a ∈ points, room ≤ a.x ∧ a.x ≤ breadth - room) ∧
      (∃ a ∈ points, a.x = room) ∧ ∃ b ∈ points, b.x = breadth - room := by
  intro points
  let s := Shape.ofParents parents
  let xs : Array Rat := unitPlaces s
  have hn : s.count = parents.length := (Shape.ofParents_built h).count
  have hsize : xs.size = s.count := unitPlaces_size s
  have hxs : 0 < xs.size := by
    rw [hsize, hn]
    exact (List.getElem?_eq_some_iff.mp h.root).1
  have hscale : 0 < scale s xs breadth := scale_pos hxs hb
  have hspan := span_mul_scale s hxs breadth
  have hinset : inset s xs = margin s xs - xs.getD (leftmost xs) 0 := by rw [inset, Scalar.zero_eq]
  -- where a node stands, measured from the leftmost one
  have hx {v : Nat} (hv : v < xs.size) : ∃ a, points[v]? = some a ∧
      a.x = (xs.getD v 0 - xs.getD (leftmost xs) 0 + margin s xs) * scale s xs breadth := by
    obtain ⟨a, ha, hax⟩ := tidyTree_getElem? (hsize ▸ hv) breadth extent levels
    refine ⟨a, ha, hax.trans ?_⟩
    rw [hinset]
    ring
  refine ⟨margin s xs * scale s xs breadth, mul_pos (margin_pos s xs) hscale,
    fun a ha => ?_, ?_, ?_⟩
  · obtain ⟨v, hv⟩ := List.getElem?_of_mem ha
    have hvn : v < xs.size := by
      have hlt := (List.getElem?_eq_some_iff.mp hv).1
      rwa [← List.length_map (f := (·.x)),
        tidyTree_x (List.ne_nil_of_length_pos (hn ▸ hsize ▸ hxs)), List.length_map,
          Array.length_toList] at hlt
    obtain ⟨a', ha', hax⟩ := hx hvn
    cases hv.symm.trans ha'
    have hleft := leftmost_le hvn
    have hright := le_rightmost hvn
    rw [hax]
    constructor
    · exact mul_le_mul_of_nonneg_right (by linarith) (le_of_lt hscale)
    · rw [le_sub_iff_add_le, ← add_mul]
      refine le_trans (mul_le_mul_of_nonneg_right ?_ (le_of_lt hscale)) (le_of_eq hspan)
      linarith
  · obtain ⟨a, ha, hax⟩ := hx (leftmost_lt hxs)
    refine ⟨a, List.mem_of_getElem? ha, hax.trans ?_⟩
    ring
  · obtain ⟨b, hb, hbx⟩ := hx (rightmost_lt hxs)
    refine ⟨b, List.mem_of_getElem? hb, hbx.trans ?_⟩
    linarith

end Breadth

section Depth

variable {parents : List (Option Nat)} {v d : Nat}

theorem AtDepth.depth_eq (h : IsPreorder parents) (hv : AtDepth parents v d) :
    (Shape.ofParents parents).depth v = d := by
  have hs := Shape.ofParents_sound h
  have hcount : 0 < (Shape.ofParents parents).count := by
    rw [(Shape.ofParents_built h).count]
    exact (List.getElem?_eq_some_iff.mp h.root).1
  have hroot : 0 ∈ (Shape.ofParents parents).children (Shape.ofParents parents).count := by
    rw [hs.children_top hcount]
    exact List.mem_singleton_self 0
  have hdepth := hs.depth_of_mem_level (hs.root_prefix hcount).subset hroot (hv.mem_level h)
  rwa [hs.depth_root, Nat.zero_add] at hdepth

/-- A node stands as many columns from the near end as there are levels above it. -/
theorem tidyTree_y (h : IsPreorder parents) (hv : AtDepth parents v d) (breadth extent : Rat)
    (levels : Nat) {a : Point Rat} (ha : (tidyTree parents breadth extent levels)[v]? = some a) :
    a.y = d * (extent / (levels + 1)) := by
  cases parents with
  | nil => cases ha
  | cons o parents =>
    simp only [tidyTree, List.getElem?_map, Option.map_eq_some_iff] at ha
    obtain ⟨u, hu, rfl⟩ := ha
    obtain rfl : v = u := by
      obtain ⟨hlt, hget⟩ := List.getElem?_eq_some_iff.mp hu
      rwa [List.getElem_range] at hget
    have hcount (n : Nat) : (Scalar.ofCount n : Rat) = n := rfl
    rw [hv.depth_eq h, hcount, hcount, Nat.cast_succ]

end Depth

end SourceAtlas.Layout
