import Mathlib.Tactic.IntervalCases
import SourceAtlas.Proofs.Layout.Preorder
import SourceAtlas.Proofs.Layout.Spacing

/-! # Levels of a tidy tree keep apart

The second pass adds to each node's displacement that of its parent, so that a node of a row is
moved by what it inherits in the row and by what moves the whole tree. The rows that the first walk
has set apart therefore stay apart, and so they do under the final stretch, whose factor is
positive. -/

namespace SourceAtlas.Layout

/-! ## The second pass -/

namespace Walk

section Inherit

variable {α : Type} [Scalar α] {s : Shape} {w w' : Walk α} {k u : Nat}

/-- `w'` comes from `w` by adding up the displacements of the first `k` nodes, the extra node above
the root being displaced by any amount. -/
structure Inherited (s : Shape) (w : Walk α) (k : Nat) (w' : Walk α) : Prop where
  fits : w'.Fits s.count
  prelim : ∀ u, w'.prelim u = w.prelim u
  modifier : ∀ {u}, u < k → w'.modifier u = w.modifier u + w'.modifier (s.parent u)
  modifier_later : ∀ {u}, k ≤ u → u < s.count → w'.modifier u = w.modifier u

theorem Inherited.start (hw : w.Fits s.count) (a : α) :
    Inherited s w 0 (w.setModifier s.count a) where
  fits := hw.congr sizes_setModifier
  prelim _ := rfl
  modifier hu := absurd hu (Nat.not_lt_zero _)
  modifier_later _ hu := congrArg Note.modifier (note_setModifier (Nat.ne_of_lt hu))

theorem Inherited.next (hs : s.Sound) (hk : k < s.count) (h : Inherited s w k w') :
    Inherited s w (k + 1) (inherit s w' k) := by
  have hnote {u : Nat} (hu : u ≠ k) : (inherit s w' k).modifier u = w'.modifier u :=
    congrArg Note.modifier (note_setModifier hu)
  -- the parent of an earlier node is one still earlier, or the extra node
  have hparent {u : Nat} (hu : u ≤ k) : s.parent u ≠ k := by
    by_cases hu0 : u = 0
    · rw [hu0, hs.parent_root]; omega
    · have := hs.parent_lt (by omega) hu0
      omega
  refine ⟨h.fits.congr sizes_setModifier, h.prelim, fun {u} hu => ?_, fun {u} hu hlt => ?_⟩
  · rw [hnote (hparent (Nat.le_of_lt_succ hu))]
    by_cases huk : u = k
    · rw [huk, inherit, modifier_setModifier h.fits (Nat.le_of_lt hk),
        h.modifier_later (Nat.le_refl k) hk]
    · rw [hnote huk, h.modifier (by omega)]
  · rw [hnote (by omega), h.modifier_later (by omega) hlt]

theorem foldl_inherit (hs : s.Sound) (h : Inherited s w 0 w') (hk : k ≤ s.count) :
    Inherited s w k ((List.range k).foldl (inherit s) w') := by
  induction k with
  | zero => exact h
  | succ k ih =>
    rw [List.range_succ, List.foldl_append]
    exact (ih (Nat.le_of_succ_le hk)).next hs hk

theorem run_inherited (hs : s.Sound) (hw : (firstWalk s : Walk α).Fits s.count) :
    Inherited s (firstWalk s) s.count (run s : Walk α) :=
  foldl_inherit hs (.start hw _) (Nat.le_refl _)

end Inherit

variable {s : Shape} {w w' : Walk Rat} {ℓ : Nat} {x : Nat × Rat}

/-- In the end a node is displaced by what it inherits in its row and by what moves the root. -/
theorem Inherited.modifier_row (hs : s.Sound) (hcount : 0 < s.count) (h : Inherited s w s.count w')
    (hx : x ∈ w.row s (fun _ => 0) ℓ [0]) :
    w'.modifier (s.parent x.1) = x.2 + w'.modifier s.count := by
  induction ℓ generalizing x with
  | zero =>
    obtain rfl : x = (0, 0) := List.mem_singleton.mp hx
    rw [hs.parent_root, zero_add]
  | succ ℓ ih =>
    obtain ⟨y, hy, hxy⟩ := List.mem_flatMap.mp hx
    obtain ⟨c, hc, rfl⟩ := List.mem_map.mp hxy
    have hlt : y.1 < s.count := hs.lt_count_of_mem_tree hcount (mem_level_of_mem_row hy)
    rw [hs.parent_child hc, h.modifier hlt, ih hy, handed]
    ring

/-- Rows that stand apart do so in the end. -/
theorem Inherited.apart (hs : s.Sound) (hcount : 0 < s.count) (h : Inherited s w s.count w')
    (hw : (w.places s (fun _ => 0) ℓ [0]).Pairwise s.Apart) :
    (s.level ℓ [0]).Pairwise fun u v => place s w' u + s.separation u v ≤ place s w' v := by
  have hplace (x : Nat × Rat) (hx : x ∈ w.row s (fun _ => 0) ℓ [0]) :
      place s w' x.1 = (w.spot x).2 + w'.modifier s.count := by
    rw [place, h.prelim, h.modifier_row hs hcount hx, spot, add_assoc]
  rw [← row_nodes (w := w) (D := fun _ => 0), List.pairwise_map]
  refine (List.pairwise_map.mp hw).imp_of_mem fun {x y} hx hy hxy => ?_
  rw [hplace x hx, hplace y hy]
  simp only [Shape.Apart, spot] at hxy ⊢
  linarith

end Walk

/-! ## Fitting the places into the breadth -/

section Fit

variable {s : Shape} {xs : Array Rat} {breadth : Rat} {u v ℓ : Nat}

/-- What is found is at least as good as every entry. -/
theorem bestIndex_best {better : Rat → Rat → Bool} {r : Rat → Rat → Prop}
    (hbetter : ∀ {a b}, better a b = true → r a b) (hworse : ∀ {a b}, better a b ≠ true → r b a)
    (htrans : ∀ {a b c}, r a b → r b c → r a c) (hv : v < xs.size) :
    r (xs.getD (bestIndex better xs) 0) (xs.getD v 0) := by
  have hself (a : Rat) : r a a := (em (better a a = true)).elim hbetter hworse
  rw [bestIndex, Scalar.zero_eq]
  generalize xs.size = n at hv ⊢
  induction n with
  | zero => exact absurd hv (Nat.not_lt_zero v)
  | succ n ih =>
    rw [List.range_succ, List.foldl_append, List.foldl_cons, List.foldl_nil]
    split
    · next hn =>
      rcases Nat.lt_succ_iff_lt_or_eq.mp hv with hv | rfl
      · exact htrans (hbetter hn) (ih hv)
      · exact hself _
    · next hn =>
      rcases Nat.lt_succ_iff_lt_or_eq.mp hv with hv | rfl
      · exact ih hv
      · exact hworse hn

theorem leftmost_le (hv : v < xs.size) : xs.getD (leftmost xs) 0 ≤ xs.getD v 0 :=
  bestIndex_best (fun h => le_of_lt (Scalar.less_iff.mp h))
    (fun h => not_lt.mp (mt Scalar.less_iff.mpr h)) le_trans hv

theorem le_rightmost (hv : v < xs.size) : xs.getD v 0 ≤ xs.getD (rightmost xs) 0 :=
  bestIndex_best (r := fun a b => b ≤ a) (fun h => le_of_lt (Scalar.less_iff.mp h))
    (fun h => not_lt.mp (mt Scalar.less_iff.mpr h)) (fun h h' => le_trans h' h) hv

theorem margin_pos (s : Shape) (xs : Array Rat) : 0 < margin s xs := by
  have := s.one_le_separation (leftmost xs) (rightmost xs)
  rw [margin]
  split
  · norm_num
  · norm_num
    linarith

theorem scale_eq (s : Shape) (xs : Array Rat) (breadth : Rat) :
    scale s xs breadth = breadth / (xs.getD (rightmost xs) 0 + margin s xs + inset s xs) := by
  rw [scale, Scalar.zero_eq]

theorem scale_pos (hxs : 0 < xs.size) (hb : 0 < breadth) : 0 < scale s xs breadth := by
  have hleft := leftmost_le hxs
  have hright := le_rightmost hxs
  have hmargin := margin_pos s xs
  rw [scale_eq, inset, Scalar.zero_eq]
  exact div_pos hb (by linarith)

theorem unitPlaces_size (s : Shape) : (unitPlaces s : Array Rat).size = s.count := by
  simp [unitPlaces]

theorem unitPlaces_getD (hv : v < s.count) :
    (unitPlaces s).getD v 0 = Walk.place s (Walk.run s : Walk Rat) v := by
  simp [unitPlaces, hv]

theorem unitPlaces_toList (s : Shape) :
    (unitPlaces s : Array Rat).toList = (List.range s.count).map ((unitPlaces s).getD · 0) :=
  List.map_congr_left fun _ hv => (unitPlaces_getD (List.mem_range.mp hv)).symm

/-- Nodes of a level keep their separations before the places are fitted. -/
theorem unitPlaces_apart (hs : s.Sound) (hcount : 0 < s.count) (huv : u < v)
    (hu : u ∈ s.level ℓ [0]) (hv : v ∈ s.level ℓ [0]) :
    (unitPlaces s).getD u 0 + s.separation u v ≤ (unitPlaces s).getD v (0 : Rat) := by
  obtain ⟨hfits, hapart⟩ := Walk.firstWalk_apart hs hcount
  rw [unitPlaces_getD (hs.lt_count_of_mem_tree hcount hu),
    unitPlaces_getD (hs.lt_count_of_mem_tree hcount hv)]
  exact hs.rel_of_level (hs.root_prefix hcount)
    ((Walk.run_inherited hs hfits).apart hs hcount (hapart ℓ)) huv hu hv

variable {parents : List (Option Nat)}

/-- The places are moved to the margin and stretched. -/
theorem tidyTree_x (h : parents ≠ []) (breadth extent : Rat) (levels : Nat) :
    (tidyTree parents breadth extent levels).map (·.x) =
      (unitPlaces (Shape.ofParents parents)).toList.map fun x =>
        (x + inset (Shape.ofParents parents) (unitPlaces (Shape.ofParents parents))) *
          scale (Shape.ofParents parents) (unitPlaces (Shape.ofParents parents)) breadth := by
  cases parents with
  | nil => exact absurd rfl h
  | cons o parents =>
    rw [unitPlaces_toList, List.map_map]
    simp only [tidyTree, List.map_map, Scalar.zero_eq]
    rfl

theorem tidyTree_getElem? (hv : v < (Shape.ofParents parents).count) (breadth extent : Rat)
    (levels : Nat) :
    ∃ a, (tidyTree parents breadth extent levels)[v]? = some a ∧
      a.x = ((unitPlaces (Shape.ofParents parents)).getD v 0 +
        inset (Shape.ofParents parents) (unitPlaces (Shape.ofParents parents))) *
          scale (Shape.ofParents parents) (unitPlaces (Shape.ofParents parents)) breadth := by
  have hne : parents ≠ [] := by rintro rfl; exact Nat.not_lt_zero v hv
  have hx := congrArg (·[v]?) (tidyTree_x hne breadth extent levels)
  rw [unitPlaces_toList] at hx
  simp only [List.getElem?_map, List.getElem?_range hv, Option.map_some] at hx
  exact Option.map_eq_some_iff.mp hx

theorem IsPreorder.le_separation (h : IsPreorder parents) (hu : u < parents.length)
    (hv : v < parents.length) (huv : u < v) :
    (if parents[u]? = parents[v]? then 1 else 2) ≤
      ((Shape.ofParents parents).separation u v : Rat) := by
  split
  · exact Shape.one_le_separation ..
  · next hne =>
    have hs := Shape.ofParents_built h
    rw [Shape.separation, hs.parent hu, hs.parent hv, if_neg (mt (h.same_parent hu hv huv) hne)]
    norm_num

end Fit

/-- Nodes of one depth stand from left to right in the order of the list, siblings at least a unit
apart and others two. The unit is the factor that stretches the places to the breadth. -/
theorem tidyTree_levels_apart {parents : List (Option Nat)} (h : IsPreorder parents) {breadth : Rat}
    (hb : 0 < breadth) (extent : Rat) (levels : Nat) :
    let s := Shape.ofParents parents
    let xs : Array Rat := unitPlaces s
    let points := tidyTree parents breadth extent levels
    ∃ k : Rat, 0 < k ∧ k = breadth / (xs.getD (rightmost xs) 0 + margin s xs + inset s xs) ∧
      points.map (·.x) = xs.toList.map (fun x => (x + inset s xs) * k) ∧
      ∀ {u v d}, u < v → AtDepth parents u d → AtDepth parents v d →
        ∃ a b, points[u]? = some a ∧ points[v]? = some b ∧ a.x < b.x ∧
          (if parents[u]? = parents[v]? then k else 2 * k) ≤ b.x - a.x := by
  intro s xs points
  have hs : s.Sound := Shape.ofParents_sound h
  have hn : s.count = parents.length := (Shape.ofParents_built h).count
  have hcount : 0 < s.count := hn ▸ (List.getElem?_eq_some_iff.mp h.root).1
  have hk : 0 < scale s xs breadth := scale_pos (unitPlaces_size s ▸ hcount) hb
  refine ⟨_, hk, scale_eq s xs breadth, ?_, fun {u v d} huv hu hv => ?_⟩
  · exact tidyTree_x (List.ne_nil_of_length_pos (hn ▸ hcount)) ..
  have hun := hs.lt_count_of_mem_tree hcount (hu.mem_level h)
  have hvn := hs.lt_count_of_mem_tree hcount (hv.mem_level h)
  obtain ⟨a, ha, hax⟩ := tidyTree_getElem? hun breadth extent levels
  obtain ⟨b, hb, hbx⟩ := tidyTree_getElem? hvn breadth extent levels
  have hunit := h.le_separation (hn ▸ hun) (hn ▸ hvn) huv
  have happart := unitPlaces_apart hs hcount huv (hu.mem_level h) (hv.mem_level h)
  have hgap : (if parents[u]? = parents[v]? then scale s xs breadth else 2 * scale s xs breadth) ≤
      b.x - a.x := by
    calc
      _ = (if parents[u]? = parents[v]? then 1 else 2) * scale s xs breadth := by split <;> ring
      _ ≤ (xs.getD v 0 - xs.getD u 0) * scale s xs breadth :=
        mul_le_mul_of_nonneg_right (by linarith) (le_of_lt hk)
      _ = b.x - a.x := by rw [hax, hbx]; ring
  refine ⟨a, b, ha, hb, ?_, hgap⟩
  split at hgap <;> linarith

/-- Two subtrees that conflict below their roots: the cousins `3` and `5` are set two units
apart. -/
theorem tidyTree_cousins_apart :
    let parents := [none, some 0, some 1, some 1, some 0, some 4, some 4]
    let points : List (Point Rat) := tidyTree parents 60 100 2
    IsPreorder parents ∧ AtDepth parents 3 2 ∧ AtDepth parents 5 2 ∧
      ∃ a b, points[3]? = some a ∧ points[5]? = some b ∧ a.x < b.x ∧ 2 * 10 ≤ b.x - a.x := by
  intro parents points
  have hpre : IsPreorder parents := by
    refine ⟨rfl, fun {i} hi => ?_⟩
    have hi : i < 6 := Nat.lt_of_succ_lt_succ hi
    interval_cases i
    · exact ⟨0, rfl, .self⟩
    · exact ⟨1, rfl, .self⟩
    · exact ⟨1, rfl, .up rfl .self⟩
    · exact ⟨0, rfl, .up rfl (.up rfl .self)⟩
    · exact ⟨4, rfl, .self⟩
    · exact ⟨4, rfl, .up rfl .self⟩
  have hu : AtDepth parents 3 2 := .child rfl (.child rfl (.root rfl))
  have hv : AtDepth parents 5 2 := .child rfl (.child rfl (.root rfl))
  obtain ⟨k, hk, hunit, -, happart⟩ :=
    tidyTree_levels_apart hpre (by norm_num : (0 : Rat) < 60) 100 2
  obtain rfl : k = 10 := hunit.trans (by decide +kernel)
  exact ⟨hpre, hu, hv, happart (by decide) hu hv⟩

example : (tidyTree [none, some 0, some 1, some 1, some 0, some 4, some 4] 60 100 2).map (·.x) =
    ([30, 15, 10, 20, 45, 40, 50] : List Rat) := by
  decide +kernel

end SourceAtlas.Layout
