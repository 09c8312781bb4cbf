import SourceAtlas.Proofs.Layout.FirstWalk
import SourceAtlas.Proofs.Lists

/-! # Every visit of the first walk

The walk visits children before parents, each node once all below it and all its left siblings have
been visited. So every visit finds its node due, and what a due visit keeps holds at every moment of
the walk (`walk_rule`), not only when a whole forest has been visited. -/

namespace SourceAtlas.Layout

namespace Shape

variable {s : Shape} {ℓ p u v fuel : Nat} {cs : List Nat}

theorem exists_root_of_mem_level (h : u ∈ s.level ℓ cs) : ∃ c ∈ cs, u ∈ s.level ℓ [c] := by
  induction cs with
  | nil => simp [level] at h
  | cons c cs ih =>
    rw [← List.singleton_append, level_append, List.mem_append] at h
    rcases h with h | h
    · exact ⟨c, List.mem_cons_self, h⟩
    · obtain ⟨d, hd, h⟩ := ih h
      exact ⟨d, List.mem_cons_of_mem c hd, h⟩

/-- The walk reaches every node that is not too deep. -/
theorem mem_postorder (h : u ∈ s.level ℓ [v]) (hℓ : ℓ < fuel) : u ∈ s.postorder fuel v := by
  induction ℓ generalizing v fuel with
  | zero =>
    obtain ⟨fuel, rfl⟩ := Nat.exists_eq_succ_of_ne_zero (Nat.ne_zero_of_lt hℓ)
    rw [List.mem_singleton.mp h, postorder]
    simp
  | succ ℓ ih =>
    obtain ⟨fuel, rfl⟩ := Nat.exists_eq_succ_of_ne_zero (Nat.ne_zero_of_lt hℓ)
    rw [level_tree] at h
    obtain ⟨c, hc, h⟩ := exists_root_of_mem_level h
    rw [postorder, List.mem_append, List.mem_flatMap]
    exact .inl ⟨c, hc, ih h (Nat.lt_of_succ_lt_succ hℓ)⟩

theorem within_of_mem_postorder (h : u ∈ s.postorder fuel v) : s.Within [v] u := by
  induction fuel generalizing v with
  | zero => cases h
  | succ fuel ih =>
    rw [postorder, List.mem_append, List.mem_flatMap, List.mem_singleton] at h
    rw [within_tree]
    rcases h with ⟨c, hc, h⟩ | h
    · exact .inr (within_mono (by simpa using hc) (ih h))
    · exact .inl h

theorem within_of_mem_flatMap (h : u ∈ cs.flatMap (s.postorder fuel)) : s.Within cs u := by
  obtain ⟨c, hc, h⟩ := List.mem_flatMap.mp h
  exact within_mono (by simpa using hc) (within_of_mem_postorder h)

/-- A node is not visited before its children. -/
theorem Sound.postorder_parents (hs : s.Sound) (fuel : Nat) (hcs : cs <+: s.children p) :
    (cs.flatMap (s.postorder fuel)).Pairwise fun u v => s.parent v ≠ u := by
  induction fuel generalizing p cs with
  | zero =>
    have hnil : cs.flatMap (s.postorder 0) = [] := List.flatMap_eq_nil_iff.mpr fun _ _ => rfl
    rw [hnil]
    exact .nil
  | succ fuel ih =>
    induction cs using List.reverseRecOn with
    | nil => exact .nil
    | append_singleton cs v ihcs =>
      have hfront : cs <+: s.children p := (List.prefix_append cs [v]).trans hcs
      have hparent : s.parent v = p := hs.parent_child (hcs.subset (by simp))
      have hp {u : Nat} (hu : s.Within (cs ++ [v]) u) : p ≠ u := by
        rintro rfl
        exact hs.not_within_children _ (within_mono hcs.subset hu)
      rw [List.flatMap_append, List.flatMap_singleton, postorder]
      refine List.pairwise_append.mpr ⟨ihcs hfront, List.pairwise_append.mpr
        ⟨ih (List.prefix_refl _), List.pairwise_singleton .., ?_⟩, ?_⟩
      · intro a ha b hb
        rw [List.mem_singleton.mp hb, hparent]
        exact hp (within_append.mpr (.inr (within_tree.mpr (.inr (within_of_mem_flatMap ha)))))
      · intro a ha b hb
        have ha := within_of_mem_flatMap ha
        have hb : b ∈ s.postorder (fuel + 1) v := hb
        obtain ⟨ℓ | ℓ, hb⟩ := within_of_mem_postorder hb
        · rw [List.mem_singleton.mp hb, hparent]
          exact hp (within_append.mpr (.inl ha))
        · rintro rfl
          exact hs.not_within_both hcs ha ⟨ℓ, hs.parent_within hb⟩

def visits (s : Shape) : List Nat := s.postorder (s.count + 1) 0

theorem visits_eq (s : Shape) : s.visits = [0].flatMap (s.postorder (s.count + 1)) :=
  (List.flatMap_singleton ..).symm

theorem Sound.mem_visits (hs : s.Sound) (hcount : 0 < s.count) (h : u ∈ s.level ℓ [0]) :
    u ∈ s.visits := by
  have hle := hs.level_le (hs.root_prefix hcount).subset h
  have hlt := hs.lt_count_of_mem_tree hcount h
  exact mem_postorder h (by omega)

end Shape

namespace Walk

variable {α : Type} [Scalar α] {s : Shape} {w : Walk α} {p v : Nat} {cs done rest : List Nat}

/-- Every visit to the subtrees at the first children of a node finds its node due. -/
theorem foldl_visit_due (hs : s.Sound) (fuel : Nat) (hcs : cs <+: s.children p)
    (hfuel : ∀ c ∈ cs, s.count < fuel + c) (hw : w.Fits s.count)
    (hfresh : ∀ {u}, s.Within cs u → w.Fresh u) (hp : w.fallback p = none)
    (hsplit : cs.flatMap (s.postorder fuel) = done ++ v :: rest) :
    ∃ q ds, (done.foldl (visit s) w).Due s q ds v := by
  induction fuel generalizing w p cs done rest with
  | zero =>
    have hmem : v ∈ cs.flatMap (s.postorder 0) := by rw [hsplit]; simp
    obtain ⟨_, _, hv⟩ := List.mem_flatMap.mp hmem
    cases hv
  | succ fuel ih =>
    induction cs using List.reverseRecOn generalizing done rest with
    | nil => simp at hsplit
    | append_singleton cs x ihcs =>
      have hfront : cs <+: s.children p := (List.prefix_append cs [x]).trans hcs
      have hx : x ∈ s.children p :=
        hcs.subset (List.mem_append_right cs (List.mem_singleton_self x))
      have hfuel₁ (c : Nat) (hc : c ∈ cs) : s.count < fuel + 1 + c :=
        hfuel c (List.mem_append_left [x] hc)
      have hfresh₁ {u : Nat} (hu : s.Within cs u) : w.Fresh u :=
        hfresh (Shape.within_append.mpr (.inl hu))
      have hfuel₂ (c : Nat) (hc : c ∈ s.children x) : s.count < fuel + c :=
        fuel_below hs (hs.child_lt_count hx) (hfuel x (by simp)) hc
      rw [List.flatMap_append, List.flatMap_singleton, Shape.postorder] at hsplit
      rcases Lists.split_append hsplit with ⟨more, hmore⟩ | ⟨below, rfl, hbelow⟩
      · exact ihcs hfront hfuel₁ hfresh₁ hmore
      -- what happens below and at `x` starts with its left siblings visited
      obtain ⟨hsettled₁, hchanged₁, -⟩ := foldl_visit_rule (Q := fun _ _ _ => True) hs trivial
        (fun _ _ _ => trivial) (fun _ _ _ => trivial) (fuel + 1) hfront hfuel₁ hw hfresh₁ hp rfl
      have hx₁ {u : Nat} (hu : s.Within [x] u) := hchanged₁.fresh_next hs hcs hfresh hu
      have hbelow₁ {u : Nat} (hu : s.Within (s.children x) u) :=
        hx₁ (Shape.within_tree.mpr (.inr hu))
      have hx₁ := (hx₁ (Shape.within_of_mem (List.mem_singleton_self x))).fallback
      have hw₁ := hw.congr hchanged₁.sizes
      rw [List.foldl_append]
      rcases Lists.split_append hbelow with ⟨more, hmore⟩ | ⟨nothing, rfl, hnothing⟩
      · exact ih (List.prefix_refl _) hfuel₂ hw₁ hbelow₁ hx₁ hmore
      · obtain ⟨hsettled₂, hchanged₂, -⟩ := foldl_visit_rule (Q := fun _ _ _ => True) hs trivial
          (fun _ _ _ => trivial) (fun _ _ _ => trivial) fuel
          (List.prefix_refl (s.children x)) hfuel₂
          hw₁ hbelow₁ hx₁ rfl
        cases nothing with
        | nil =>
          obtain ⟨rfl, -⟩ : x = v ∧ rest = [] := by simpa using hnothing
          rw [List.append_nil]
          exact ⟨p, cs, due_of_visited hs hcs hw hfresh hsettled₁ hchanged₁ hsettled₂ hchanged₂⟩
        | cons y ys => simp at hnothing

theorem due_in_visits (hs : s.Sound) (hcount : 0 < s.count) (h : s.visits = done ++ v :: rest) :
    ∃ p cs, (done.foldl (visit s) (start s.count) : Walk α).Due s p cs v := by
  have hle {u : Nat} (hu : s.Within [0] u) : u ≤ s.count := by
    obtain ⟨j, hu⟩ := hu
    exact Nat.le_of_lt (hs.lt_count_of_mem_tree hcount hu)
  rw [Shape.visits_eq] at h
  refine foldl_visit_due hs (s.count + 1) (hs.root_prefix hcount) ?_ (start_fits s.count)
    (fun hu => start_fresh (hle hu)) (start_fresh (Nat.le_refl _)).fallback h
  intro c hc
  rw [List.mem_singleton.mp hc]
  omega

/-- The rule for the moments of the first walk: what every visit to a due node keeps, none of the
nodes visited before being its parent, holds after each beginning of the walk. -/
theorem walk_rule {P : List Nat → Walk α → Prop} (hs : s.Sound) (hcount : 0 < s.count)
    (start : P [] (start s.count))
    (step : ∀ {done w p cs v}, w.Due s p cs v → p ∉ done → P done w →
      P (done ++ [v]) (visit s w v))
    (h : s.visits = done ++ rest) : P done (done.foldl (visit s) (Walk.start s.count)) := by
  induction done using List.reverseRecOn generalizing rest with
  | nil => exact start
  | append_singleton done v ih =>
    rw [List.append_assoc, List.singleton_append] at h
    obtain ⟨p, cs, hdue⟩ := due_in_visits (α := α) hs hcount h
    rw [List.foldl_append]
    refine step hdue ?_ (ih h)
    intro hp
    have hparents := hs.postorder_parents (s.count + 1) (hs.root_prefix hcount)
    rw [← Shape.visits_eq, h] at hparents
    exact (List.pairwise_append.mp hparents).2.2 p hp v List.mem_cons_self
      (hs.parent_child hdue.mem_children)

end Walk

end SourceAtlas.Layout
