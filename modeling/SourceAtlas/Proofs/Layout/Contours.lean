import SourceAtlas.Proofs.Layout.Notes

/-! # Contours and threads

What the walk does to the links between nodes, whatever the numbers are. A forest is `Outlined` when
following its contours gives the ends of its levels. `clear` goes down the contours of a forest and
of the tree to its right level by level, and what one level keeps (`KeptByLevels`) holds where it
stops (`clear_rule`); the end of the shorter contour is then hooked to the longer one (`Joins`), so
that the two are outlined as one forest again, and the sibling charged for a conflict is the last
one that reaches the level of the conflict. -/

namespace SourceAtlas.Layout

/-- `a` is the last of the siblings whose subtree reaches level `ℓ`. -/
def Shape.LastReaching (s : Shape) (cs : List Nat) (ℓ a : Nat) : Prop :=
  ∃ as bs, cs = as ++ a :: bs ∧ s.level ℓ [a] ≠ [] ∧ s.level ℓ bs = []

namespace Shape

variable {s : Shape} {ℓ j p u v x : Nat} {cs as bs : List Nat}

theorem LastReaching.mem {a : Nat} (h : s.LastReaching cs ℓ a) : a ∈ cs := by
  obtain ⟨as, bs, rfl, -⟩ := h
  exact List.mem_append_right as (List.mem_cons_self ..)

theorem LastReaching.append_of_empty {a : Nat} (h : s.LastReaching cs ℓ a)
    (hbs : s.level ℓ bs = []) :
    s.LastReaching (cs ++ bs) ℓ a := by
  obtain ⟨as, ds, rfl, ha, hds⟩ := h
  exact ⟨as, ds ++ bs, by simp, ha, by rw [level_append, hds, hbs]; rfl⟩

theorem lastReaching_last (cs : List Nat) (hv : s.level ℓ [v] ≠ []) :
    s.LastReaching (cs ++ [v]) ℓ v :=
  ⟨cs, [], rfl, hv, generation_nil ..⟩

theorem within_of_head? (h : (s.level ℓ cs).head? = some u) : s.Within cs u :=
  ⟨ℓ, List.mem_of_head? h⟩

theorem within_of_getLast? (h : (s.level ℓ cs).getLast? = some u) : s.Within cs u :=
  ⟨ℓ, List.mem_of_getLast? h⟩

theorem level_ne_nil (h : s.level ℓ cs ≠ []) (hj : j ≤ ℓ) : s.level j cs ≠ [] :=
  fun hnil => h (level_eq_nil hnil hj)

theorem level_eq_nil_iff (h : s.level ℓ cs ≠ []) (hnil : s.level (ℓ + 1) cs = []) :
    s.level j cs = [] ↔ ℓ < j :=
  ⟨fun hj => Nat.lt_of_not_le fun hle => h (level_eq_nil hj hle), level_eq_nil hnil⟩

theorem level_eq_nil_of_longer (h : s.level ℓ as ≠ []) (hnil : s.level (ℓ + 1) bs = [])
    (hj : s.level j as = []) : s.level j bs = [] :=
  level_eq_nil hnil (Nat.lt_of_not_le fun hle => h (level_eq_nil hj hle))

theorem children_eq_nil (hnil : s.level (ℓ + 1) cs = []) (hu : u ∈ s.level ℓ cs) :
    s.children u = [] :=
  List.flatMap_eq_nil_iff.mp hnil u hu

/-- No child of `p` stands below another one. -/
theorem Sound.parent_ne_of_within (hs : s.Sound) (hv : v ∈ s.children p)
    (hx : s.Within (s.children v) x) : s.parent x ≠ p := by
  obtain ⟨ℓ, hx⟩ := hx
  rw [← level_tree] at hx
  rintro rfl
  exact hs.not_within_children _ (within_mono (by simpa using hv) ⟨ℓ, hs.parent_within hx⟩)

end Shape

/-! ## Ends of levels -/

section Ends

variable {β : Type} {s : Shape} {node : β → Nat} {a b : Nat → Option β} {f g : β → Option β} {o : β}
  {ℓ p : Nat} {cs as bs : List Nat} {R : Nat → List β}

/-- `b` are ends of the levels of a forest; `node` says which nodes they are. -/
structure Shape.EndsOf (s : Shape) (node : β → Nat) (cs : List Nat) (b : Nat → Option β) :
    Prop where
  none_iff : ∀ {j}, b j = none ↔ s.level j cs = []
  mem : ∀ {j x}, b j = some x → node x ∈ s.level j cs

theorem Shape.endsOf_head? (h : ∀ j, (R j).map node = s.level j cs) :
    s.EndsOf node cs fun j => (R j).head? where
  none_iff {j} := by rw [← h, List.map_eq_nil_iff, List.head?_eq_none_iff]
  mem {j x} hx := h j ▸ List.mem_map_of_mem (List.mem_of_head? hx)

theorem Shape.endsOf_getLast? (h : ∀ j, (R j).map node = s.level j cs) :
    s.EndsOf node cs fun j => (R j).getLast? where
  none_iff {j} := by rw [← h, List.map_eq_nil_iff, List.getLast?_eq_none_iff]
  mem {j x} hx := h j ▸ List.mem_map_of_mem (List.mem_of_getLast? hx)

theorem Shape.endsOf_level_head? (s : Shape) (cs : List Nat) :
    s.EndsOf id cs fun j => (s.level j cs).head? :=
  endsOf_head? fun _ => List.map_id _

theorem Shape.endsOf_level_getLast? (s : Shape) (cs : List Nat) :
    s.EndsOf id cs fun j => (s.level j cs).getLast? :=
  endsOf_getLast? fun _ => List.map_id _

variable (hb : s.EndsOf node as b) (ha : s.EndsOf node bs a)
  (hdisjoint : ∀ {u}, s.Within as u → ¬ s.Within bs u) (hf : Leads f b)
include hb ha hdisjoint hf

/-- The outer forest goes down as far as the other one, whose nodes alone have changed. -/
theorem Shape.EndsOf.join_long (hlong : s.level ℓ as ≠ []) (hstop : s.level (ℓ + 1) bs = [])
    (hg : ∀ {x}, ¬ s.Within bs (node x) → g x = f x) : Leads g fun j => (b j).or (a j) := by
  refine (hf.congr fun {j x} hx => hg (hdisjoint ⟨j, hb.mem hx⟩)).join_longer fun h => ?_
  exact ha.none_iff.mpr (Shape.level_eq_nil_of_longer hlong hstop (hb.none_iff.mp h))

/-- The outer forest stops at `o`, from where a step now leads to the other one. -/
theorem Shape.EndsOf.join_short (hs : s.Sound) (has : as ⊆ s.children p)
    (hstop : s.level (ℓ + 1) as = []) (ho : b ℓ = some o) (hnext : g o = a (ℓ + 1))
    (hf' : ∀ {j x}, ℓ ≤ j → a j = some x → f x = a (j + 1))
    (hg : ∀ {x}, node x ≠ node o → g x = f x) : Leads g fun j => (b j).or (a j) := by
  have hne : s.level ℓ as ≠ [] := List.ne_nil_of_mem (hb.mem ho)
  refine Leads.join_shorter (hb.none_iff.trans (Shape.level_eq_nil_iff hne hstop)).symm ho hnext
    (fun {j x} hj hx => (hg fun heq => ?_).trans (hf' (Nat.le_of_lt hj) hx))
    (fun {j x} hj hx => (hg fun heq => ?_).trans (hf hx))
  · exact hdisjoint ⟨ℓ, hb.mem ho⟩ (heq ▸ ⟨j, ha.mem hx⟩)
  · exact Nat.ne_of_lt hj (hs.level_unique has (hb.mem hx) (heq ▸ hb.mem ho))

end Ends

namespace Walk

variable {α : Type} {s : Shape} {w w₀ w' : Walk α} {cs : List Nat} {ℓ p u v fb : Nat}

theorem nextLeft_congr (h : w'.threads = w.threads) : w'.nextLeft s = w.nextLeft s := by
  funext u; rw [nextLeft, nextLeft, thread, thread, h]

theorem nextRight_congr (h : w'.threads = w.threads) : w'.nextRight s = w.nextRight s := by
  funext u; rw [nextRight, nextRight, thread, thread, h]

/-- The contours of a forest lead from one end of a level to the same end of the next level. -/
structure Outlined (s : Shape) (w : Walk α) (cs : List Nat) : Prop where
  left : Leads (w.nextLeft s) fun ℓ => (s.level ℓ cs).head?
  right : Leads (w.nextRight s) fun ℓ => (s.level ℓ cs).getLast?

namespace Outlined

theorem congr (h : w.Outlined s cs) (hw : ∀ u, s.Within cs u → w'.thread u = w.thread u) :
    w'.Outlined s cs := by
  constructor
  · exact h.left.congr fun hu => by rw [nextLeft, nextLeft, hw _ (Shape.within_of_head? hu)]
  · exact h.right.congr fun hu => by rw [nextRight, nextRight, hw _ (Shape.within_of_getLast? hu)]

theorem nil (s : Shape) (w : Walk α) : w.Outlined s [] := by
  constructor <;> (intro ℓ u hu; simp [Shape.level] at hu)

/-- The contours of a tree are those of its children's forest, below the root. -/
theorem tree (h : w.Outlined s (s.children v)) (hv : w.thread v = none) : w.Outlined s [v] := by
  constructor
  · refine Leads.of_succ (o := v) rfl ?_ (by simpa only [Shape.level_tree] using h.left)
    rw [nextLeft, hv, Shape.level_tree]
    cases s.children v <;> rfl
  · refine Leads.of_succ (o := v) rfl ?_ (by simpa only [Shape.level_tree] using h.right)
    rw [nextRight, hv, Shape.level_tree]
    cases s.children v <;> rfl

end Outlined

/-! ## Two forests side by side -/

/-- The siblings `cs` and the subtree at the next sibling `v` are ready to be set side by side: the
contours of both are known, and for a conflict at the right end of a level of the forest the last
subtree that reaches this level is charged. -/
structure Facing (s : Shape) (w : Walk α) (p : Nat) (cs : List Nat) (v fb : Nat) : Prop where
  siblings : cs ++ [v] <+: s.children p
  forest : w.Outlined s cs
  tree : w.Outlined s [v]
  charged : ∀ {ℓ r}, (s.level (ℓ + 1) cs).getLast? = some r →
    s.LastReaching cs (ℓ + 1) (w.charged s p fb r)

theorem Facing.mem_children (hf : w.Facing s p cs v fb) : v ∈ s.children p :=
  hf.siblings.subset (List.mem_append_right cs (List.mem_singleton_self v))

/-- The leftmost sibling is the first root of the forest. -/
theorem Facing.headD_eq (hs : s.Sound) (hf : w.Facing s p cs v fb) {first : Nat}
    (hfirst : cs.head? = some first) : (s.children (s.parent v)).headD v = first := by
  obtain ⟨rest, hrest⟩ := hf.siblings
  rw [hs.parent_child hf.mem_children, ← hrest, List.append_assoc, List.headD_eq_head?_getD,
    List.head?_append, hfirst]
  rfl

variable [Scalar α] {c : Contours α} {x y x' y' : Nat}

/-- How far `clear` has come when it stands at level `ℓ`. -/
structure Clearing (s : Shape) (w₀ : Walk α) (cs : List Nat) (v ℓ : Nat) (w : Walk α)
    (c : Contours α) : Prop where
  sizes : w.sizes = w₀.sizes
  threads : w.threads = w₀.threads
  fallbacks : w.fallbacks = w₀.fallbacks
  outside : ∀ {u}, ¬ s.Within (cs ++ [v]) u → w.note u = w₀.note u
  ancestor : ∀ u, w.ancestor u = w₀.ancestor u ∨ s.Within [v] u ∧ w.ancestor u = v
  charged : ∀ {j u}, 0 < j → j ≤ ℓ → (s.level j [v]).getLast? = some u → w.ancestor u = v
  innerLeft : (s.level ℓ cs).getLast? = some c.innerLeft
  innerRight : (s.level ℓ [v]).head? = some c.innerRight
  outerLeft : (s.level ℓ cs).head? = some c.outerLeft
  outerRight : (s.level ℓ [v]).getLast? = some c.outerRight

theorem clearing_atRoots (w₀ : Walk α) {first left : Nat} (hfirst : cs.head? = some first)
    (hleft : cs.getLast? = some left) : Clearing s w₀ cs v 0 w₀ (w₀.atRoots first left v) :=
  ⟨rfl, rfl, rfl, fun _ => rfl, fun _ => .inl rfl, fun hpos hj => by omega, hleft, rfl, hfirst, rfl⟩

/-- A level changes the node charged for the end of the right contour, and may move the subtree. -/
theorem clearLevel_fst (s : Shape) (v fb : Nat) (w : Walk α) (c : Contours α) (x y x' y' : Nat) :
    (clearLevel s v fb w c x y x' y').1 = w.setAncestor y' v ∨
      ∃ gap, (clearLevel s v fb w c x y x' y').1 = (w.setAncestor y' v).moveSubtree s
        ((w.setAncestor y' v).charged s (s.parent v) fb x) v gap := by
  rw [clearLevel]
  split
  · exact .inr ⟨_, rfl⟩
  · exact .inl rfl

section Clearing

variable (hs : s.Sound) (hw : w₀.Fits s.count) (hf : w₀.Facing s p cs v fb)
  (hc : Clearing s w₀ cs v ℓ w c)

include hs hf hc in
/-- The node charged for a conflict at the end of the forest's contour is not touched by `clear`. -/
theorem Clearing.charged_eq (hx : s.Within cs x) (hy : s.Within [v] y') :
    (w.setAncestor y' v).charged s (s.parent v) fb x = w₀.charged s p fb x := by
  have hv : ¬ s.Within [v] x := hs.not_within_both hf.siblings hx
  have hne : x ≠ y' := fun h => hv (h ▸ hy)
  have hsame : w.ancestor x = w₀.ancestor x := (hc.ancestor x).resolve_right fun h => hv h.1
  have hset : (w.setAncestor y' v).ancestor x = w.ancestor x :=
    congrArg Note.ancestor (note_setAncestor hne)
  rw [Walk.charged, hset, hsame, hs.parent_child hf.mem_children, Walk.charged]

include hs hw hf hc in
theorem Clearing.step (hx : (s.level (ℓ + 1) cs).getLast? = some x)
    (hy : (s.level (ℓ + 1) [v]).head? = some y) (hx' : (s.level (ℓ + 1) cs).head? = some x')
    (hy' : (s.level (ℓ + 1) [v]).getLast? = some y') :
    Clearing s w₀ cs v (ℓ + 1) (clearLevel s v fb w c x y x' y').1
      (clearLevel s v fb w c x y x' y').2 := by
  have hwithin : s.Within [v] y' := Shape.within_of_getLast? hy'
  have hcharged : (w.setAncestor y' v).charged s (s.parent v) fb x ∈ cs := by
    rw [hc.charged_eq hs hf (Shape.within_of_getLast? hx) hwithin]
    exact (hf.charged hx).mem
  have hfits : w.Fits s.count := hw.congr hc.sizes
  have hy'n : y' ≤ s.count :=
    Nat.le_of_lt (hs.lt_count_of_mem_level (List.append_subset.mp hf.siblings.subset).2
      (List.mem_of_getLast? hy'))
  -- What is known of the ancestors does not depend on whether the subtree is moved.
  have hself : (w.setAncestor y' v).ancestor y' = v := ancestor_setAncestor hfits hy'n
  have hother {u : Nat} (hu : u ≠ y') : (w.setAncestor y' v).ancestor u = w.ancestor u :=
    congrArg Note.ancestor (note_setAncestor hu)
  have hancestor (u : Nat) : (w.setAncestor y' v).ancestor u = w₀.ancestor u ∨
      s.Within [v] u ∧ (w.setAncestor y' v).ancestor u = v := by
    by_cases hu : u = y'
    · exact .inr ⟨hu ▸ hwithin, hu ▸ hself⟩
    · rw [hother hu]; exact hc.ancestor u
  have hdone {j u : Nat} (hpos : 0 < j) (hj : j ≤ ℓ + 1) (hu : (s.level j [v]).getLast? = some u) :
      (w.setAncestor y' v).ancestor u = v := by
    by_cases huy : u = y'
    · exact huy ▸ hself
    · rw [hother huy]
      refine hc.charged hpos (Nat.le_of_lt_succ (Nat.lt_of_le_of_ne hj ?_)) hu
      rintro rfl
      exact huy (Option.some.inj (hu.symm.trans hy'))
  have houtside {u : Nat} (hu : ¬ s.Within (cs ++ [v]) u) :
      (w.setAncestor y' v).note u = w₀.note u := by
    have hne : u ≠ y' := fun h => hu (Shape.within_append.mpr (.inr (h ▸ hwithin)))
    rw [note_setAncestor hne, hc.outside hu]
  rcases clearLevel_fst s v fb w c x y x' y' with h | ⟨gap, h⟩
  · rw [h]
    exact ⟨sizes_setAncestor.trans hc.sizes, hc.threads, hc.fallbacks, houtside, hancestor, hdone,
      hx, hy, hx', hy'⟩
  · rw [h]
    refine ⟨(sizes_moveSubtree.trans sizes_setAncestor).trans hc.sizes, hc.threads, hc.fallbacks,
      fun {u} hu => ?_, hancestor, hdone, hx, hy, hx', hy'⟩
    have hmem {a : Nat} (ha : a ∈ cs ++ [v]) : u ≠ a := fun h => hu (Shape.within_of_mem (h ▸ ha))
    rw [note_moveSubtree (hmem (List.mem_append_left [v] hcharged)) (hmem (by simp)), houtside hu]

/-! ### The next nodes of the contours -/

include hf hc in
theorem Clearing.next_innerLeft : w.nextRight s c.innerLeft = (s.level (ℓ + 1) cs).getLast? := by
  rw [nextRight_congr hc.threads, hf.forest.right hc.innerLeft]

include hf hc in
theorem Clearing.next_innerRight : w.nextLeft s c.innerRight = (s.level (ℓ + 1) [v]).head? := by
  rw [nextLeft_congr hc.threads, hf.tree.left hc.innerRight]

include hf hc in
theorem Clearing.next_outerLeft : w.nextLeft s c.outerLeft = (s.level (ℓ + 1) cs).head? := by
  rw [nextLeft_congr hc.threads, hf.forest.left hc.outerLeft]

include hf hc in
theorem Clearing.next_outerRight : w.nextRight s c.outerRight = (s.level (ℓ + 1) [v]).getLast? := by
  rw [nextRight_congr hc.threads, hf.tree.right hc.outerRight]

end Clearing

/-- `M` is kept by each level of `clear`. -/
def KeptByLevels (s : Shape) (w₀ : Walk α) (cs : List Nat) (v fb : Nat)
    (M : Nat → Walk α → Contours α → Prop) : Prop :=
  ∀ {ℓ w c x y x' y'}, Clearing s w₀ cs v ℓ w c → M ℓ w c →
    (s.level (ℓ + 1) cs).getLast? = some x → (s.level (ℓ + 1) [v]).head? = some y →
    (s.level (ℓ + 1) cs).head? = some x' → (s.level (ℓ + 1) [v]).getLast? = some y' →
    M (ℓ + 1) (clearLevel s v fb w c x y x' y').1 (clearLevel s v fb w c x y x' y').2

/-- The rule for `clear`: what each level preserves holds where an inner contour ends. -/
theorem clear_rule (hs : s.Sound) (hw : w₀.Fits s.count) (hf : w₀.Facing s p cs v fb)
    {M : Nat → Walk α → Contours α → Prop} (step : KeptByLevels s w₀ cs v fb M)
    (fuel : Nat) {w : Walk α} {c : Contours α} (hfuel : s.count < fuel + ℓ)
    (hc : Clearing s w₀ cs v ℓ w c) (hM : M ℓ w c) :
    ∃ ℓ' w' c', Clearing s w₀ cs v ℓ' w' c' ∧ M ℓ' w' c' ∧
      (s.level (ℓ' + 1) cs = [] ∨ s.level (ℓ' + 1) [v] = []) ∧
      clear s v fb fuel w c =
        (w', c', (s.level (ℓ' + 1) cs).getLast?, (s.level (ℓ' + 1) [v]).head?) := by
  induction fuel generalizing ℓ w c with
  | zero =>
    -- A level that far down has no nodes.
    have hmem := List.mem_of_getLast? hc.innerLeft
    have hsub := (List.append_subset.mp hf.siblings.subset).1
    have h1 := hs.level_le hsub hmem
    have h2 := hs.lt_count_of_mem_level hsub hmem
    omega
  | succ fuel ih =>
    rw [clear, hc.next_innerLeft hf, hc.next_innerRight hf, hc.next_outerLeft hf,
      hc.next_outerRight hf]
    cases hcs : s.level (ℓ + 1) cs with
    | nil => exact ⟨ℓ, w, c, hc, hM, .inl hcs, by rw [hcs]; rfl⟩
    | cons a as =>
      cases hv : s.level (ℓ + 1) [v] with
      | nil => exact ⟨ℓ, w, c, hc, hM, .inr hv, by rw [hcs, hv]; rfl⟩
      | cons b bs =>
        exact ih (by omega)
          (hc.step hs hw hf (by rw [hcs]; rfl) (by rw [hv]; rfl) (by rw [hcs]; rfl)
          (by rw [hv]; rfl))
          (step hc hM (by rw [hcs]; rfl) (by rw [hv]; rfl) (by rw [hcs]; rfl) (by rw [hv]; rfl))

/-! ## Joining the contours -/

/-- How the contours are joined below level `ℓ`, where `clear` has stopped: the end of the shorter
one is threaded to the longer one. The sibling charged by default changes if the new tree is the
deepest one. -/
inductive Joins (s : Shape) (w : Walk α) (c : Contours α) (cs : List Nat) (v fb ℓ : Nat) :
    Walk α × Nat → Prop
  | forest {next : Nat} (hcs : (s.level (ℓ + 1) cs).getLast? = some next)
      (hv : s.level (ℓ + 1) [v] = []) :
      Joins s w c cs v fb ℓ (w.hook c.outerRight next (c.sumInnerLeft - c.sumOuterRight), fb)
  | tree {next : Nat} (hcs : s.level (ℓ + 1) cs = [])
    (hv : (s.level (ℓ + 1) [v]).head? = some next) :
      Joins s w c cs v fb ℓ (w.hook c.outerLeft next (c.sumInnerRight - c.sumOuterLeft), v)
  | neither (hcs : s.level (ℓ + 1) cs = []) (hv : s.level (ℓ + 1) [v] = []) :
      Joins s w c cs v fb ℓ (w, fb)

theorem apportion_joins (hs : s.Sound) (hw : w₀.Fits s.count) (hf : w₀.Facing s p cs v fb)
    {first left : Nat} (hfirst : cs.head? = some first) (hleft : cs.getLast? = some left)
    {M : Nat → Walk α → Contours α → Prop} (start : M 0 w₀ (w₀.atRoots first left v))
    (step : KeptByLevels s w₀ cs v fb M) :
    ∃ ℓ w c, Clearing s w₀ cs v ℓ w c ∧ M ℓ w c ∧
      Joins s w c cs v fb ℓ (w₀.apportion s v left fb) := by
  obtain ⟨ℓ, w, c, hc, hM, hend, heq⟩ :=
    clear_rule hs hw hf step (s.count + 1) (by omega) (clearing_atRoots w₀ hfirst hleft) start
  have hleft := hc.next_outerLeft hf
  refine ⟨ℓ, w, c, hc, hM, ?_⟩
  rw [apportion, hf.headD_eq hs hfirst, heq]
  simp only [hc.next_outerRight hf]
  cases hcs : s.level (ℓ + 1) cs with
  | nil =>
    rw [hcs] at hleft
    cases hv : s.level (ℓ + 1) [v] with
    | nil => exact .neither hcs hv
    | cons b bs =>
      simp only [List.getLast?_nil, List.head?_cons, hleft, List.head?_nil]
      exact .tree hcs (by rw [hv]; rfl)
  | cons a as =>
    have hv : s.level (ℓ + 1) [v] = [] :=
      hend.resolve_left (by rw [hcs]; exact List.cons_ne_nil a as)
    simp only [hv, List.getLast?_nil, List.head?_nil]
    exact .forest (by rw [hcs]; rfl) hv

theorem nextLeft_hook_ne {o next : Nat} {a : α} (h : u ≠ o) :
    (w.hook o next a).nextLeft s u = w.nextLeft s u := by
  rw [nextLeft, nextLeft, show (w.hook o next a).thread u = w.thread u from
    congrArg Note.thread (note_hook h)]

theorem nextRight_hook_ne {o next : Nat} {a : α} (h : u ≠ o) :
    (w.hook o next a).nextRight s u = w.nextRight s u := by
  rw [nextRight, nextRight, show (w.hook o next a).thread u = w.thread u from
    congrArg Note.thread (note_hook h)]

theorem nextLeft_hook {o next : Nat} {a : α} (hw : w.Fits s.count) (ho : o ≤ s.count)
    (hleaf : s.children o = []) : (w.hook o next a).nextLeft s o = some next := by
  rw [nextLeft, thread_hook hw ho, hleaf]; rfl

theorem nextRight_hook {o next : Nat} {a : α} (hw : w.Fits s.count) (ho : o ≤ s.count)
    (hleaf : s.children o = []) : (w.hook o next a).nextRight s o = some next := by
  rw [nextRight, thread_hook hw ho, hleaf]; rfl

section Joins

variable {r : Walk α × Nat}

theorem Joins.ends (hj : Joins s w c cs v fb ℓ r) :
    s.level (ℓ + 1) cs = [] ∨ s.level (ℓ + 1) [v] = [] := by
  cases hj with
  | forest hcs hv => exact .inr hv
  | tree hcs hv => exact .inl hcs
  | neither hcs hv => exact .inl hcs

/-- Joining changes what is known of one node at most, a node of the two forests. -/
theorem Joins.note_eq (hc : Clearing s w₀ cs v ℓ w c) (hj : Joins s w c cs v fb ℓ r)
    (hu : ¬ s.Within (cs ++ [v]) u) : r.1.note u = w₀.note u := by
  rw [Shape.within_append, not_or] at hu
  cases hj with
  | forest hcs hv =>
    have hne : u ≠ c.outerRight := fun h => hu.2 (h ▸ Shape.within_of_getLast? hc.outerRight)
    rw [note_hook hne, hc.outside (Shape.within_append.not.mpr (not_or.mpr hu))]
  | tree hcs hv =>
    have hne : u ≠ c.outerLeft := fun h => hu.1 (h ▸ Shape.within_of_head? hc.outerLeft)
    rw [note_hook hne, hc.outside (Shape.within_append.not.mpr (not_or.mpr hu))]
  | neither hcs hv => exact hc.outside (Shape.within_append.not.mpr (not_or.mpr hu))

section Outlines

variable (hs : s.Sound) (hw : w.Fits s.count) (hsib : cs ++ [v] <+: s.children p)
  (hforest : w.Outlined s cs) (htree : w.Outlined s [v])
  (hleft : (s.level ℓ cs).head? = some c.outerLeft)
  (hright : (s.level ℓ [v]).getLast? = some c.outerRight)
include hs hw hsib hforest htree hleft hright

theorem Joins.left (hj : Joins s w c cs v fb ℓ r) :
    Leads (r.1.nextLeft s) fun ℓ => (s.level ℓ (cs ++ [v])).head? := by
  have hcs := s.endsOf_level_head? cs
  have hv := s.endsOf_level_head? [v]
  have hmem : c.outerLeft ∈ s.level ℓ cs := List.mem_of_head? hleft
  have hne : s.level ℓ cs ≠ [] := List.ne_nil_of_mem hmem
  simp only [Shape.level_append, List.head?_append]
  cases hj with
  | forest _ hstop =>
    refine hcs.join_long hv (hs.not_within_both hsib) hforest.left hne hstop fun hx => ?_
    exact nextLeft_hook_ne fun h => hx (h ▸ Shape.within_of_getLast? hright)
  | tree hstop hnext =>
    have hsub := (List.append_subset.mp hsib.subset).1
    have hle := Nat.le_of_lt (hs.lt_count_of_mem_level hsub hmem)
    have hleaf := Shape.children_eq_nil hstop hmem
    exact hcs.join_short hv (hs.not_within_both hsib) hforest.left hs hsub hstop hleft
      ((nextLeft_hook hw hle hleaf).trans hnext.symm) (fun _ hx => htree.left hx) nextLeft_hook_ne
  | neither _ hstop =>
    exact hcs.join_long hv (hs.not_within_both hsib) hforest.left hne hstop fun _ => rfl

theorem Joins.right (hj : Joins s w c cs v fb ℓ r) :
    Leads (r.1.nextRight s) fun ℓ => (s.level ℓ (cs ++ [v])).getLast? := by
  have hcs := s.endsOf_level_getLast? cs
  have hv := s.endsOf_level_getLast? [v]
  have hdisjoint {u : Nat} (hu : s.Within [v] u) : ¬ s.Within cs u :=
    fun h => hs.not_within_both hsib h hu
  have hmem : c.outerRight ∈ s.level ℓ [v] := List.mem_of_getLast? hright
  have hne : s.level ℓ [v] ≠ [] := List.ne_nil_of_mem hmem
  simp only [Shape.level_append, List.getLast?_append]
  cases hj with
  | forest hnext hstop =>
    have hsub := (List.append_subset.mp hsib.subset).2
    have hle := Nat.le_of_lt (hs.lt_count_of_mem_level hsub hmem)
    have hleaf := Shape.children_eq_nil hstop hmem
    exact hv.join_short hcs hdisjoint htree.right hs hsub hstop hright
      ((nextRight_hook hw hle hleaf).trans hnext.symm)
      (fun _ hx => hforest.right hx) nextRight_hook_ne
  | tree hstop _ =>
    refine hv.join_long hcs hdisjoint htree.right hne hstop fun hx => ?_
    exact nextRight_hook_ne fun h => hx (h ▸ Shape.within_of_head? hleft)
  | neither hstop _ => exact hv.join_long hcs hdisjoint htree.right hne hstop fun _ => rfl

end Outlines

theorem Joins.outlined (hs : s.Sound) (hw : w₀.Fits s.count) (hf : w₀.Facing s p cs v fb)
    (hc : Clearing s w₀ cs v ℓ w c) (hj : Joins s w c cs v fb ℓ r) :
    r.1.Outlined s (cs ++ [v]) := by
  have hfits : w.Fits s.count := hw.congr hc.sizes
  have hthread (u : Nat) : w.thread u = w₀.thread u := by rw [thread, thread, hc.threads]
  have hforest : w.Outlined s cs := hf.forest.congr fun u _ => hthread u
  have htree : w.Outlined s [v] := hf.tree.congr fun u _ => hthread u
  exact ⟨hj.left hs hfits hf.siblings hforest htree hc.outerLeft hc.outerRight,
    hj.right hs hfits hf.siblings hforest htree hc.outerLeft hc.outerRight⟩

theorem Joins.ancestor_eq (hj : Joins s w c cs v fb ℓ r) : r.1.ancestor = w.ancestor := by
  cases hj <;> rfl

theorem Joins.fallbacks_eq (hj : Joins s w c cs v fb ℓ r) : r.1.fallbacks = w.fallbacks := by
  cases hj <;> rfl

theorem Joins.shifts_eq (hj : Joins s w c cs v fb ℓ r) : r.1.shifts = w.shifts := by
  cases hj <;> rfl

theorem Joins.changes_eq (hj : Joins s w c cs v fb ℓ r) : r.1.changes = w.changes := by
  cases hj <;> rfl

theorem Joins.sizes_eq (hj : Joins s w c cs v fb ℓ r) : r.1.sizes = w.sizes := by
  cases hj <;> simp

/-- At a level that the new tree reaches, the new tree is charged. -/
theorem Joins.charged_tree (hs : s.Sound) (hf : w₀.Facing s p cs v fb)
    (hc : Clearing s w₀ cs v ℓ w c) (hj : Joins s w c cs v fb ℓ r)
    (hinside : ∀ {u}, s.Within (s.children v) u → s.Within (s.children v) (w₀.ancestor u))
    {j x : Nat} (hx : (s.level (j + 1) [v]).getLast? = some x) : r.1.charged s p r.2 x = v := by
  have hv := hf.mem_children
  rw [Walk.charged, hj.ancestor_eq]
  by_cases hj' : j + 1 ≤ ℓ
  · rw [hc.charged (Nat.succ_pos j) hj' hx, if_pos (hs.parent_child hv)]
  · -- Below the level where `clear` has stopped the new tree is alone.
    have hr : r.2 = v := by
      have hne : s.level (ℓ + 1) [v] ≠ [] :=
        Shape.level_ne_nil (List.ne_nil_of_mem (List.mem_of_getLast? hx)) (by omega)
      cases hj with
      | forest hcs hv => exact absurd hv hne
      | tree hcs hv => rfl
      | neither hcs hv => exact absurd hv hne
    rcases hc.ancestor x with h | ⟨-, h⟩
    · have hbelow : s.Within (s.children v) (w₀.ancestor x) :=
        hinside ⟨j, by rw [← Shape.level_tree]; exact List.mem_of_getLast? hx⟩
      rw [h, if_neg (hs.parent_ne_of_within hv hbelow), hr]
    · rw [h, if_pos (hs.parent_child hv)]

/-- At a level that the new tree does not reach, the same sibling is charged as before. -/
theorem Joins.charged_forest (hs : s.Sound) (hf : w₀.Facing s p cs v fb)
    (hc : Clearing s w₀ cs v ℓ w c) (hj : Joins s w c cs v fb ℓ r) {j x : Nat}
    (hnil : s.level j [v] = []) (hx : (s.level j cs).getLast? = some x) :
    r.1.charged s p r.2 x = w₀.charged s p fb x := by
  have hne : s.level j cs ≠ [] := List.ne_nil_of_mem (List.mem_of_getLast? hx)
  have hr : r.2 = fb := by
    cases hj with
    | forest hcs hv => rfl
    | tree hcs hv =>
      have hvne : s.level ℓ [v] ≠ [] := List.ne_nil_of_mem (List.mem_of_getLast? hc.outerRight)
      exact absurd (Shape.level_eq_nil_of_longer hvne hcs hnil) hne
    | neither hcs hv => rfl
  have hsame : w.ancestor x = w₀.ancestor x :=
    (hc.ancestor x).resolve_right fun h =>
      hs.not_within_both hf.siblings (Shape.within_of_getLast? hx) h.1
  rw [Walk.charged, hj.ancestor_eq, hsame, hr, Walk.charged]

theorem Joins.lastReaching (hs : s.Sound) (hf : w₀.Facing s p cs v fb)
    (hc : Clearing s w₀ cs v ℓ w c) (hj : Joins s w c cs v fb ℓ r)
    (hinside : ∀ {u}, s.Within (s.children v) u → s.Within (s.children v) (w₀.ancestor u))
    {j x : Nat} (hx : (s.level (j + 1) (cs ++ [v])).getLast? = some x) :
    s.LastReaching (cs ++ [v]) (j + 1) (r.1.charged s p r.2 x) := by
  rw [Shape.level_append, List.getLast?_append] at hx
  cases hv : s.level (j + 1) [v] with
  | nil =>
    rw [hv, List.getLast?_nil, Option.none_or] at hx
    rw [hj.charged_forest hs hf hc hv hx]
    exact (hf.charged hx).append_of_empty hv
  | cons b bs =>
    have hlast : (s.level (j + 1) [v]).getLast? = some x := by
      rw [hv] at hx ⊢
      rwa [Option.or_of_isSome (by rfl)] at hx
    rw [hj.charged_tree hs hf hc hinside hlast]
    exact Shape.lastReaching_last cs (by rw [hv]; exact List.cons_ne_nil b bs)

end Joins

end Walk

end SourceAtlas.Layout
