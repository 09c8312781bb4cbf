import SourceAtlas.Proofs.Layout.Contours

/-! # The first walk

A visit places a node above its children and beside its left sibling, and joins its tree to theirs.
`Settled` says what holds of the first children of a node once they have been visited, whatever the
numbers are: their contours can be followed, and the sibling charged for a conflict is the last one
that reaches it. `foldl_visit_rule` takes this, and any further property that visits keep, through
the walk, children before parents. -/

namespace SourceAtlas.Layout

theorem Shape.Sound.leftSibling?_eq {s : Shape} {p v : Nat} {cs rest : List Nat} (hs : s.Sound)
    (hp : s.children p = cs ++ v :: rest) : s.leftSibling? v = cs.getLast? := by
  have hparent : s.parent v = p := hs.parent_child (by rw [hp]; simp)
  rw [leftSibling?, hs.number_eq hp, hparent, hp]
  rcases List.eq_nil_or_concat cs with rfl | ⟨ds, d, rfl⟩
  · rfl
  · simp

namespace Walk

variable {α : Type}

/-! ## Settled siblings -/

/-- The siblings `cs`, the first children of `p`, have been visited. -/
structure Settled (s : Shape) (w : Walk α) (p : Nat) (cs : List Nat) : Prop where
  outlined : w.Outlined s cs
  inside : ∀ {u}, s.Within cs u → s.Within cs (w.ancestor u)
  fallback : w.fallback p = none ↔ cs = []
  charged : ∀ {fb ℓ r}, w.fallback p = some fb → (s.level (ℓ + 1) cs).getLast? = some r →
    s.LastReaching cs (ℓ + 1) (w.charged s p fb r)

variable {s : Shape} {w w' : Walk α} {p u v : Nat} {cs rest : List Nat}

theorem Settled.congr (h : w.Settled s p cs) (hfallback : w'.fallback p = w.fallback p)
    (hthread : ∀ u, s.Within cs u → w'.thread u = w.thread u)
    (hancestor : ∀ u, s.Within cs u → w'.ancestor u = w.ancestor u) : w'.Settled s p cs where
  outlined := h.outlined.congr hthread
  inside hu := hancestor _ hu ▸ h.inside hu
  fallback := hfallback ▸ h.fallback
  charged hfb hr := by
    rw [Walk.charged, hancestor _ (Shape.within_of_getLast? hr)]
    exact h.charged (hfallback ▸ hfb) hr

theorem Settled.nil (hp : w.fallback p = none) : w.Settled s p [] where
  outlined := .nil s w
  inside hu := by obtain ⟨ℓ, hu⟩ := hu; simp [Shape.level] at hu
  fallback := iff_of_true hp rfl
  charged hfb := by rw [hp] at hfb; cases hfb

/-! ## Placing a node -/

/-- The two differ in places and displacements only. -/
structure SameLinks (w w' : Walk α) : Prop where
  sizes : w'.sizes = w.sizes
  threads : w'.threads = w.threads
  ancestors : w'.ancestors = w.ancestors
  fallbacks : w'.fallbacks = w.fallbacks
  changes : w'.changes = w.changes
  shifts : w'.shifts = w.shifts

theorem SameLinks.refl (w : Walk α) : w.SameLinks w := ⟨rfl, rfl, rfl, rfl, rfl, rfl⟩

theorem SameLinks.trans {w w' w'' : Walk α} (h : w.SameLinks w') (h' : w'.SameLinks w'') :
    w.SameLinks w'' :=
  ⟨h'.sizes.trans h.sizes, h'.threads.trans h.threads, h'.ancestors.trans h.ancestors,
    h'.fallbacks.trans h.fallbacks, h'.changes.trans h.changes, h'.shifts.trans h.shifts⟩

theorem sameLinks_setPrelim (w : Walk α) (v : Nat) (a : α) : w.SameLinks (w.setPrelim v a) :=
  ⟨sizes_setPrelim, rfl, rfl, rfl, rfl, rfl⟩

theorem sameLinks_setModifier (w : Walk α) (v : Nat) (a : α) : w.SameLinks (w.setModifier v a) :=
  ⟨sizes_setModifier, rfl, rfl, rfl, rfl, rfl⟩

variable [Scalar α]

theorem sameLinks_payShifts (w : Walk α) (x y : α) (vs : List Nat) :
    w.SameLinks (w.payShifts x y vs) := by
  induction vs generalizing w x y with
  | nil => exact .refl w
  | cons v vs ih =>
    rw [payShifts]
    exact ((sameLinks_setPrelim w v _).trans (sameLinks_setModifier _ v _)).trans (ih _ _ _)

theorem executeShifts_leaf (h : s.children v = []) : w.executeShifts s v = w := by
  rw [executeShifts, h]; rfl

theorem note_executeShifts (h : u ∉ s.children v) : (w.executeShifts s v).note u = w.note u :=
  note_payShifts (mt List.mem_reverse.mp h)

theorem sameLinks_executeShifts (w : Walk α) (s : Shape) (v : Nat) :
    w.SameLinks (w.executeShifts s v) :=
  sameLinks_payShifts ..

theorem sameLinks_placeNode (w : Walk α) (s : Shape) (v : Nat) : w.SameLinks (w.placeNode s v) := by
  rw [placeNode]
  split
  · have hpaid := sameLinks_executeShifts w s v
    split
    · exact (hpaid.trans (sameLinks_setPrelim ..)).trans (sameLinks_setModifier ..)
    · exact hpaid.trans (sameLinks_setPrelim ..)
  · exact sameLinks_setPrelim ..
  · exact .refl w

/-- Placing a node pays its children what they are owed, and then writes to the node alone. -/
theorem note_placeNode (hu : u ≠ v) : (w.placeNode s v).note u = (w.executeShifts s v).note u := by
  cases hch : s.children v with
  | nil =>
    rw [placeNode, hch, executeShifts_leaf hch]
    cases s.leftSibling? v with
    | none => rfl
    | some left => exact note_setPrelim hu
  | cons c cs =>
    rw [placeNode, hch]
    cases s.leftSibling? v with
    | none => exact note_setPrelim hu
    | some left => exact (note_setModifier hu).trans (note_setPrelim hu)

theorem prelim_placeNode {left : Nat} (hw : w.Fits s.count) (hv : v ≤ s.count)
    (hleft : s.leftSibling? v = some left) :
    (w.placeNode s v).prelim v = (w.executeShifts s v).prelim left + s.separation v left := by
  cases hch : s.children v with
  | nil =>
    rw [placeNode, hch, executeShifts_leaf hch, hleft]
    exact prelim_setPrelim hw hv
  | cons c cs =>
    have hpaid : (w.executeShifts s v).Fits s.count :=
      hw.congr (sameLinks_executeShifts w s v).sizes
    rw [placeNode, hch, hleft]
    generalize w.executeShifts s v = paid at hpaid ⊢
    exact prelim_setPrelim hpaid hv

theorem thread_placeNode (w : Walk α) (s : Shape) (v u : Nat) :
    (w.placeNode s v).thread u = w.thread u := by
  rw [thread, thread, (sameLinks_placeNode w s v).threads]

theorem ancestor_placeNode (w : Walk α) (s : Shape) (v u : Nat) :
    (w.placeNode s v).ancestor u = w.ancestor u := by
  rw [ancestor, ancestor, (sameLinks_placeNode w s v).ancestors]

/-! ## Visits -/

/-- Nothing has been noted of a node yet. -/
structure Fresh (w : Walk α) (v : Nat) : Prop where
  note : w.note v = ⟨v, 0.0, 0.0, 0.0, 0.0, none⟩
  fallback : w.fallback v = none

theorem start_fresh {n : Nat} (hv : v ≤ n) : (start n : Walk α).Fresh v := by
  have hlt := Nat.lt_succ_of_le hv
  constructor
  · simp [Walk.note, start, ancestor, prelim, modifier, change, shift, thread, hlt]
  · simp [Walk.fallback, start, hlt]

/-- `v` is the next child of `p` to be visited, and all below it has been visited. -/
structure Due (s : Shape) (w : Walk α) (p : Nat) (cs : List Nat) (v : Nat) : Prop where
  fits : w.Fits s.count
  siblings : ∃ rest, s.children p = cs ++ v :: rest
  forest : w.Settled s p cs
  below : w.Settled s v (s.children v)
  note : w.note v = ⟨v, 0.0, 0.0, 0.0, 0.0, none⟩

namespace Due

theorem mem_children (h : w.Due s p cs v) : v ∈ s.children p := by
  obtain ⟨rest, hrest⟩ := h.siblings
  rw [hrest]
  simp

theorem siblings' (h : w.Due s p cs v) : cs ++ [v] <+: s.children p := by
  obtain ⟨rest, hrest⟩ := h.siblings
  exact ⟨rest, by rw [hrest, List.append_assoc]; rfl⟩

theorem leftSibling?_eq (hs : s.Sound) (h : w.Due s p cs v) : s.leftSibling? v = cs.getLast? := by
  obtain ⟨rest, hrest⟩ := h.siblings
  exact hs.leftSibling?_eq hrest

theorem tree (h : w.Due s p cs v) : (w.placeNode s v).Outlined s [v] :=
  (h.below.outlined.congr fun u _ => thread_placeNode w s v u).tree
    ((thread_placeNode w s v v).trans (congrArg Note.thread h.note))

/-- Once the node is placed, its tree faces the forest of its siblings. -/
theorem facing {fb : Nat} (h : w.Due s p cs v) (hfb : w.fallback p = some fb) :
    (w.placeNode s v).Facing s p cs v fb where
  siblings := h.siblings'
  forest := h.forest.outlined.congr fun u _ => thread_placeNode w s v u
  tree := h.tree
  charged hr := by
    rw [charged, ancestor_placeNode]
    exact h.forest.charged hfb hr

theorem inside (h : w.Due s p cs v) (hu : s.Within [v] u) :
    s.Within [v] ((w.placeNode s v).ancestor u) := by
  rw [ancestor_placeNode]
  rcases Shape.within_tree.mp hu with rfl | hu
  · rw [show w.ancestor u = u from congrArg Note.ancestor h.note]
    exact hu
  · exact Shape.within_tree.mpr (.inr (h.below.inside hu))

end Due

theorem visit_first (hs : s.Sound) (h : w.Due s p [] v) :
    visit s w v = (w.placeNode s v).setFallback p v := by
  have hfallback : (w.placeNode s v).fallback p = none := by
    rw [fallback, (sameLinks_placeNode w s v).fallbacks]
    exact h.forest.fallback.mpr rfl
  obtain ⟨rest, hrest⟩ := h.siblings
  rw [visit, hs.parent_child h.mem_children, h.leftSibling?_eq hs, hfallback, hrest]
  rfl

theorem visit_next {left fb : Nat} (hs : s.Sound) (h : w.Due s p cs v)
    (hleft : cs.getLast? = some left) (hfb : w.fallback p = some fb) :
    visit s w v = ((w.placeNode s v).apportion s v left fb).1.setFallback p
      ((w.placeNode s v).apportion s v left fb).2 := by
  have hfallback : (w.placeNode s v).fallback p = some fb := by
    rw [fallback, (sameLinks_placeNode w s v).fallbacks]
    exact hfb
  rw [visit, hs.parent_child h.mem_children, h.leftSibling?_eq hs, hleft, hfallback]
  rfl

/-- Only what is known of the subtrees at `cs`, and the sibling charged by default below `p`, may
have changed. -/
structure ChangedWithin (s : Shape) (p : Nat) (cs : List Nat) (w w' : Walk α) : Prop where
  sizes : w'.sizes = w.sizes
  note : ∀ {u}, ¬ s.Within cs u → w'.note u = w.note u
  fallback : ∀ {q}, q ≠ p → ¬ s.Within cs q → w'.fallback q = w.fallback q

theorem placeNode_changedWithin (s : Shape) (p : Nat) (w : Walk α) :
    ChangedWithin s p [v] w (w.placeNode s v) := by
  have hlinks := sameLinks_placeNode w s v
  refine ⟨hlinks.sizes, fun {u} hu => ?_, fun _ _ => by rw [Walk.fallback, hlinks.fallbacks]; rfl⟩
  obtain ⟨hv, hbelow⟩ := not_or.mp (mt Shape.within_tree.mpr hu)
  rw [note_placeNode hv, note_executeShifts fun h => hbelow (Shape.within_of_mem h)]

theorem ChangedWithin.mono {ds : List Nat} (h : ChangedWithin s p cs w w')
    (hcs : ∀ {u}, s.Within cs u → s.Within ds u) : ChangedWithin s p ds w w' :=
  ⟨h.sizes, fun hu => h.note (mt hcs hu), fun hq hu => h.fallback hq (mt hcs hu)⟩

/-- What changes below a node changes within its tree. -/
theorem ChangedWithin.tree (h : ChangedWithin s v (s.children v) w w') :
    ChangedWithin s p [v] w w' := by
  refine ⟨h.sizes, fun hu => ?_, fun _ hq => ?_⟩
  · exact h.note (not_or.mp (mt Shape.within_tree.mpr hu)).2
  · obtain ⟨hne, hbelow⟩ := not_or.mp (mt Shape.within_tree.mpr hq)
    exact h.fallback hne hbelow

theorem ChangedWithin.trans {w'' : Walk α} (h : ChangedWithin s p cs w w')
    (h' : ChangedWithin s p cs w' w'') : ChangedWithin s p cs w w'' :=
  ⟨h'.sizes.trans h.sizes, fun hu => (h'.note hu).trans (h.note hu),
    fun hq hu => (h'.fallback hq hu).trans (h.fallback hq hu)⟩

theorem setFallback_changedWithin (s : Shape) (p : Nat) (cs : List Nat) (w : Walk α) (c : Nat) :
    ChangedWithin s p cs w (w.setFallback p c) :=
  ⟨sizes_setFallback, fun _ => rfl, fun hq _ => fallback_setFallback_ne hq⟩

theorem Joins.changedWithin {c : Contours α} {ℓ fb : Nat} {r : Walk α × Nat}
    (hc : Clearing s w cs v ℓ w' c) (hj : Joins s w' c cs v fb ℓ r) :
    ChangedWithin s p (cs ++ [v]) w r.1 where
  sizes := hj.sizes_eq.trans hc.sizes
  note := hj.note_eq hc
  fallback _ _ := by rw [Walk.fallback, hj.fallbacks_eq, hc.fallbacks]; rfl

theorem visit_first_settled (hs : s.Sound) (h : w.Due s p [] v) :
    (visit s w v).Settled s p [v] := by
  have hv := h.mem_children
  have hp : p ≤ s.count := hs.parent_le h.mem_children
  have hfits : (w.placeNode s v).Fits s.count := h.fits.congr (sameLinks_placeNode w s v).sizes
  have hfallback := fallback_setFallback (r := v) hfits hp
  rw [visit_first hs h]
  refine ⟨h.tree.congr fun _ _ => rfl, h.inside, ?_, fun {fb ℓ r} hfb hr => ?_⟩
  · rw [hfallback]
    exact iff_of_false (Option.some_ne_none v) (List.cons_ne_nil v [])
  · obtain rfl : v = fb := Option.some.inj (hfallback.symm.trans hfb)
    have hbelow : s.Within (s.children v) (w.ancestor r) :=
      h.below.inside ⟨ℓ, by rw [← Shape.level_tree]; exact List.mem_of_getLast? hr⟩
    have hcharged : ((w.placeNode s v).setFallback p v).charged s p v r = v :=
      if_neg (hs.parent_ne_of_within hv (ancestor_placeNode w s v r ▸ hbelow))
    rw [hcharged]
    exact Shape.lastReaching_last [] (List.ne_nil_of_mem (List.mem_of_getLast? hr))

theorem visit_next_settled {c : Contours α} {ℓ fb : Nat} {r : Walk α × Nat} (hs : s.Sound)
    (h : w.Due s p cs v) (hfb : w.fallback p = some fb)
    (hc : Clearing s (w.placeNode s v) cs v ℓ w' c) (hj : Joins s w' c cs v fb ℓ r) :
    (r.1.setFallback p r.2).Settled s p (cs ++ [v]) := by
  have hf := h.facing hfb
  have hfits : (w.placeNode s v).Fits s.count := h.fits.congr (sameLinks_placeNode w s v).sizes
  have hfallback := fallback_setFallback (r := r.2)
    (hfits.congr (hj.sizes_eq.trans hc.sizes)) (hs.parent_le h.mem_children)
  refine ⟨(hj.outlined hs hfits hf hc).congr fun _ _ => rfl, fun {u} hu => ?_, ?_,
    fun hfb' hx => ?_⟩
  · rw [show (r.1.setFallback p r.2).ancestor u = w'.ancestor u from congrFun hj.ancestor_eq u]
    rw [Shape.within_append] at hu ⊢
    rcases hc.ancestor u with heq | ⟨-, heq⟩
    · rw [heq]
      refine hu.imp (fun hu => ?_) h.inside
      rw [ancestor_placeNode]
      exact h.forest.inside hu
    · rw [heq]
      exact .inr (Shape.within_of_mem (List.mem_singleton_self v))
  · rw [hfallback]
    exact iff_of_false (Option.some_ne_none _) (by simp)
  · obtain rfl := Option.some.inj (hfallback.symm.trans hfb')
    refine hj.lastReaching hs hf hc (fun {u} hu => ?_) hx
    rw [ancestor_placeNode]
    exact h.below.inside hu

/-- What a visit does: the node is placed and, where it has siblings on its left, its contours are
followed down along theirs and joined to them. `M` is any property that the levels keep on the
way. -/
theorem visit_cases (hs : s.Sound) (h : w.Due s p cs v) {M : Nat → Walk α → Contours α → Prop}
    (start : ∀ {first left}, cs.head? = some first → cs.getLast? = some left →
      M 0 (w.placeNode s v) ((w.placeNode s v).atRoots first left v))
    (step : ∀ {fb}, (w.placeNode s v).Facing s p cs v fb →
      KeptByLevels s (w.placeNode s v) cs v fb M) :
    cs = [] ∧ visit s w v = (w.placeNode s v).setFallback p v ∨
      ∃ fb ℓ w' c r, cs ≠ [] ∧ w.fallback p = some fb ∧
        Clearing s (w.placeNode s v) cs v ℓ w' c ∧ M ℓ w' c ∧ Joins s w' c cs v fb ℓ r ∧
        visit s w v = r.1.setFallback p r.2 := by
  rcases List.eq_nil_or_concat' cs with rfl | ⟨ds, left, rfl⟩
  · exact .inl ⟨rfl, visit_first hs h⟩
  · have hne : ds ++ [left] ≠ [] := by simp
    have hleft : (ds ++ [left]).getLast? = some left := List.getLast?_concat ..
    obtain ⟨first, hfirst⟩ : ∃ first, (ds ++ [left]).head? = some first :=
      Option.isSome_iff_exists.mp (by simp)
    obtain ⟨fb, hfb⟩ : ∃ fb, w.fallback p = some fb :=
      Option.ne_none_iff_exists'.mp (h.forest.fallback.not.mpr hne)
    have hfits : (w.placeNode s v).Fits s.count := h.fits.congr (sameLinks_placeNode w s v).sizes
    obtain ⟨ℓ, w', c, hc, hM, hj⟩ := apportion_joins hs hfits (h.facing hfb) hfirst hleft
      (start hfirst hleft) (step (h.facing hfb))
    exact .inr ⟨fb, ℓ, w', c, _, hne, hfb, hc, hM, hj, visit_next hs h hleft hfb⟩

/-- A visit settles the node beside its siblings, and touches nothing outside their subtrees. -/
theorem visit_settled (hs : s.Sound) (h : w.Due s p cs v) :
    (visit s w v).Settled s p (cs ++ [v]) ∧ ChangedWithin s p (cs ++ [v]) w (visit s w v) := by
  have hplace : ChangedWithin s p (cs ++ [v]) w (w.placeNode s v) :=
    (placeNode_changedWithin s p w).mono fun hu => Shape.within_append.mpr (.inr hu)
  rcases visit_cases (M := fun _ _ _ => True) hs h (fun _ _ => trivial)
    (fun _ => fun _ _ _ _ _ _ => trivial) with
    ⟨rfl, hvisit⟩ | ⟨fb, ℓ, w', c, r, -, hfb, hc, -, hj, hvisit⟩
  · refine ⟨visit_first_settled hs h, ?_⟩
    rw [hvisit]
    exact hplace.trans (setFallback_changedWithin ..)
  · rw [hvisit]
    exact ⟨visit_next_settled hs h hfb hc hj,
      hplace.trans ((hj.changedWithin hc).trans (setFallback_changedWithin ..))⟩

/-! ## The whole walk -/

theorem ChangedWithin.settled {q : Nat} {ds : List Nat} (h : ChangedWithin s q ds w w')
    (hw : w.Settled s p cs) (hcs : ∀ {u}, s.Within cs u → ¬ s.Within ds u) (hq : p ≠ q)
    (hp : ¬ s.Within ds p) : w'.Settled s p cs :=
  hw.congr (h.fallback hq hp) (fun _ hu => congrArg Note.thread (h.note (hcs hu)))
    fun _ hu => congrArg Note.ancestor (h.note (hcs hu))

theorem ChangedWithin.fresh (h : ChangedWithin s p cs w w') (hw : w.Fresh u)
    (hu : ¬ s.Within cs u) (hp : u ≠ p) : w'.Fresh u :=
  ⟨(h.note hu).trans hw.note, (h.fallback hp hu).trans hw.fallback⟩

/-- The tree at the next sibling is still fresh when the siblings before it have been visited. -/
theorem ChangedWithin.fresh_next (hs : s.Sound) (hcs : cs ++ [v] <+: s.children p)
    (h : ChangedWithin s p cs w w') (hfresh : ∀ {u}, s.Within (cs ++ [v]) u → w.Fresh u)
    (hu : s.Within [v] u) : w'.Fresh u := by
  have hwithin : s.Within (cs ++ [v]) u := Shape.within_append.mpr (.inr hu)
  refine h.fresh (hfresh hwithin) (fun hucs => hs.not_within_both hcs hucs hu) ?_
  rintro rfl
  exact hs.not_within_children _ (Shape.within_mono hcs.subset hwithin)

/-- A node is due when the siblings before it have been visited, and then all below it. -/
theorem due_of_visited {w₁ w₂ : Walk α} (hs : s.Sound) (hcs : cs ++ [v] <+: s.children p)
    (hw : w.Fits s.count) (hfresh : ∀ {u}, s.Within (cs ++ [v]) u → w.Fresh u)
    (hsettled₁ : w₁.Settled s p cs) (hchanged₁ : ChangedWithin s p cs w w₁)
    (hsettled₂ : w₂.Settled s v (s.children v))
    (hchanged₂ : ChangedWithin s v (s.children v) w₁ w₂) :
    w₂.Due s p cs v := by
  have hbelow {u : Nat} (hu : s.Within (s.children v) u) : s.Within [v] u :=
    Shape.within_tree.mpr (.inr hu)
  have hself : s.Within [v] v := Shape.within_of_mem (List.mem_singleton_self v)
  have hp : ¬ s.Within [v] p := fun h => hs.not_within_children p
    (Shape.within_mono hcs.subset (Shape.within_append.mpr (.inr h)))
  have hforest {u : Nat} (hu : s.Within cs u) : ¬ s.Within (s.children v) u := fun h =>
    hs.not_within_both hcs hu (hbelow h)
  have hfresh₁ := hchanged₁.fresh_next hs hcs hfresh hself
  obtain ⟨rest, hrest⟩ := hcs
  exact ⟨(hw.congr hchanged₁.sizes).congr hchanged₂.sizes,
    ⟨rest, by rw [← hrest, List.append_assoc]; rfl⟩,
    hchanged₂.settled hsettled₁ hforest (fun h => hp (h ▸ hself)) fun h => hp (hbelow h), hsettled₂,
    (hchanged₂.note (hs.not_within_children v)).trans hfresh₁.note⟩

theorem fuel_below {c fuel : Nat} (hs : s.Sound) (hv : v < s.count) (hfuel : s.count < fuel + 1 + v)
    (hc : c ∈ s.children v) : s.count < fuel + c := by
  have := hs.lt_child hc hv
  omega

/-- The rule for the walk: what is kept by a visit, and does not depend on nodes elsewhere, holds of
the first children of every node once they are visited. -/
theorem foldl_visit_rule {Q : Walk α → Nat → List Nat → Prop} (hs : s.Sound)
    (nil : ∀ {w p}, Q w p [])
    (frame : ∀ {w w' p cs}, cs <+: s.children p → (∀ {u}, s.Within cs u → w'.note u = w.note u) →
      Q w p cs → Q w' p cs)
    (step : ∀ {w p cs v}, w.Due s p cs v → Q w p cs → Q w v (s.children v) →
      Q (visit s w v) p (cs ++ [v]))
    (fuel : Nat) {w : Walk α} (hcs : cs <+: s.children p) (hfuel : ∀ c ∈ cs, s.count < fuel + c)
    (hw : w.Fits s.count) (hfresh : ∀ {u}, s.Within cs u → w.Fresh u) (hp : w.fallback p = none)
    (hdone : w' = (cs.flatMap (s.postorder fuel)).foldl (visit s) w) :
    w'.Settled s p cs ∧ ChangedWithin s p cs w w' ∧ Q w' p cs := by
  induction fuel generalizing w w' p cs with
  | zero =>
    have hnil : cs = [] := List.eq_nil_iff_forall_not_mem.mpr fun c hc => by
      have := hfuel c hc
      have := hs.child_lt_count (hcs.subset hc)
      omega
    subst hnil hdone
    exact ⟨.nil hp, ⟨rfl, fun _ => rfl, fun _ _ => rfl⟩, nil⟩
  | succ fuel ih =>
    induction cs using List.reverseRecOn generalizing w' with
    | nil =>
      subst hdone
      exact ⟨.nil hp, ⟨rfl, fun _ => rfl, fun _ _ => rfl⟩, nil⟩
    | append_singleton cs v ihcs =>
      have hfront : cs <+: s.children p := (List.prefix_append cs [v]).trans hcs
      have hv : v ∈ s.children p :=
        hcs.subset (List.mem_append_right cs (List.mem_singleton_self v))
      have hbelow {u : Nat} (hu : s.Within (s.children v) u) : s.Within [v] u :=
        Shape.within_tree.mpr (.inr hu)
      -- First the earlier siblings, then what is below `v`, then `v`.
      obtain ⟨hsettled₁, hchanged₁, hQ₁⟩ := ihcs hfront
        (fun c hc => hfuel c (List.mem_append_left [v] hc))
        (fun hu => hfresh (Shape.within_append.mpr (.inl hu))) rfl
      have hfresh₁ {u : Nat} (hu : s.Within [v] u) := hchanged₁.fresh_next hs hcs hfresh hu
      obtain ⟨hsettled₂, hchanged₂, hQ₂⟩ := ih (List.prefix_refl (s.children v))
        (fun c hc => fuel_below hs (hs.child_lt_count hv)
          (hfuel v (List.mem_append_right cs (List.mem_singleton_self v))) hc)
        (hw.congr hchanged₁.sizes) (fun hu => hfresh₁ (hbelow hu))
        (hfresh₁ (Shape.within_of_mem (List.mem_singleton_self v))).fallback rfl
      rw [List.flatMap_append, List.foldl_append, List.flatMap_singleton, Shape.postorder,
        List.foldl_append] at hdone
      have hdue := due_of_visited hs hcs hw hfresh hsettled₁ hchanged₁ hsettled₂ hchanged₂
      obtain ⟨hsettled₃, hchanged₃⟩ := visit_settled hs hdue
      have hQ₃ := step hdue (frame hfront (fun hu => hchanged₂.note fun h =>
        hs.not_within_both hcs hu (hbelow h)) hQ₁) hQ₂
      rw [hdone]
      exact ⟨hsettled₃, (hchanged₁.mono fun hu => Shape.within_append.mpr (.inl hu)).trans
        ((hchanged₂.tree.mono fun hu => Shape.within_append.mpr (.inr hu)).trans hchanged₃), hQ₃⟩

/-- The rule for the first walk over a whole tree. -/
theorem firstWalk_rule {Q : Walk α → Nat → List Nat → Prop} (hs : s.Sound) (hcount : 0 < s.count)
    (nil : ∀ {w p}, Q w p [])
    (frame : ∀ {w w' p cs}, cs <+: s.children p → (∀ {u}, s.Within cs u → w'.note u = w.note u) →
      Q w p cs → Q w' p cs)
    (step : ∀ {w p cs v}, w.Due s p cs v → Q w p cs → Q w v (s.children v) →
      Q (visit s w v) p (cs ++ [v])) :
    (firstWalk s : Walk α).Fits s.count ∧ Q (firstWalk s) s.count [0] := by
  have hle {u : Nat} (hu : s.Within [0] u) : u ≤ s.count := by
    obtain ⟨j, hu⟩ := hu
    exact Nat.le_of_lt (hs.lt_count_of_mem_tree hcount hu)
  have hwalk : firstWalk s = ([0].flatMap (s.postorder (s.count + 1))).foldl (visit s)
      (start s.count : Walk α) := by
    rw [List.flatMap_singleton]; rfl
  obtain ⟨-, hchanged, hQ⟩ := foldl_visit_rule hs nil frame step (s.count + 1)
    (hs.root_prefix hcount) (fun c hc => by rw [List.mem_singleton.mp hc]; omega)
    (start_fits s.count) (fun hu => start_fresh (hle hu))
    (start_fresh (Nat.le_refl _)).fallback hwalk
  exact ⟨(start_fits s.count).congr hchanged.sizes, hQ⟩

end Walk

end SourceAtlas.Layout
