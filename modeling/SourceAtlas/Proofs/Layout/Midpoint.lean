import SourceAtlas.Proofs.Layout.TidyTree
import SourceAtlas.Proofs.Layout.Visits
import SourceAtlas.Proofs.Lists

/-! # Parents stand midway above their children

When a node with children is placed, its place less the displacement of its subtree (`Walk.anchor`)
is the middle between its first and its last child. Later displacements move place and subtree
alike, and threads, which reuse displacements, start only at nodes without children. So the relation
holds at every moment from then on, and the second pass and the final stretch carry it over to the
points. -/

namespace SourceAtlas.Layout

namespace Walk

/-! ## Anchors -/

section Anchor

variable {s : Shape} {w w' w₀ : Walk Rat} {c : Contours Rat} {n p u v fb ℓ l r : Nat} {a x y : Rat}
  {cs vs : List Nat}

/-- Where a node stands relative to the nodes below it. -/
def anchor (w : Walk Rat) (u : Nat) : Rat := w.prelim u - w.modifier u

theorem anchor_congr (h : w'.note u = w.note u) : w'.anchor u = w.anchor u := by
  have hprelim : w'.prelim u = w.prelim u := congrArg Note.prelim h
  have hmodifier : w'.modifier u = w.modifier u := congrArg Note.modifier h
  rw [anchor, hprelim, hmodifier, anchor]

/-- What displaces a node together with its subtree keeps its anchor. -/
theorem anchor_payShifts (hw : w.Fits n) (hvs : ∀ v ∈ vs, v ≤ n) :
    (w.payShifts x y vs).anchor u = w.anchor u := by
  induction vs generalizing w x y with
  | nil => rfl
  | cons v vs ih =>
    have hv : v ≤ n := hvs v List.mem_cons_self
    have hset : (w.setPrelim v (w.prelim v + x)).Fits n := hw.congr sizes_setPrelim
    rw [payShifts, ih (hset.congr sizes_setModifier) fun c hc => hvs c (List.mem_cons_of_mem v hc)]
    by_cases hu : u = v
    · have hprelim : ((w.setPrelim v (w.prelim v + x)).setModifier v
          (w.modifier v + x)).prelim v = w.prelim v + x := prelim_setPrelim hw hv
      rw [hu, anchor, modifier_setModifier hset hv, anchor]
      exact (congrArg (· - (w.modifier v + x)) hprelim).trans (by ring)
    · exact anchor_congr ((note_setModifier hu).trans (note_setPrelim hu))

theorem anchor_executeShifts (hs : s.Sound) (hw : w.Fits s.count) :
    (w.executeShifts s v).anchor u = w.anchor u := by
  unfold executeShifts
  refine anchor_payShifts hw ?_
  intro c hc
  exact Nat.le_of_lt (hs.child_lt_count (List.mem_reverse.mp hc))

theorem anchor_moveSubtree (hw : w.Fits n) (hr : r ≤ n) :
    (w.moveSubtree s l r a).anchor u = w.anchor u := by
  by_cases hu : u = r
  · rw [hu, anchor, prelim_moveSubtree hw hr, modifier_moveSubtree hw hr, anchor]
    ring
  · rw [anchor, prelim_moveSubtree_ne hu, modifier_moveSubtree_ne hu, anchor]

/-- Clearing a level keeps all anchors, and moves at most the root of the right tree. -/
theorem anchor_clearLevel (s : Shape) (fb : Nat) (c : Contours Rat) (hw : w.Fits n) (hv : v ≤ n)
    (x y x' y' : Nat) :
    (∀ u, (clearLevel s v fb w c x y x' y').1.anchor u = w.anchor u) ∧
      ∀ u, u ≠ v → (clearLevel s v fb w c x y x' y').1.prelim u = w.prelim u := by
  rcases clearLevel_fst s v fb w c x y x' y' with h | ⟨gap, h⟩
  · rw [h]
    exact ⟨fun _ => rfl, fun _ _ => rfl⟩
  · rw [h]
    constructor
    · intro u
      exact anchor_moveSubtree (hw.congr sizes_setAncestor) hv
    · intro u hu
      exact prelim_moveSubtree_ne hu

variable {j : Walk Rat × Nat}

/-- Joining changes what is known of a node without children at most: that is where threads
start. -/
theorem Joins.note_inner (hc : Clearing s w₀ cs v ℓ w c) (hj : Joins s w c cs v fb ℓ j)
    (hu : s.children u ≠ []) : j.1.note u = w.note u := by
  cases hj with
  | forest hcs hv =>
    refine note_hook ?_
    rintro rfl
    exact hu (Shape.children_eq_nil hv (List.mem_of_getLast? hc.outerRight))
  | tree hcs hv =>
    refine note_hook ?_
    rintro rfl
    exact hu (Shape.children_eq_nil hcs (List.mem_of_head? hc.outerLeft))
  | neither hcs hv => rfl

theorem Joins.prelim_eq (hj : Joins s w c cs v fb ℓ j) : j.1.prelim = w.prelim := by
  cases hj <;> rfl

/-- After the node has been placed, a visit moves it together with its subtree, and hooks threads to
nodes without children only. -/
theorem visit_inner (hs : s.Sound) (h : w.Due s p cs v) :
    (∀ u, s.children u ≠ [] → (visit s w v).anchor u = (w.placeNode s v).anchor u ∧
      (visit s w v).thread u = w.thread u) ∧
    ∀ u, u ≠ v → (visit s w v).prelim u = (w.placeNode s v).prelim u := by
  have hfits : (w.placeNode s v).Fits s.count := h.fits.congr (sameLinks_placeNode w s v).sizes
  have hv : v ≤ s.count := Nat.le_of_lt (hs.child_lt_count h.mem_children)
  let Kept (_ : Nat) (w' : Walk Rat) (_ : Contours Rat) : Prop :=
    (∀ u, w'.anchor u = (w.placeNode s v).anchor u) ∧
      ∀ u, u ≠ v → w'.prelim u = (w.placeNode s v).prelim u
  have hstart {first left : Nat} (_ : cs.head? = some first) (_ : cs.getLast? = some left) :
      Kept 0 (w.placeNode s v) ((w.placeNode s v).atRoots first left v) :=
    ⟨fun _ => rfl, fun _ _ => rfl⟩
  have hstep {fb : Nat} (_ : (w.placeNode s v).Facing s p cs v fb) :
      KeptByLevels s (w.placeNode s v) cs v fb Kept := by
    intro ℓ w' c x y x' y' hc hkept _ _ _ _
    obtain ⟨hanchor, hprelim⟩ :=
      anchor_clearLevel s fb c (hfits.congr hc.sizes) hv x y x' y'
    exact ⟨fun u => (hanchor u).trans (hkept.1 u), fun u hu => (hprelim u hu).trans (hkept.2 u hu)⟩
  rcases visit_cases hs h hstart hstep with
    ⟨-, hvisit⟩ | ⟨fb, ℓ, w', c, r, -, -, hc, ⟨hanchor, hprelim⟩, hj, hvisit⟩
  · rw [hvisit]
    exact ⟨fun u _ => ⟨rfl, thread_placeNode w s v u⟩, fun _ _ => rfl⟩
  · rw [hvisit]
    constructor
    · intro u hu
      have hnote := hj.note_inner hc hu
      have hthread : w'.thread u = (w.placeNode s v).thread u := by rw [thread, hc.threads, thread]
      exact ⟨(anchor_congr hnote).trans (hanchor u), (congrArg Note.thread hnote).trans
        (hthread.trans (thread_placeNode w s v u))⟩
    · intro u hu
      exact (congrFun hj.prelim_eq u).trans (hprelim u hu)

end Anchor

/-! ## The middle of the children -/

section Centred

variable {s : Shape} {w w' : Walk Rat} {p u v : Nat} {cs : List Nat}

/-- Relative to what is below it, a node with children stands halfway between its first and its last
child. -/
def Centred (s : Shape) (w : Walk Rat) (u : Nat) : Prop :=
  ∀ ⦃first last⦄, (s.children u).head? = some first → (s.children u).getLast? = some last →
    w.anchor u = (w.prelim first + w.prelim last) / 2

theorem Centred.congr (h : w.Centred s u) (hanchor : s.children u ≠ [] → w'.anchor u = w.anchor u)
    (hprelim : ∀ c ∈ s.children u, w'.prelim c = w.prelim c) : w'.Centred s u := by
  intro first last hfirst hlast
  have hne : s.children u ≠ [] := List.ne_nil_of_mem (List.mem_of_head? hfirst)
  rw [hanchor hne, hprelim first (List.mem_of_head? hfirst),
    hprelim last (List.mem_of_getLast? hlast)]
  exact h hfirst hlast

theorem placeNode_centred (hs : s.Sound) (h : w.Due s p cs v) : (w.placeNode s v).Centred s v := by
  intro first last hfirst hlast
  have hv : v ≤ s.count := Nat.le_of_lt (hs.child_lt_count h.mem_children)
  have hself : ¬ v ∈ s.children v := fun hv => hs.not_within_children v (Shape.within_of_mem hv)
  have hne {c : Nat} (hc : c ∈ s.children v) : c ≠ v := fun he => hself (he ▸ hc)
  have hfits : (w.executeShifts s v).Fits s.count :=
    h.fits.congr (sameLinks_executeShifts w s v).sizes
  have hchild {c : Nat} (hc : c ∈ s.children v) :
      (w.placeNode s v).prelim c = (w.executeShifts s v).prelim c :=
    congrArg Note.prelim (note_placeNode (hne hc))
  rw [hchild (List.mem_of_head? hfirst), hchild (List.mem_of_getLast? hlast), anchor]
  unfold placeNode
  simp only [hfirst, hlast]
  generalize hmiddle : ((w.executeShifts s v).prelim first + (w.executeShifts s v).prelim last) /
    (2.0 : Rat) = middle
  have htwo :
      ((w.executeShifts s v).prelim first + (w.executeShifts s v).prelim last) / 2 = middle := by
    rw [← hmiddle]
    norm_num
  rw [htwo]
  cases s.leftSibling? v with
  | none =>
    -- the subtree has not been displaced yet
    have hmodifier : ((w.executeShifts s v).setPrelim v middle).modifier v = 0 :=
      (congrArg Note.modifier ((note_executeShifts hself).trans h.note)).trans Scalar.zero_eq
    simp only [prelim_setPrelim hfits hv, hmodifier, sub_zero]
  | some left =>
    have hset := hfits.congr (sizes_setPrelim (v := v)
      (a := (w.executeShifts s v).prelim left + s.separation v left))
    simp only [modifier_setModifier hset hv]
    exact sub_sub_cancel _ _

/-- A visit centres its node above the children, and keeps the other nodes centred. Only the parent
of the node is left out, which has not been visited yet. -/
theorem visit_centred (hs : s.Sound) (h : w.Due s p cs v) (hp : u ≠ p)
    (hu : u = v ∨ w.Centred s u) : (visit s w v).Centred s u := by
  obtain ⟨hinner, hprelim⟩ := visit_inner hs h
  have hchild {c : Nat} (hc : c ∈ s.children u) : c ≠ v := by
    rintro rfl
    exact hp ((hs.parent_child hc).symm.trans (hs.parent_child h.mem_children))
  have hplace : (w.placeNode s v).Centred s u := by
    by_cases huv : u = v
    · rw [huv]
      exact placeNode_centred hs h
    · have hother {c : Nat} (hc : c ∈ s.children u) : c ∉ s.children v := fun hcv =>
        huv ((hs.parent_child hc).symm.trans (hs.parent_child hcv))
      refine (hu.resolve_left huv).congr (fun _ => ?_) fun c hc => ?_
      · exact (anchor_congr (note_placeNode huv)).trans (anchor_executeShifts hs h.fits)
      · exact congrArg Note.prelim
          ((note_placeNode (hchild hc)).trans (note_executeShifts (hother hc)))
  exact hplace.congr (fun hne => (hinner u hne).1) fun c hc => hprelim c (hchild hc)

/-- At every moment of the first walk the nodes visited so far are centred above their children, and
no thread starts at a node with children. -/
theorem visits_centred (hs : s.Sound) (hcount : 0 < s.count) {done rest : List Nat}
    (h : s.visits = done ++ rest) :
    let w : Walk Rat := done.foldl (visit s) (start s.count)
    (∀ u ∈ done, w.Centred s u) ∧ ∀ u, s.children u ≠ [] → w.thread u = none := by
  refine walk_rule (P := fun done w => (∀ u ∈ done, w.Centred s u) ∧
    ∀ u, s.children u ≠ [] → w.thread u = none) hs hcount ⟨by simp, ?_⟩ ?_ h
  · intro u _
    simp only [thread, start, Array.getD_eq_getD_getElem?, Array.getElem?_replicate]
    split <;> rfl
  · intro done w p cs v hdue hp hbefore
    obtain ⟨hcentred, hthread⟩ := hbefore
    constructor
    · intro u hu
      rw [List.mem_append, List.mem_singleton] at hu
      refine visit_centred hs hdue ?_ (hu.symm.imp_right (hcentred u))
      rintro rfl
      rcases hu with hu | hu
      · exact hp hu
      · exact hs.not_within_children u (Shape.within_of_mem (hu ▸ hdue.mem_children))
    · intro u hu
      exact ((visit_inner hs hdue).1 u hu).2.trans (hthread u hu)

/-- The second pass takes the middle of the children along. -/
theorem Inherited.place_centred (hs : s.Sound) (hu : u < s.count) (h : Inherited s w s.count w')
    (hw : w.Centred s u) {first last : Nat} (hfirst : (s.children u).head? = some first)
    (hlast : (s.children u).getLast? = some last) :
    place s w' u = (place s w' first + place s w' last) / 2 := by
  have hcentred := hw hfirst hlast
  rw [anchor] at hcentred
  rw [place, place, place, h.prelim, h.prelim, h.prelim, hs.parent_child (List.mem_of_head? hfirst),
    hs.parent_child (List.mem_of_getLast? hlast), h.modifier hu]
  linarith

end Centred

end Walk

/-! ## First and last children in a list of parents -/

section Children

variable {parents : List (Option Nat)} {v first last : Nat}

structure Outermost (parents : List (Option Nat)) (v first last : Nat) : Prop where
  left : parents[first]? = some (some v)
  right : parents[last]? = some (some v)
  between : ∀ {i}, parents[i]? = some (some v) → first ≤ i ∧ i ≤ last

theorem IsPreorder.exists_atDepth (h : IsPreorder parents) (hv : v < parents.length) :
    ∃ d, AtDepth parents v d := by
  induction v using Nat.strongRecOn with
  | _ v ih =>
    by_cases hv0 : v = 0
    · exact ⟨0, .root (hv0 ▸ h.root)⟩
    · have hlt := h.parentIn_lt hv hv0
      obtain ⟨d, hd⟩ := ih _ hlt (Nat.lt_trans hlt hv)
      exact ⟨d + 1, .child (h.parentIn_eq hv hv0) hd⟩

theorem IsPreorder.mem_children (h : IsPreorder parents) {i : Nat} (hv : v < parents.length) :
    i ∈ (Shape.ofParents parents).children v ↔ parents[i]? = some (some v) := by
  have hs := Shape.ofParents_built h
  rw [hs.children (Nat.le_of_lt hv), List.mem_filter, List.mem_range, decide_eq_true_iff]
  constructor
  · rintro ⟨hi, hparent⟩
    have hi0 : i ≠ 0 := by
      rintro rfl
      rw [h.parentIn_root] at hparent
      omega
    rw [h.parentIn_eq hi hi0, hparent]
  · intro hi
    refine ⟨(List.getElem?_eq_some_iff.mp hi).1, ?_⟩
    rw [parentIn, hi]
    rfl

theorem Outermost.children (h : IsPreorder parents) (hends : Outermost parents v first last) :
    ((Shape.ofParents parents).children v).head? = some first ∧
      ((Shape.ofParents parents).children v).getLast? = some last := by
  have hv : v < parents.length :=
    Nat.lt_trans (h.parent_lt hends.left) (List.getElem?_eq_some_iff.mp hends.left).1
  have hsorted := (Shape.ofParents_sound h).children_sorted v
  constructor
  · refine Lists.head?_eq_of_sorted hsorted ((h.mem_children hv).mpr hends.left) ?_
    intro i hi
    exact Nat.not_lt_of_le (hends.between ((h.mem_children hv).mp hi)).1
  · rw [← List.head?_reverse]
    refine Lists.head?_eq_of_sorted (List.pairwise_reverse.mpr hsorted)
      (List.mem_reverse.mpr ((h.mem_children hv).mpr hends.right)) ?_
    intro i hi
    exact Nat.not_lt_of_le (hends.between ((h.mem_children hv).mp (List.mem_reverse.mp hi))).2

end Children

/-- A node with children stands exactly halfway between its first and its last child. It does so,
less what displaces its subtree, from the moment of its visit on through all of the first walk, in
which threads are hung on nodes without children only. -/
theorem tidyTree_midway {parents : List (Option Nat)} (h : IsPreorder parents)
    (breadth extent : Rat) (levels : Nat) {v first last : Nat}
    (hends : Outermost parents v first last) :
    let s := Shape.ofParents parents
    let points := tidyTree parents breadth extent levels
    (∃ a b c, points[v]? = some a ∧ points[first]? = some b ∧ points[last]? = some c ∧
      a.x = (b.x + c.x) / 2) ∧
    v ∈ s.visits ∧
      Walk.firstWalk s = (s.visits.foldl (Walk.visit s) (Walk.start s.count) : Walk Rat) ∧
    ∀ done rest, s.visits = done ++ rest →
      let w : Walk Rat := done.foldl (Walk.visit s) (Walk.start s.count)
      w.thread v = none ∧
        (v ∈ done → w.prelim v - w.modifier v = (w.prelim first + w.prelim last) / 2) := by
  intro s points
  have hs : s.Sound := Shape.ofParents_sound h
  have hn : s.count = parents.length := (Shape.ofParents_built h).count
  have hcount : 0 < s.count := hn ▸ (List.getElem?_eq_some_iff.mp h.root).1
  have hfirst : first < s.count := hn ▸ (List.getElem?_eq_some_iff.mp hends.left).1
  have hlast : last < s.count := hn ▸ (List.getElem?_eq_some_iff.mp hends.right).1
  have hv : v < s.count := Nat.lt_trans (h.parent_lt hends.left) hfirst
  obtain ⟨hhead, htail⟩ := hends.children h
  have hne : s.children v ≠ [] := List.ne_nil_of_mem (List.mem_of_head? hhead)
  have hvisit : v ∈ s.visits := by
    obtain ⟨d, hd⟩ := h.exists_atDepth (hn ▸ hv)
    exact hs.mem_visits hcount (hd.mem_level h)
  refine ⟨?_, hvisit, rfl, fun done rest hdone => ?_⟩
  · have hcentred : (Walk.firstWalk s : Walk Rat).Centred s v :=
      (Walk.visits_centred hs hcount (List.append_nil s.visits).symm).1 v hvisit
    have hinherited := Walk.run_inherited hs (Walk.firstWalk_apart hs hcount).1
    have hplace := hinherited.place_centred hs hv hcentred hhead htail
    rw [← unitPlaces_getD hv, ← unitPlaces_getD hfirst, ← unitPlaces_getD hlast] at hplace
    obtain ⟨a, ha, hax⟩ := tidyTree_getElem? hv breadth extent levels
    obtain ⟨b, hb, hbx⟩ := tidyTree_getElem? hfirst breadth extent levels
    obtain ⟨c, hc, hcx⟩ := tidyTree_getElem? hlast breadth extent levels
    refine ⟨a, b, c, ha, hb, hc, ?_⟩
    rw [hax, hbx, hcx, hplace]
    ring
  · obtain ⟨hcentred, hthread⟩ := Walk.visits_centred hs hcount hdone
    exact ⟨hthread v hne, fun hmem => hcentred v hmem hhead htail⟩

/-- Node `5` is moved clear of node `3` after it has been placed above its own children. -/
theorem tidyTree_midway_moved :
    let parents := [none, some 0, some 1, some 1, some 0, some 0, some 5, some 5]
    let points : List (Point Rat) := tidyTree parents 60 100 2
    IsPreorder parents ∧ Outermost parents 5 6 7 ∧
      ∃ a b c, points[5]? = some a ∧ points[6]? = some b ∧ points[7]? = some c ∧
        a.x = (b.x + c.x) / 2 := by
  intro parents points
  have hpre : IsPreorder parents := by
    refine ⟨rfl, fun {i} hi => ?_⟩
    have hi : i < 7 := Nat.lt_of_succ_lt_succ hi
    interval_cases i
    · exact ⟨0, rfl, .self⟩
    · exact ⟨1, rfl, .self⟩
    · exact ⟨1, rfl, .up rfl .self⟩
    · exact ⟨0, rfl, .up rfl (.up rfl .self)⟩
    · exact ⟨0, rfl, .up rfl .self⟩
    · exact ⟨5, rfl, .self⟩
    · exact ⟨5, rfl, .up rfl .self⟩
  have hall : ∀ i < 8, parents[i]? = some (some 5) → 6 ≤ i ∧ i ≤ 7 := by decide
  have hends : Outermost parents 5 6 7 :=
    ⟨rfl, rfl, fun {i} hi => hall i (List.getElem?_eq_some_iff.mp hi).1 hi⟩
  exact ⟨hpre, hends, (tidyTree_midway hpre 60 100 2 hends).1⟩

end SourceAtlas.Layout
