import SourceAtlas.Proofs.Layout.Notes

/-! # Trees given by parents in pre-order

`IsPreorder` says of a list of parents that its tree is numbered in pre-order, and `AtDepth` reads
the depth of a node off the list. The shape that is built from such a list is sound, and its levels
are those of the list. -/

namespace SourceAtlas.Layout

inductive Above (parents : List (Option Nat)) (p : Nat) : Nat → Prop
  | self : Above parents p p
  | up {v q : Nat} : parents[v]? = some (some q) → Above parents p q → Above parents p v

/-- The parents of the nodes of a tree in pre-order: the root comes first, and every further node
stands right below the node before it or below one that stands above that. -/
structure IsPreorder (parents : List (Option Nat)) : Prop where
  root : parents[0]? = some none
  next : ∀ {i}, i + 1 < parents.length →
    ∃ p, parents[i + 1]? = some (some p) ∧ Above parents p i

inductive AtDepth (parents : List (Option Nat)) : Nat → Nat → Prop
  | root {v : Nat} : parents[v]? = some none → AtDepth parents v 0
  | child {v p d : Nat} : parents[v]? = some (some p) → AtDepth parents p d →
      AtDepth parents v (d + 1)

section Above

variable {parents : List (Option Nat)} {p q v i : Nat}

theorem Above.trans (h : Above parents p q) (h' : Above parents q v) : Above parents p v := by
  induction h' with
  | self => exact h
  | up hv _ ih => exact .up hv ih

namespace IsPreorder

variable (h : IsPreorder parents)
include h

theorem above_before (hv : parents[v]? = some (some p)) :
    ∃ i, v = i + 1 ∧ Above parents p i := by
  obtain ⟨hlt, -⟩ := List.getElem?_eq_some_iff.mp hv
  cases v with
  | zero => rw [h.root] at hv; cases hv
  | succ i =>
    obtain ⟨q, hq, habove⟩ := h.next hlt
    obtain rfl : q = p := Option.some.inj (Option.some.inj (hq.symm.trans hv))
    exact ⟨i, rfl, habove⟩

theorem above_le (hp : Above parents p v) : p ≤ v := by
  induction v using Nat.strongRecOn generalizing p with
  | _ v ih =>
    cases hp with
    | self => exact Nat.le_refl _
    | up hv hp =>
      obtain ⟨i, rfl, hq⟩ := h.above_before hv
      have hqi := ih i (Nat.lt_succ_self i) hq
      have hpq := ih _ (Nat.lt_succ_of_le hqi) hp
      omega

theorem parent_lt (hv : parents[v]? = some (some p)) : p < v := by
  obtain ⟨i, rfl, hp⟩ := h.above_before hv
  exact Nat.lt_succ_of_le (h.above_le hp)

/-- The nodes below `p` are numbered without a gap. -/
theorem above_between (hp : Above parents p v) (hpi : p ≤ i) (hiv : i ≤ v) : Above parents p i := by
  induction v with
  | zero =>
    obtain rfl : i = 0 := Nat.le_zero.mp hiv
    exact hp
  | succ v ih =>
    rcases Nat.lt_or_eq_of_le hiv with hiv | rfl
    · cases hp with
      | self => omega
      | up hv hp =>
        obtain ⟨j, hj, hq⟩ := h.above_before hv
        obtain rfl : v = j := Nat.succ.inj hj
        exact ih (hp.trans hq) (Nat.le_of_lt_succ hiv)
    · exact hp

end IsPreorder

end Above

/-! ## The shape of a list of parents -/

/-- The parent of a node in the shape: the extra node stands in for a missing one. -/
def parentIn (parents : List (Option Nat)) (v : Nat) : Nat :=
  (parents[v]?.getD none).getD parents.length

section Built

variable {parents : List (Option Nat)} {k v : Nat} {o : Option Nat}

theorem IsPreorder.parentIn_root (h : IsPreorder parents) :
    parentIn parents 0 = parents.length := by
  rw [parentIn, h.root]; rfl

theorem IsPreorder.parentIn_eq (h : IsPreorder parents) (hv : v < parents.length) (hv0 : v ≠ 0) :
    parents[v]? = some (some (parentIn parents v)) := by
  obtain ⟨i, rfl⟩ := Nat.exists_eq_succ_of_ne_zero hv0
  obtain ⟨p, hp, -⟩ := h.next hv
  rw [parentIn, hp]
  rfl

theorem IsPreorder.parentIn_lt (h : IsPreorder parents) (hv : v < parents.length) (hv0 : v ≠ 0) :
    parentIn parents v < v :=
  h.parent_lt (h.parentIn_eq hv hv0)

theorem IsPreorder.parentIn_le (h : IsPreorder parents) (hv : v < parents.length) :
    parentIn parents v ≤ parents.length := by
  by_cases hv0 : v = 0
  · exact Nat.le_of_eq (hv0 ▸ h.parentIn_root)
  · exact Nat.le_of_lt (Nat.lt_trans (h.parentIn_lt hv hv0) hv)

namespace Shape

variable {s : Shape}

theorem parent_add (h : k < s.parents.size) : (s.add k o).parent k = o.getD s.count :=
  Walk.getD_set_self h

theorem parent_add_ne (h : v ≠ k) : (s.add k o).parent v = s.parent v := Walk.getD_set_ne h

theorem children_add (h : o.getD s.count < s.childLists.size) :
    (s.add k o).children (o.getD s.count) = s.children (o.getD s.count) ++ [k] :=
  Walk.getD_set_self h

theorem children_add_ne (h : v ≠ o.getD s.count) : (s.add k o).children v = s.children v :=
  Walk.getD_set_ne h

theorem number_add (h : k < s.numbers.size) :
    (s.add k o).number k = (s.children (o.getD s.count)).length :=
  Walk.getD_set_self h

theorem number_add_ne (h : v ≠ k) : (s.add k o).number v = s.number v := Walk.getD_set_ne h

theorem depth_add (h : k < s.depths.size) (ho : o.getD s.count < s.count) :
    (s.add k o).depth k = s.depth (o.getD s.count) + 1 := by
  rw [depth, add, if_pos ho]; exact Walk.getD_set_self h

theorem depth_add_top (ho : ¬ o.getD s.count < s.count) : (s.add k o).depth v = s.depth v := by
  rw [depth, add, if_neg ho]; rfl

theorem depth_add_ne (h : v ≠ k) : (s.add k o).depth v = s.depth v := by
  rw [depth, add]
  split
  · exact Walk.getD_set_ne h
  · rfl

end Shape

/-- The shape after its first `k` nodes have been added. -/
structure Shape.Built (parents : List (Option Nat)) (k : Nat) (s : Shape) : Prop where
  count : s.count = parents.length
  room : ∀ n ∈ [s.parents.size, s.childLists.size, s.depths.size, s.numbers.size],
    n = parents.length + 1
  parent : ∀ {v}, v < k → s.parent v = parentIn parents v
  children : ∀ {p}, p ≤ parents.length →
    s.children p = (List.range k).filter (parentIn parents · = p)
  number : ∀ {v}, v < k →
    s.number v = ((List.range v).filter (parentIn parents · = parentIn parents v)).length
  depth_root : s.depth 0 = 0
  depth : ∀ {v}, v < k → v ≠ 0 → s.depth v = s.depth (parentIn parents v) + 1

theorem Shape.empty_built (parents : List (Option Nat)) :
    Built parents 0 (empty parents.length) := by
  refine ⟨rfl, by simp [empty], fun hv => by omega, fun {p} hp => ?_, fun hv => by omega, ?_,
    fun hv => by omega⟩
  · simp [Shape.children, empty, Nat.lt_succ_of_le hp]
  · simp [Shape.depth, empty]

theorem Shape.Built.add {s : Shape} (h : IsPreorder parents) (hs : s.Built parents k)
    (hk : parents[k]? = some o) : (s.add k o).Built parents (k + 1) := by
  have hlt : k < parents.length := (List.getElem?_eq_some_iff.mp hk).1
  have hp : o.getD s.count = parentIn parents k := by rw [hs.count, parentIn, hk]; rfl
  have hle := h.parentIn_le hlt
  have hroom {n : Nat} (hn : n ∈ [s.parents.size, s.childLists.size, s.depths.size, s.numbers.size])
      {v : Nat} (hv : v ≤ parents.length) : v < n := by rw [hs.room n hn]; omega
  have hkn : k ≤ parents.length := Nat.le_of_lt hlt
  refine ⟨hs.count, fun n hn => hs.room n ?_, fun {v} hv => ?_, fun {p} hpn => ?_, fun {v} hv => ?_,
    ?_, fun {v} hv hv0 => ?_⟩
  · have hsizes : [(s.add k o).parents.size, (s.add k o).childLists.size, (s.add k o).depths.size,
        (s.add k o).numbers.size] =
        [s.parents.size, s.childLists.size, s.depths.size, s.numbers.size] := by
      simp only [Shape.add]
      split <;> simp
    rwa [hsizes] at hn
  · by_cases hvk : v = k
    · rw [hvk, parent_add (hroom (by simp) hkn), hp]
    · rw [parent_add_ne hvk, hs.parent (by omega)]
  · rw [List.range_succ, List.filter_append, ← hs.children hpn]
    by_cases hpk : p = parentIn parents k
    · rw [hpk, ← hp, children_add (by rw [hp]; exact hroom (by simp) hle), hp]
      simp
    · rw [children_add_ne (by rw [hp]; exact hpk)]
      simp [Ne.symm hpk]
  · by_cases hvk : v = k
    · rw [hvk, number_add (hroom (by simp) hkn), hp, hs.children hle]
    · rw [number_add_ne hvk, hs.number (by omega)]
  · by_cases hk0 : k = 0
    · have htop : ¬ o.getD s.count < s.count := by
        rw [hp, hk0, h.parentIn_root, hs.count]
        exact Nat.lt_irrefl _
      rw [depth_add_top htop, hs.depth_root]
    · rw [depth_add_ne (Ne.symm hk0), hs.depth_root]
  · have hparent := h.parentIn_lt (Nat.lt_of_lt_of_le hv hlt) hv0
    by_cases hvk : v = k
    · rw [hvk] at hparent ⊢
      rw [depth_add (hroom (by simp) hkn) (by rw [hp, hs.count]; omega), hp,
        depth_add_ne (Nat.ne_of_lt hparent)]
    · rw [depth_add_ne hvk, hs.depth (by omega) hv0, depth_add_ne (by omega)]

theorem Shape.ofParents_built (h : IsPreorder parents) :
    (ofParents parents).Built parents parents.length := by
  have hrun (l : List (Option Nat)) (k : Nat) (s : Shape) (hl : parents.drop k = l)
      (hs : s.Built parents k) :
      ((l.zipIdx k).foldl (fun s x => s.add x.2 x.1) s).Built parents (k + l.length) := by
    induction l generalizing k s with
    | nil => exact hs
    | cons o l ih =>
      have hk : parents[k]? = some o := by rw [← List.head?_drop, hl]; rfl
      have hdrop : parents.drop (k + 1) = l := by rw [← List.drop_drop, hl]; rfl
      rw [List.zipIdx_cons, List.foldl_cons, List.length_cons, Nat.add_comm l.length,
        ← Nat.add_assoc]
      exact ih (k + 1) _ hdrop (hs.add h hk)
  have hall := hrun parents 0 (empty parents.length) (List.drop_zero ..) (empty_built parents)
  rw [Nat.zero_add] at hall
  exact hall

/-- Nodes above another one have smaller depths. -/
theorem Shape.Built.depth_lt_of_above {s : Shape} (h : IsPreorder parents)
    (hs : s.Built parents parents.length) {p : Nat} (hp : Above parents p v)
    (hv : v < parents.length) (hne : p ≠ v) : s.depth p < s.depth v := by
  induction hp with
  | self => exact absurd rfl hne
  | @up v q hq hp ih =>
    have hv0 : v ≠ 0 := by rintro rfl; rw [h.root] at hq; cases hq
    obtain rfl : parentIn parents v = q :=
      Option.some.inj (Option.some.inj ((h.parentIn_eq hv hv0).symm.trans hq))
    have hlt := h.parentIn_lt hv hv0
    rw [hs.depth hv hv0]
    by_cases hpq : p = parentIn parents v
    · rw [hpq]; exact Nat.lt_succ_self _
    · exact Nat.lt_succ_of_lt (ih (by omega) hpq)

/-- The nodes of a list in numerical order that come before `v` are the smaller ones. -/
theorem length_before {P : Nat → Bool} {n : Nat} {as bs : List Nat}
    (h : (List.range n).filter P = as ++ v :: bs) :
    as.length = ((List.range v).filter P).length := by
  have hsorted : (as ++ v :: bs).Pairwise (· < ·) := h ▸ List.pairwise_lt_range.filter P
  obtain ⟨-, hbs, has⟩ := List.pairwise_append.mp hsorted
  have hvn : v < n := by
    have hmem : v ∈ (List.range n).filter P := by rw [h]; simp
    exact List.mem_range.mp (List.mem_filter.mp hmem).1
  have hsmaller : (as ++ v :: bs).filter (· < v) = as := by
    rw [List.filter_append, List.filter_eq_self.mpr fun c hc =>
      decide_eq_true (has c hc v (by simp)),
      List.filter_eq_nil_iff.mpr, List.append_nil]
    intro c hc
    rcases List.mem_cons.mp hc with rfl | hc
    · simp
    · have := List.rel_of_pairwise_cons hbs hc
      simp only [decide_eq_true_eq]
      omega
  have hrange : (List.range n).filter (· < v) = List.range v := by
    obtain ⟨m, rfl⟩ := Nat.exists_eq_add_of_lt hvn
    rw [Nat.add_assoc, List.range_add, List.filter_append, List.filter_eq_self.mpr (by simp),
      List.filter_eq_nil_iff.mpr (by simp), List.append_nil]
  rw [← hsmaller, ← h, List.filter_comm, hrange]

theorem Shape.ofParents_sound (h : IsPreorder parents) : (ofParents parents).Sound := by
  have hs := ofParents_built h
  have hcount := hs.count
  have hnil {p : Nat} (hp : ¬ p ≤ parents.length) : (ofParents parents).children p = [] := by
    rw [Shape.children, Array.getD_eq_getD_getElem?, Array.getElem?_eq_none]
    · rfl
    · rw [hs.room (ofParents parents).childLists.size (by simp)]; omega
  have hmem {v p : Nat} :
      v ∈ (ofParents parents).children p ↔ v < parents.length ∧ parentIn parents v = p := by
    by_cases hp : p ≤ parents.length
    · rw [hs.children hp]; simp
    · rw [hnil hp]
      refine iff_of_false (List.not_mem_nil) fun ⟨hv, heq⟩ => hp (heq ▸ h.parentIn_le hv)
  refine ⟨fun {v p} => ?_, fun p => ?_, fun {p a as bs} hch => ?_, ?_, fun {v} hv hv0 => ?_,
    hs.depth_root, fun {v} hv hv0 => ?_, fun {v i} hv hv0 hpi hiv => ?_⟩
  · rw [hmem, hcount]
    refine and_congr_right fun hv => ?_
    rw [hs.parent hv]
  · by_cases hp : p ≤ parents.length
    · rw [hs.children hp]; exact List.pairwise_lt_range.filter _
    · rw [hnil hp]; exact .nil
  · obtain ⟨ha, hpa⟩ := hmem.mp (show a ∈ (ofParents parents).children p by rw [hch]; simp)
    have hp : p ≤ parents.length := hpa ▸ h.parentIn_le ha
    rw [hs.children hp] at hch
    rw [hs.number ha, hpa, length_before hch]
  · rw [hs.parent (List.getElem?_eq_some_iff.mp h.root).1, h.parentIn_root, hcount]
  · rw [hcount] at hv
    rw [hs.parent hv]
    exact h.parentIn_lt hv hv0
  · rw [hcount] at hv
    rw [hs.parent hv, hs.depth hv hv0]
  · rw [hcount] at hv
    rw [hs.parent hv] at hpi ⊢
    have habove : Above parents (parentIn parents v) v := .up (h.parentIn_eq hv hv0) .self
    exact hs.depth_lt_of_above h (h.above_between habove (Nat.le_of_lt hpi) hiv) (by omega)
      (Nat.ne_of_lt hpi)

/-- Nodes with one parent in the shape have one in the list. -/
theorem IsPreorder.same_parent {u : Nat} (h : IsPreorder parents) (hu : u < parents.length)
    (hv : v < parents.length) (huv : u < v) (heq : parentIn parents u = parentIn parents v) :
    parents[u]? = parents[v]? := by
  have hlt := h.parentIn_lt hv (Nat.ne_zero_of_lt huv)
  by_cases hu0 : u = 0
  · rw [hu0, h.parentIn_root] at heq
    omega
  · rw [h.parentIn_eq hu hu0, h.parentIn_eq hv (Nat.ne_zero_of_lt huv), heq]

/-- The levels of the shape are those of the list. -/
theorem AtDepth.mem_level {d : Nat} (h : IsPreorder parents) (hv : AtDepth parents v d) :
    v ∈ (Shape.ofParents parents).level d [0] := by
  induction hv with
  | @root v hv =>
    obtain ⟨hlt, -⟩ := List.getElem?_eq_some_iff.mp hv
    by_contra hne
    have hparent := h.parentIn_eq hlt (mt List.mem_singleton.mpr hne)
    rw [hv] at hparent
    cases hparent
  | @child v p d hv _ ih =>
    obtain ⟨hlt, -⟩ := List.getElem?_eq_some_iff.mp hv
    refine Shape.mem_level_succ.mpr ⟨p, ih, (Shape.ofParents_sound h).mem_children.mpr ?_⟩
    rw [(Shape.ofParents_built h).count, (Shape.ofParents_built h).parent hlt, parentIn, hv]
    exact ⟨hlt, rfl⟩

end Built

end SourceAtlas.Layout
