import Mathlib.Data.List.Nodup
import SourceAtlas.Panel.Basic
import SourceAtlas.Proofs.Diagram.Arena
import SourceAtlas.Proofs.Tree.Address

/-! # Subtrees as ranges of positions

A subtree fills the positions from that of its root on, one for each of its nodes, and the children
of a node start one after another behind it. So the position of a child, the nodes below a node and
the order of siblings can all be read off the positions. -/

namespace SourceAtlas

namespace Node

/-- The trees of a row with the positions at which they start, the first at `id`. -/
def starts (id : Nat) : List Node → List (Nat × Node)
  | [] => []
  | n :: ns => (id, n) :: starts (id + n.nodeCount) ns

theorem starts_fst (id : Nat) (ns : List Node) :
    (starts id ns).map Prod.fst = TreeState.startIds id ns := by
  induction ns generalizing id with
  | nil => rfl
  | cons n ns ih => rw [starts, List.map_cons, ih, TreeState.startIds]

theorem starts_snd (id : Nat) (ns : List Node) : (starts id ns).map Prod.snd = ns := by
  induction ns generalizing id with
  | nil => rfl
  | cons n ns ih => rw [starts, List.map_cons, ih]

theorem mem_of_starts {id : Nat} {ns : List Node} {x : Nat × Node} (h : x ∈ starts id ns) :
    x.2 ∈ ns := by
  rw [← starts_snd id ns]
  exact List.mem_map_of_mem h

theorem nodeCount_pos (n : Node) : 0 < n.nodeCount := by
  rw [Walk.nodeCount_eq]
  omega

theorem starts_ge {id : Nat} {ns : List Node} {x : Nat × Node} (h : x ∈ starts id ns) :
    id ≤ x.1 := by
  induction ns generalizing id with
  | nil => cases h
  | cons n ns ih =>
    rw [starts, List.mem_cons] at h
    rcases h with rfl | h
    · exact Nat.le_refl _
    · have := ih h
      omega

/-- A tree of a row starts behind those before it. -/
theorem starts_increasing (id : Nat) (ns : List Node) :
    (starts id ns).Pairwise fun x y => x.1 < y.1 := by
  induction ns generalizing id with
  | nil => exact .nil
  | cons n ns ih =>
    refine List.pairwise_cons.mpr ⟨fun y hy => ?_, ih _⟩
    have := starts_ge hy
    have := nodeCount_pos n
    show id < y.1
    omega

/-- The positions of a row are those of its trees, one after another. -/
theorem range'_starts (id : Nat) (ns : List Node) :
    List.range' id (nodeCountAll ns) =
      (starts id ns).flatMap fun x => List.range' x.1 x.2.nodeCount := by
  induction ns generalizing id with
  | nil => rfl
  | cons n ns ih =>
    rw [starts, nodeCountAll, List.flatMap_cons, ← ih, ← List.range'_append, Nat.one_mul]

/-- A spot of a row belongs to one of its trees. -/
theorem spotsFrom_getElem? {a : List Nat} {s : Spot} {ns : List Node} {k m : Nat} (id : Nat)
    (h : (spotsFrom a k ns)[m]? = some s) : ∃ j p n r, (starts id ns)[j]? = some (p, n) ∧
      id + m = p + r ∧ (spotsAt (a ++ [k + j]) n)[r]? = some s := by
  induction ns generalizing k m id with
  | nil => cases h
  | cons n ns ih =>
    rw [spotsFrom, List.getElem?_append, spotsAt_length] at h
    split at h
    · exact ⟨0, id, n, m, rfl, rfl, h⟩
    · obtain ⟨j, p, c, r, hj, hm, hr⟩ := ih (id + n.nodeCount) h
      refine ⟨j + 1, p, c, r, hj, by omega, ?_⟩
      rwa [Nat.add_assoc, Nat.add_comm 1] at hr

end Node

namespace Through

open Node

variable {w : List Spot}

theorem getElem? {id : Nat} {l : List Spot} (h : Through w id l) {k : Nat} (hk : k < l.length) :
    w[id + k]? = l[k]? := by
  obtain ⟨rest, h⟩ := h
  rw [← List.getElem?_drop, ← h, List.getElem?_append_left hk]

theorem child {id k : Nat} {a : List Nat} {ns : List Node} (h : Through w id (spotsFrom a k ns))
    {j p : Nat} {n : Node} (hj : (starts id ns)[j]? = some (p, n)) :
    Through w p (spotsAt (a ++ [k + j]) n) := by
  induction ns generalizing id k j with
  | nil => cases hj
  | cons m ns ih =>
    rw [spotsFrom] at h
    cases j with
    | zero =>
      cases hj
      exact h.left
    | succ j =>
      have hright := h.right
      rw [spotsAt_length] at hright
      have hrest := ih hright hj
      rwa [Nat.add_assoc, Nat.add_comm 1] at hrest

theorem children {id : Nat} {a : List Nat} {n : Node} (h : Through w id (spotsAt a n)) :
    Through w (id + 1) (spotsFrom a 0 n.children) := by
  rw [spotsAt_children] at h
  exact h.tail

/-- A walk through a tree goes through each of its subtrees as a whole. -/
theorem subtree {n : Node} {a : List Nat} {id : Nat} (h : Through w id (spotsAt a n)) {k : Nat}
    {s : Spot} (hs : (spotsAt a n)[k]? = some s) :
    Through w (id + k) (spotsAt s.address s.node) := by
  induction n using Node.byChildren generalizing a id k with
  | step n ih =>
    rw [spotsAt_children] at hs
    cases k with
    | zero =>
      cases hs
      exact h
    | succ k =>
      obtain ⟨j, p, c, r, hj, hm, hr⟩ := spotsFrom_getElem? (id + 1) hs
      have hc : c ∈ n.children := mem_of_starts (List.mem_of_getElem? hj)
      have hsub := ih c hc (h.children.child hj) hr
      rwa [← hm, Nat.add_assoc, Nat.add_comm 1] at hsub

end Through

namespace Node

variable {root : Node}

theorem through_subtree {i : Nat} {s : Spot} (hs : root.walk[i]? = some s) :
    Through root.walk i (spotsAt s.address s.node) := by
  have hw : Through root.walk 0 (spotsAt [] root) := by
    rw [← walk_eq]
    exact .whole _
  rw [walk_eq] at hs
  simpa using hw.subtree hs

/-- Child number `j` of a node stands where the children before it end. -/
theorem walk_child {i : Nat} {s : Spot} (hs : root.walk[i]? = some s) {j p : Nat} {c : Node}
    (hj : (starts (i + 1) s.node.children)[j]? = some (p, c)) :
    root.walk[p]? = some ⟨s.address ++ [j], c⟩ := by
  have hc := (through_subtree hs).children.child hj
  rw [spotsAt_children, Nat.zero_add] at hc
  exact hc.head

/-- The positions of the children of a node are those at which they start. -/
theorem isParent_iff {i : Nat} {s : Spot} (hs : root.walk[i]? = some s) {j : Nat} :
    root.IsParent i j ↔ j ∈ TreeState.startIds (i + 1) s.node.children := by
  rw [← starts_fst, List.mem_map]
  constructor
  · rintro ⟨s', t, k, hs', ht, ha⟩
    cases hs.symm.trans hs'
    have hat := at?_of_mem_walk (List.mem_of_getElem? ht)
    rw [ha, at?_append, at?_of_mem_walk (List.mem_of_getElem? hs), Option.bind_some,
      at?_cons_eq_some] at hat
    obtain ⟨c, hc, _⟩ := hat
    have hk : k < (starts (i + 1) s.node.children).length := by
      rw [← List.length_map (f := Prod.snd), starts_snd]
      exact (List.getElem?_eq_some_iff.mp hc).1
    refine ⟨(starts (i + 1) s.node.children)[k], List.getElem_mem hk, ?_⟩
    exact walk_inj (walk_child hs (List.getElem?_eq_getElem hk)) ht ha.symm
  · rintro ⟨⟨p, c⟩, hmem, rfl⟩
    obtain ⟨k, hk⟩ := List.getElem?_of_mem hmem
    exact ⟨s, _, k, hs, walk_child hs hk, rfl⟩

/-- The nodes of a subtree stand at the positions from that of its root on. -/
theorem within_iff {i : Nat} {s : Spot} (hs : root.walk[i]? = some s) {k : Nat} :
    (k = i ∨ root.IsAbove i k) ↔ k ∈ List.range' i s.node.nodeCount := by
  have hsub := through_subtree hs
  rw [List.mem_range'_1]
  constructor
  · rintro (rfl | ⟨s', t, hs', ht, hp, _⟩)
    · have := nodeCount_pos s.node
      omega
    · cases hs.symm.trans hs'
      obtain ⟨b, hb⟩ := hp
      have hat := at?_of_mem_walk (List.mem_of_getElem? ht)
      rw [← hb, at?_append, at?_of_mem_walk (List.mem_of_getElem? hs), Option.bind_some] at hat
      obtain ⟨r, hr⟩ := List.getElem?_of_mem (mem_spotsAt (a := s.address) hat)
      obtain ⟨hlt, _⟩ := List.getElem?_eq_some_iff.mp hr
      have hpos : root.walk[i + r]? = _ := (hsub.getElem? hlt).trans hr
      have := walk_inj hpos ht hb
      rw [spotsAt_length] at hlt
      omega
  · rintro ⟨hle, hlt⟩
    obtain ⟨r, rfl⟩ := Nat.exists_eq_add_of_le hle
    have hr : r < (spotsAt s.address s.node).length := by
      rw [spotsAt_length]
      omega
    have hpos := (hsub.getElem? hr).trans (List.getElem?_eq_getElem hr)
    obtain ⟨b, hb, _⟩ := address_of_mem (List.getElem_mem hr)
    rcases Nat.eq_zero_or_pos r with rfl | hr0
    · exact .inl rfl
    · refine .inr ⟨s, _, hs, hpos, ⟨b, hb.symm⟩, ?_⟩
      intro he
      have := walk_inj hs hpos he
      omega

theorem not_isAbove_leaf {i : Nat} {s : Spot} (hs : root.walk[i]? = some s)
    (hc : s.node.children = []) (k : Nat) : ¬ root.IsAbove i k := by
  intro h
  have hk := (within_iff hs).mp (.inr h)
  rw [Walk.nodeCount_eq, hc, nodeCountAll, Nat.add_zero, List.range'_one, List.mem_singleton] at hk
  subst hk
  exact h.irrefl

end Node

/-- A position selects the node that stands there. -/
theorem Subject.at?_eq (root : Node) (id : Nat) :
    Subject.at? root id = (root.walk[id]?).map fun s => .full s.node := by
  rw [Subject.at?, Node.findById_eq, Option.map_map]
  rfl

end SourceAtlas
