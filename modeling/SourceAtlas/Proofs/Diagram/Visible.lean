import SourceAtlas.Proofs.Diagram.Arena

/-! # Which nodes are visible

The visible nodes are found with a stack: a visited node makes room for its children when it is
expanded. Followed through a tree, the walk lists positions in increasing order, and a position is
listed exactly when all nodes above it are expanded. -/

namespace SourceAtlas

namespace Node

mutual
/-- The positions shown of a tree that starts at `id`, the expanded ones being told by `isOpen`. -/
def shown (isOpen : Nat → Bool) (id : Nat) : Node → List Nat
  | .mk _ none => [id]
  | .mk _ (some cs) => id :: if isOpen id then shownAll isOpen (id + 1) cs else []

/-- The positions shown of a row of trees that starts at `id`. -/
def shownAll (isOpen : Nat → Bool) (id : Nat) : List Node → List Nat
  | [] => []
  | n :: ns => shown isOpen id n ++ shownAll isOpen (id + n.nodeCount) ns
end

/-- Spot number `k` of a list that starts at position `id` has only expanded nodes above it. -/
def Clear (isOpen : Nat → Bool) (id : Nat) (l : List Spot) (k : Nat) : Prop :=
  ∀ m, Over l m k → isOpen (id + m) = true

variable {isOpen : Nat → Bool}

theorem clear_tree {id k : Nat} (a : List Nat) (e : Entry) {cs : List Node}
    (hk : k < nodeCountAll cs) :
    Clear isOpen id (spotsAt a (.mk e (some cs))) (k + 1) ↔
      isOpen id = true ∧ Clear isOpen (id + 1) (spotsFrom a 0 cs) k := by
  simp only [Clear, over_tree a e cs hk]
  constructor
  · intro h
    refine ⟨h 0 (.inl rfl), fun m hm => ?_⟩
    rw [Nat.add_assoc, Nat.add_comm 1]
    exact h (m + 1) (.inr ⟨m, rfl, hm⟩)
  · rintro ⟨hid, h⟩ m (rfl | ⟨j, rfl, hj⟩)
    · exact hid
    · rw [Nat.add_comm j, ← Nat.add_assoc]
      exact h j hj

theorem clear_row_left {id j k : Nat} (a : List Nat) {n : Node} (ns : List Node)
    (hk : k < n.nodeCount) :
    Clear isOpen id (spotsFrom a j (n :: ns)) k ↔ Clear isOpen id (spotsAt (a ++ [j]) n) k := by
  simp only [Clear, over_row_left a j n ns hk]

theorem clear_row_right {id j k : Nat} (a : List Nat) (n : Node) (ns : List Node) :
    Clear isOpen id (spotsFrom a j (n :: ns)) (n.nodeCount + k) ↔
      Clear isOpen (id + n.nodeCount) (spotsFrom a (j + 1) ns) k := by
  simp only [Clear, over_row_right]
  constructor
  · intro h m hm
    rw [Nat.add_assoc]
    exact h _ ⟨m, rfl, hm⟩
  · rintro h _ ⟨m, rfl, hm⟩
    rw [← Nat.add_assoc]
    exact h m hm

mutual
/-- A position of a tree is shown when all nodes above it are expanded. -/
theorem mem_shown {i : Nat} : ∀ (n : Node) (a : List Nat) (id : Nat), i ∈ shown isOpen id n ↔
    ∃ k, i = id + k ∧ k < n.nodeCount ∧ Clear isOpen id (spotsAt a n) k
  | .mk e none, a, id => by
    rw [shown, List.mem_singleton, nodeCount]
    constructor
    · rintro rfl
      exact ⟨0, rfl, Nat.one_pos, fun m hm => absurd hm (not_over_root a _ m)⟩
    · rintro ⟨k, rfl, hk, _⟩
      omega
  | .mk e (some cs), a, id => by
    rw [shown, List.mem_cons, nodeCount]
    constructor
    · rintro (rfl | hi)
      · exact ⟨0, rfl, by omega, fun m hm => absurd hm (not_over_root a _ m)⟩
      · split at hi
        · next hid =>
          obtain ⟨k, rfl, hk, hc⟩ := (mem_shownAll cs a 0 (id + 1)).mp hi
          exact ⟨k + 1, by omega, by omega, (clear_tree a e hk).mpr ⟨hid, hc⟩⟩
        · cases hi
    · rintro ⟨k, rfl, hk, hc⟩
      cases k with
      | zero => exact .inl rfl
      | succ k =>
        have hk : k < nodeCountAll cs := by omega
        obtain ⟨hid, hc⟩ := (clear_tree a e hk).mp hc
        rw [if_pos hid]
        exact .inr ((mem_shownAll cs a 0 (id + 1)).mpr ⟨k, by omega, hk, hc⟩)

theorem mem_shownAll {i : Nat} : ∀ (ns : List Node) (a : List Nat) (j id : Nat),
    i ∈ shownAll isOpen id ns ↔
      ∃ k, i = id + k ∧ k < nodeCountAll ns ∧ Clear isOpen id (spotsFrom a j ns) k
  | [], a, j, id => by simp [shownAll, nodeCountAll]
  | n :: ns, a, j, id => by
    rw [shownAll, List.mem_append, mem_shown n (a ++ [j]) id,
      mem_shownAll ns a (j + 1) (id + n.nodeCount), nodeCountAll]
    constructor
    · rintro (⟨k, rfl, hk, hc⟩ | ⟨k, rfl, hk, hc⟩)
      · exact ⟨k, rfl, by omega, (clear_row_left a ns hk).mpr hc⟩
      · exact ⟨n.nodeCount + k, by omega, by omega, (clear_row_right a n ns).mpr hc⟩
    · rintro ⟨k, rfl, hk, hc⟩
      -- what stands above a node of the row stands in the same tree
      by_cases hn : k < n.nodeCount
      · exact .inl ⟨k, rfl, hn, (clear_row_left a ns hn).mp hc⟩
      · obtain ⟨k, rfl⟩ := Nat.exists_eq_add_of_le (Nat.le_of_not_lt hn)
        exact .inr ⟨k, by omega, by omega, (clear_row_right a n ns).mp hc⟩
end

theorem shown_range {n : Node} {id i : Nat} (h : i ∈ shown isOpen id n) :
    id ≤ i ∧ i < id + n.nodeCount := by
  obtain ⟨k, rfl, hk, _⟩ := (mem_shown n [] id).mp h
  omega

theorem shownAll_range {ns : List Node} {id i : Nat} (h : i ∈ shownAll isOpen id ns) :
    id ≤ i ∧ i < id + nodeCountAll ns := by
  obtain ⟨k, rfl, hk, _⟩ := (mem_shownAll ns [] 0 id).mp h
  omega

mutual
theorem shown_increasing : ∀ (n : Node) (id : Nat), (shown isOpen id n).Pairwise (· < ·)
  | .mk e none, id => List.pairwise_singleton ..
  | .mk e (some cs), id => by
    rw [shown]
    split
    · refine List.pairwise_cons.mpr ⟨fun i hi => ?_, shownAll_increasing cs (id + 1)⟩
      have := shownAll_range hi
      omega
    · exact List.pairwise_singleton ..

theorem shownAll_increasing :
    ∀ (ns : List Node) (id : Nat), (shownAll isOpen id ns).Pairwise (· < ·)
  | [], id => .nil
  | n :: ns, id => by
    rw [shownAll]
    refine List.pairwise_append.mpr ⟨shown_increasing n id, shownAll_increasing ns _, ?_⟩
    intro i hi j hj
    have := shown_range hi
    have := shownAll_range hj
    omega
end

mutual
theorem shown_length_le : ∀ (n : Node) (id : Nat), (shown isOpen id n).length ≤ n.nodeCount
  | .mk e none, id => Nat.le_refl 1
  | .mk e (some cs), id => by
    have := shownAll_length_le cs (id + 1)
    rw [shown, List.length_cons, nodeCount]
    split
    · omega
    · simp

theorem shownAll_length_le :
    ∀ (ns : List Node) (id : Nat), (shownAll isOpen id ns).length ≤ nodeCountAll ns
  | [], id => Nat.le_refl 0
  | n :: ns, id => by
    have := shown_length_le n id
    have := shownAll_length_le ns (id + n.nodeCount)
    rw [shownAll, List.length_append, nodeCountAll]
    omega
end

end Node

namespace TreeState

variable {α : Type}

/-- The state keeps the children of the spots of a walk at their positions. -/
def Keeps (st : TreeState α) (w : List Spot) : Prop :=
  ∀ i s, w[i]? = some s → st.children i = startIds (i + 1) s.node.children

mutual
/-- With a tree on top of the stack, the visible part of the tree is visited first. -/
theorem visibleFrom_tree {st : TreeState α} {w : List Spot} (hst : st.Keeps w) :
    ∀ (n : Node) {a : List Nat} {id : Nat}, Through w id (Node.spotsAt a n) →
      ∀ (fuel : Nat) (stack : List Nat),
        st.visibleFrom ((Node.shown st.isExpanded id n).length + fuel) (id :: stack) =
          Node.shown st.isExpanded id n ++ st.visibleFrom fuel stack
  | .mk e none, a, id, hw, fuel, stack => by
    have hc : st.children id = [] := hst id _ hw.head
    rw [Node.shown, List.length_singleton, Nat.add_comm, visibleFrom, hc, ite_self]
    rfl
  | .mk e (some cs), a, id, hw, fuel, stack => by
    rw [Node.spotsAt] at hw
    have hc : st.children id = startIds (id + 1) cs := hst id _ hw.head
    rw [Node.shown, List.length_cons, Nat.add_right_comm, visibleFrom, hc, List.cons_append]
    -- an expanded node leaves its children on the stack, a collapsed one leaves nothing
    split
    · rw [visibleFrom_row hst cs hw.tail]
    · simp

theorem visibleFrom_row {st : TreeState α} {w : List Spot} (hst : st.Keeps w) :
    ∀ (ns : List Node) {a : List Nat} {id k : Nat}, Through w id (Node.spotsFrom a k ns) →
      ∀ (fuel : Nat) (stack : List Nat),
        st.visibleFrom ((Node.shownAll st.isExpanded id ns).length + fuel)
            (startIds id ns ++ stack) =
          Node.shownAll st.isExpanded id ns ++ st.visibleFrom fuel stack
  | [], a, id, k, hw, fuel, stack => by simp [Node.shownAll, startIds]
  | n :: ns, a, id, k, hw, fuel, stack => by
    rw [Node.spotsFrom] at hw
    have hright := hw.right
    rw [Node.spotsAt_length] at hright
    rw [Node.shownAll, startIds, List.length_append, Nat.add_assoc, List.cons_append,
      visibleFrom_tree hst n hw.left, visibleFrom_row hst ns hright, List.append_assoc]
end

theorem visibleFrom_nil (st : TreeState α) (fuel : Nat) : st.visibleFrom fuel [] = [] := by
  cases fuel <;> rfl

/-- The number of nodes is enough for the whole walk. -/
theorem visible_eq {st : TreeState α} {root : Node} (hst : st.Keeps root.walk)
    (hsize : st.size = root.nodeCount) : st.visible = root.shown st.isExpanded 0 := by
  have hw : Through root.walk 0 (Node.spotsAt [] root) := by
    rw [← Node.walk_eq]
    exact .whole _
  have hle : (root.shown st.isExpanded 0).length ≤ st.size := by
    rw [hsize]
    exact Node.shown_length_le root 0
  obtain ⟨fuel, hfuel⟩ := Nat.exists_eq_add_of_le hle
  rw [visible, hfuel, visibleFrom_tree hst root hw, visibleFrom_nil, List.append_nil]

/-- A node is visible when all nodes above it are expanded. -/
theorem mem_visible {st : TreeState α} {root : Node} (hst : st.Keeps root.walk)
    (hsize : st.size = root.nodeCount) {i : Nat} :
    i ∈ st.visible ↔ i < root.nodeCount ∧ ∀ j, root.IsAbove j i → st.isExpanded j = true := by
  rw [visible_eq hst hsize, Node.mem_shown root [] 0, ← Node.walk_eq]
  simp only [Nat.zero_add, exists_eq_left', Node.Clear]
  rfl

/-! ## The frame -/

def Frame.ids (f : Frame α) : List Nat := f.nodes.map (·.id)

variable [Scalar α]

theorem ofParents_count (parents : List (Option Nat)) :
    (Layout.Shape.ofParents parents).count = parents.length := by
  have h (l : List (Option Nat × Nat)) (s : Layout.Shape) :
      (l.foldl (fun s p => s.add p.2 p.1) s).count = s.count := by
    induction l generalizing s with
    | nil => rfl
    | cons x l ih => exact ih _
  exact h _ _

theorem tidyTree_length (parents : List (Option Nat)) (breadth extent : α) (levels : Nat) :
    (Layout.tidyTree parents breadth extent levels).length = parents.length := by
  cases parents with
  | nil => rfl
  | cons p ps => simp [Layout.tidyTree, ofParents_count]

/-- The visible nodes stand on the frame in order; what is read off a placed node without its place
is what its item says. -/
theorem frame_nodes_map {β : Type} (st : TreeState α) (extent : Extent α) (look : Nat → Item α → β)
    (see : Placed α → β) (h : ∀ id it p, see (Placed.ofItem id it p) = look id it) :
    (st.frame extent).nodes.map see =
      st.visible.filterMap fun id => (st.item? id).map (look id) := by
  have hsee : (fun x : Nat × Point α => ((st.item? x.1).map fun it =>
      Placed.ofItem x.1 it x.2).map see) = (fun id => (st.item? id).map (look id)) ∘ Prod.fst := by
    funext x
    simp [Function.comp_def, h]
  rw [frame, List.map_filterMap, hsee, ← List.filterMap_map, List.map_fst_zip]
  rw [tidyTree_length, List.length_map]

theorem frame_ids {st : TreeState α} (h : ∀ i ∈ st.visible, i < st.size) (extent : Extent α) :
    (st.frame extent).ids = st.visible := by
  rw [Frame.ids, frame_nodes_map st extent (fun id _ => id) (·.id) fun _ _ _ => rfl]
  refine (List.filterMap_congr fun i hi => ?_).trans List.filterMap_some
  rw [item?, Array.getElem?_eq_getElem (h i hi)]
  rfl

/-- Every visible node with a parent is linked to it. -/
theorem frame_links (st : TreeState α) (extent : Extent α) :
    (st.frame extent).links =
      st.visible.filterMap fun id => ((st.item? id).bind (·.parent)).map fun p => (p, id) := by
  have hnodes := frame_nodes_map st extent (fun id it => it.parent.map fun p => (p, id))
    (fun n => n.parent.map fun p => (p, n.id)) fun _ _ _ => rfl
  have hlinks : (st.frame extent).links =
      ((st.frame extent).nodes.map fun n => n.parent.map fun p => (p, n.id)).filterMap id := by
    rw [List.filterMap_map]
    rfl
  rw [hlinks, hnodes, List.filterMap_filterMap]
  refine List.filterMap_congr fun i _ => ?_
  cases st.item? i <;> rfl

end TreeState

end SourceAtlas
