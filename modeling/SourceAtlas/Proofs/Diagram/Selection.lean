import SourceAtlas.Proofs.Diagram.Clicks
import SourceAtlas.Proofs.Diagram.Positions

/-! # The collapsible tree as an image of the tree

Item by item, the flat state says what the tree says: whose child a node is, which children it has
and how deep it lies. The clicks change none of that, so the node that a click selects is the one
that is drawn under its position. -/

namespace SourceAtlas

namespace Node

theorem height_eq (n : Node) : n.height = heightBelow n.children := by
  cases n with
  | mk e cs => cases cs <;> rfl

theorem height_lt_heightBelow {c : Node} {cs : List Node} (h : c ∈ cs) :
    c.height < heightBelow cs := by
  induction cs with
  | nil => cases h
  | cons n ns ih =>
    rw [heightBelow]
    rcases List.mem_cons.mp h with rfl | h
    · omega
    · have := ih h
      omega

theorem heightBelow_eq {cs : List Node} (h : cs ≠ []) :
    ∃ c ∈ cs, heightBelow cs = c.height + 1 := by
  induction cs with
  | nil => exact absurd rfl h
  | cons n ns ih =>
    rw [heightBelow]
    by_cases hns : ns = []
    · exact ⟨n, List.mem_cons_self, by rw [hns, heightBelow]; omega⟩
    · obtain ⟨c, hc, heq⟩ := ih hns
      by_cases hle : heightBelow ns ≤ n.height + 1
      · exact ⟨n, List.mem_cons_self, by omega⟩
      · exact ⟨c, List.mem_cons_of_mem _ hc, by omega⟩

theorem length_le_height {n m : Node} {a : List Nat} (h : n.at? a = some m) :
    a.length ≤ n.height := by
  induction a generalizing n with
  | nil => exact Nat.zero_le _
  | cons k a ih =>
    obtain ⟨c, hc, h⟩ := at?_cons_eq_some.mp h
    have := ih h
    have := height_lt_heightBelow (List.mem_of_getElem? hc)
    rw [height_eq, List.length_cons]
    omega

/-- Some address is as long as the tree is high. -/
theorem exists_length_eq_height (n : Node) : ∃ a m, n.at? a = some m ∧ a.length = n.height := by
  induction n using byChildren with
  | step n ih =>
    by_cases h : n.children = []
    · exact ⟨[], n, rfl, by rw [height_eq, h]; rfl⟩
    · obtain ⟨c, hc, heq⟩ := heightBelow_eq h
      obtain ⟨a, m, ha, hlen⟩ := ih c hc
      obtain ⟨k, hk⟩ := List.getElem?_of_mem hc
      refine ⟨k :: a, m, at?_cons_eq_some.mpr ⟨c, hk, ha⟩, ?_⟩
      rw [height_eq, heq, List.length_cons, hlen]

end Node

namespace TreeState

variable {α : Type}

theorem startIds_increasing (id : Nat) (ns : List Node) : (startIds id ns).Pairwise (· < ·) := by
  rw [← Node.starts_fst, List.pairwise_map]
  exact Node.starts_increasing id ns

/-- The children of an item stand in the order of the tree. -/
theorem startIds_getElem? {root : Node} {i : Nat} {s : Spot} (hs : root.walk[i]? = some s)
    {k j : Nat} : (startIds (i + 1) s.node.children)[k]? = some j ↔
      ∃ t, root.walk[j]? = some t ∧ t.address = s.address ++ [k] := by
  rw [← Node.starts_fst, List.getElem?_map, Option.map_eq_some_iff]
  constructor
  · rintro ⟨⟨p, c⟩, hk, rfl⟩
    exact ⟨_, Node.walk_child hs hk, rfl⟩
  · rintro ⟨t, ht, ha⟩
    have hmem := (Node.isParent_iff hs).mp ⟨s, t, k, hs, ht, ha⟩
    rw [← Node.starts_fst] at hmem
    obtain ⟨⟨p, c⟩, hstart, rfl⟩ := List.mem_map.mp hmem
    obtain ⟨k', hk'⟩ := List.getElem?_of_mem hstart
    have hchild := Node.walk_child hs hk'
    rw [ht, Option.some.injEq] at hchild
    -- the same child has one number only
    obtain rfl : k = k' := by
      rw [hchild, List.append_cancel_left_eq, List.singleton_inj] at ha
      exact ha.symm
    exact ⟨(p, c), hk', rfl⟩

theorem Item.Describes.parent_iff {root : Node} {i : Nat} {it : Item α} {s : Spot}
    (h : it.Describes root.walk i s) (hs : root.walk[i]? = some s) {p : Nat} :
    it.parent = some p ↔ root.IsParent p i := by
  rcases h.parent_eq hs with ⟨hnone, rfl⟩ | ⟨q, hq, hparent, _⟩
  · rw [hnone]
    constructor
    · rintro ⟨⟩
    · rintro ⟨t, s', k, _, hs', ha⟩
      rw [(Node.address_eq_nil hs').mpr rfl] at ha
      simp at ha
  · rw [hq, Option.some.injEq]
    constructor
    · rintro rfl
      exact hparent
    · intro hp
      exact hparent.unique hp

theorem Item.Describes.parent_none {root : Node} {i : Nat} {it : Item α} {s : Spot}
    (h : it.Describes root.walk i s) (hs : root.walk[i]? = some s) : it.parent = none ↔ i = 0 := by
  rcases h.parent_eq hs with ⟨hnone, hi⟩ | ⟨q, hq, _, hi⟩
  · simp [hnone, hi]
  · simp [hq, hi]

variable [Scalar α]

theorem item?_spot {root : Node} {i : Nat} {it : Item α}
    (h : (ofTree root : TreeState α).item? i = some it) :
    ∃ s, root.walk[i]? = some s ∧ it.Describes root.walk i s := by
  have hi : i < root.walk.length := by
    obtain ⟨hi, _⟩ := Array.getElem?_eq_some_iff.mp h
    rwa [Node.walk_length, ← ofTree_size (α := α)]
  obtain ⟨it', hit', hdesc, _⟩ := ofTree_describes (α := α) (List.getElem?_eq_getElem hi)
  rw [h] at hit'
  cases hit'
  exact ⟨_, List.getElem?_eq_getElem hi, hdesc⟩

/-- The levels of a state reach down to its deepest item. -/
theorem levels_eq (root : Node) :
    (∀ i it, (ofTree root : TreeState α).item? i = some it → it.depth ≤ root.height) ∧
      ∃ i it, (ofTree root : TreeState α).item? i = some it ∧ it.depth = root.height := by
  constructor
  · intro i it hit
    obtain ⟨s, hs, hdesc⟩ := item?_spot hit
    rw [hdesc.depth]
    exact Node.length_le_height (Node.at?_of_mem_walk (List.mem_of_getElem? hs))
  · obtain ⟨a, m, ha, hlen⟩ := root.exists_length_eq_height
    obtain ⟨i, hi⟩ := List.getElem?_of_mem (Node.mem_walk.mpr ha : ⟨a, m⟩ ∈ root.walk)
    obtain ⟨it, hit, hdesc, _⟩ := ofTree_describes (α := α) hi
    exact ⟨i, it, hit, by rw [hdesc.depth, hlen]⟩

end TreeState

namespace TreeView

open TreeState

variable {α : Type} [Scalar α]

namespace Shows

variable {root : Node} {dims : Dimensions α} {ids : List Nat} {v : TreeView α}

/-- What is drawn under a position is the node that stands there. -/
theorem placed (h : Shows root dims ids v) {n : Placed α} (hn : n ∈ v.frame.nodes) {s : Spot}
    (hs : root.walk[n.id]? = some s) : n.name = s.node.name ∧
      n.category = Category.ofNode s.node ∧ n.depth = s.address.length ∧
      n.hasChildren = !s.node.children.isEmpty := by
  rw [h.frame, TreeState.frame, List.mem_filterMap] at hn
  obtain ⟨⟨id, position⟩, _, hn⟩ := hn
  obtain ⟨it, hit, rfl⟩ := Option.map_eq_some_iff.mp hn
  obtain ⟨it', hit', hdesc, _⟩ := h.item hs
  cases hit.symm.trans hit'
  refine ⟨hdesc.name, hdesc.category, hdesc.depth, ?_⟩
  show (!it.children.isEmpty) = _
  rw [hdesc.children]
  cases s.node.children <;> rfl

theorem select (h : Shows root dims ids v) {i : Nat} {s : Spot} (hs : root.walk[i]? = some s) :
    ∃ t, v.select root i = (some (t, .full s.node), (v.click i).2) := by
  obtain ⟨it, hit, _⟩ := h.item hs
  rw [TreeView.select, Subject.at?_eq, hs, TreeView.click, hit]
  exact ⟨_, rfl⟩

end Shows

theorem select_none {root : Node} {i : Nat} (hi : root.nodeCount ≤ i) (v : TreeView α) :
    v.select root i = (none, v) := by
  rw [← Node.walk_length, ← List.getElem?_eq_none_iff] at hi
  rw [TreeView.select, Subject.at?_eq, hi]
  rfl

/-- The state of a tree has one item for each node, in the order of the walk. An item has the name
and the category of its node and counts the nodes above it; it names its parent, which only the root
does not have, and its children in increasing order, which is that of the tree. The levels are the
greatest depth. After any clicks a position selects a node exactly if it is one of the tree, and it
is the node that is drawn there, before and after. -/
theorem ofTree_arena (root : Node) (dims : Dimensions α) :
    let st : TreeState α := TreeState.ofTree root
    st.size = root.nodeCount ∧
    (∀ (i : Nat) (s : Spot), root.walk[i]? = some s → ∃ it, st.item? i = some it ∧
      it.name = s.node.name ∧ it.category = Category.ofNode s.node ∧
      it.depth = (root.ancestors s.address).length ∧
      (∀ p, it.parent = some p ↔ root.IsParent p i) ∧ (it.parent = none ↔ i = 0) ∧
      it.children.Pairwise (· < ·) ∧
      ∀ k j, it.children[k]? = some j ↔
        ∃ t, root.walk[j]? = some t ∧ t.address = s.address ++ [k]) ∧
    ((∀ i it, st.item? i = some it → it.depth ≤ st.levels) ∧
      ∃ i it, st.item? i = some it ∧ it.depth = st.levels) ∧
    ∀ clicks id, let v := (TreeView.ofTree root dims).after clicks
      ((v.select root id).1.isSome ↔ id < root.nodeCount) ∧
      (v.select root id).2 = (v.press (.node id)).2 ∧
      ∀ t subject, (v.select root id).1 = some (t, subject) →
        ∃ s, root.walk[id]? = some s ∧ subject = .full s.node ∧
          ∀ n ∈ v.frame.nodes ++ (v.select root id).2.frame.nodes, n.id = id →
            n.name = s.node.name ∧ n.category = Category.ofNode s.node ∧
            n.depth = (root.ancestors s.address).length ∧
            n.hasChildren = !s.node.children.isEmpty := by
  intro st
  have hdepth {i : Nat} {s : Spot} (hs : root.walk[i]? = some s) :
      (root.ancestors s.address).length = s.address.length :=
    Node.ancestors_length (Node.at?_of_mem_walk (List.mem_of_getElem? hs))
  refine ⟨ofTree_size root, ?_, levels_eq root, ?_⟩
  · intro i s hs
    obtain ⟨it, hit, hdesc, _⟩ := ofTree_describes (α := α) hs
    refine ⟨it, hit, hdesc.name, hdesc.category, ?_, fun p => hdesc.parent_iff hs,
      hdesc.parent_none hs, ?_, ?_⟩
    · rw [hdesc.depth, hdepth hs]
    · rw [hdesc.children]
      exact startIds_increasing _ _
    · intro k j
      rw [hdesc.children]
      exact startIds_getElem? hs
  · intro clicks id v
    have h : Shows root dims (root.hits clicks) v := (Shows.ofTree root dims).after clicks
    by_cases hid : id < root.nodeCount
    · obtain ⟨s, hs⟩ : ∃ s, root.walk[id]? = some s :=
        ⟨_, List.getElem?_eq_getElem (by rwa [Node.walk_length])⟩
      obtain ⟨t, ht⟩ := h.select hs
      refine ⟨by simp [ht, hid], by rw [ht]; rfl, ?_⟩
      intro t' subject hsel
      rw [ht, Option.some.injEq, Prod.mk.injEq] at hsel
      refine ⟨s, hs, hsel.2.symm, fun n hn hnid => ?_⟩
      rw [hdepth hs]
      rw [ht] at hn
      subst hnid
      rcases List.mem_append.mp hn with hn | hn
      · exact h.placed hn hs
      · exact (h.click hid).placed hn hs
    · have hnone := select_none (Nat.le_of_not_lt hid) v
      have hclick := h.click_none (Nat.le_of_not_lt hid)
      refine ⟨by simp [hnone, hid], ?_, ?_⟩
      · rw [hnone]
        exact (congrArg Prod.snd hclick).symm
      · intro t subject hsel
        rw [hnone] at hsel
        cases hsel

/-- The file of a directory that was expanded by its name: its item, and what a click on it
selects. -/
theorem ofTree_arena_sample :
    let root := Node.directory "src" [Node.directory "lib" [Node.file "a.c"], Node.file "b.c"]
    let v := (TreeView.ofTree root (Dimensions.standard : Dimensions Float)).after
      [.named "lib", .node 9]
    (∃ it, (TreeState.ofTree root : TreeState Float).item? 2 = some it ∧ it.name = "a.c" ∧
      it.depth = 2 ∧ it.parent ≠ none ∧ it.children = []) ∧
    ∃ t, (v.select root 2).1 = some (t, .full (Node.file "a.c")) := by
  intro root v
  have hs : root.walk[2]? = some ⟨[0, 0], Node.file "a.c"⟩ := by
    rw [Node.walk_eq]
    rfl
  obtain ⟨_, hitems, _, hselect⟩ := ofTree_arena root (Dimensions.standard : Dimensions Float)
  obtain ⟨it, hit, hname, _, hdepth, _, hnone, _, hchildren⟩ := hitems 2 _ hs
  constructor
  · refine ⟨it, hit, hname, hdepth, hnone.not.mpr (by decide), ?_⟩
    cases hc : it.children with
    | nil => rfl
    | cons j js =>
      obtain ⟨t, ht, ha⟩ := (hchildren 0 j).mp (by rw [hc]; rfl)
      have hat := Node.at?_of_mem_walk (List.mem_of_getElem? ht)
      rw [ha] at hat
      cases hat
  · obtain ⟨hsome, _, hsubject⟩ := hselect [.named "lib", .node 9] 2
    obtain ⟨⟨t, subject⟩, ht⟩ := Option.isSome_iff_exists.mp (hsome.mpr (by decide))
    obtain ⟨s, hs', hfull, _⟩ := hsubject t subject ht
    cases hs.symm.trans hs'
    exact ⟨t, ht.trans (by rw [hfull])⟩

end TreeView

end SourceAtlas
