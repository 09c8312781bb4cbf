import SourceAtlas.Proofs.Diagram.Selection
import SourceAtlas.Proofs.Layout.Extent

/-! # Where the nodes of a view stand

The visible nodes and the slots of their parents are a tree in pre-order, whatever was clicked, and
a node lies as deep among them as it does in the whole tree. So what holds of every tidy tree holds
of every frame, while the columns depend on the whole tree only. -/

namespace SourceAtlas

namespace Node

variable {root : Node} {p q i : Nat}

theorem IsAbove.before (h : root.IsAbove p i) : p < i := by
  obtain ⟨s, _, hs, _⟩ := id h
  have hmem := (within_iff hs).mp (.inr h)
  rw [List.mem_range'_1] at hmem
  refine lt_of_le_of_ne hmem.1 ?_
  rintro rfl
  exact h.irrefl

theorem not_isParent_zero : ¬ root.IsParent p 0 := fun h => Nat.not_lt_zero p h.isAbove.before

/-- What stands above a node is its parent or stands above that. -/
theorem IsAbove.of_parent (h : root.IsAbove p i) (hq : root.IsParent q i) :
    p = q ∨ root.IsAbove p q := by
  obtain ⟨s, t, hs, ht, hprefix, hne⟩ := h
  obtain ⟨u, t', k, hu, ht', ha⟩ := hq
  cases ht.symm.trans ht'
  rw [ha, List.prefix_concat_iff, ← ha] at hprefix
  have hprefix := hprefix.resolve_left hne
  by_cases he : s.address = u.address
  · exact .inl (walk_inj hs hu he)
  · exact .inr ⟨s, u, hs, hu, hprefix, he⟩

/-- The nodes between a parent and its child stand below the parent. -/
theorem IsParent.between (h : root.IsParent p i) (hpq : p ≤ q) (hqi : q < i) :
    p = q ∨ root.IsAbove p q := by
  obtain ⟨s, _, _, hs, _⟩ := id h
  have hi := (within_iff hs).mp (.inr h.isAbove)
  rw [List.mem_range'_1] at hi
  exact ((within_iff hs).mpr (List.mem_range'_1.mpr ⟨hpq, by omega⟩)).imp_left Eq.symm

end Node

namespace TreeState

variable {α : Type} [Scalar α]

/-- For each visible node, the slot of its parent among them. -/
def parentSlots (st : TreeState α) : List (Option Nat) :=
  st.visible.map fun id =>
    ((st.item? id).bind (·.parent)).bind fun p => st.visible.findIdx? (· == p)

/-- The visible nodes take the points of the tidy tree in turn. -/
theorem frame_places {st : TreeState α} (h : ∀ i ∈ st.visible, i < st.size) (extent : Extent α) :
    (st.frame extent).nodes.map (fun n => (n.id, n.position)) =
      st.visible.zip (Layout.tidyTree st.parentSlots extent.breadth extent.depth st.levels) := by
  rw [frame, List.map_filterMap]
  refine (List.filterMap_congr fun x hx => ?_).trans List.filterMap_some
  obtain ⟨id, position⟩ := x
  obtain ⟨it, hit⟩ : ∃ it, st.item? id = some it :=
    ⟨_, Array.getElem?_eq_getElem (h id (List.of_mem_zip hx).1)⟩
  simp only [hit, Option.map_some, Placed.ofItem]

end TreeState

open TreeState

namespace TreeView

section Slots

variable {α : Type} [Scalar α] {root : Node} {dims : Dimensions α} {ids : List Nat} {v : TreeView α}

namespace Shows

theorem levels (h : Shows root dims ids v) : v.state.levels = root.height := by
  rw [← outline_levels, h.state, outline_levels, foldl_toggle_levels]
  rfl

theorem mem_places (h : Shows root dims ids v) {i : Nat} {p : Point α} :
    (∃ n ∈ v.frame.nodes, n.id = i ∧ n.position = p) ↔ ∃ k : Nat, v.state.visible[k]? = some i ∧
      (Layout.tidyTree v.state.parentSlots (Extent.ofDimensions dims).breadth
        (Extent.ofDimensions dims).depth root.height)[k]? = some p := by
  have hplaces := frame_places (fun i hi => h.size ▸ (h.mem_visible.mp hi).1) v.extent
  rw [← h.frame, extent, h.dims, h.levels] at hplaces
  have hmem : (∃ n ∈ v.frame.nodes, n.id = i ∧ n.position = p) ↔
      (i, p) ∈ v.frame.nodes.map fun n => (n.id, n.position) := by
    simp only [List.mem_map, Prod.mk.injEq]
  rw [hmem, hplaces, List.mem_iff_getElem?]
  simp only [List.getElem?_zip_eq_some]

/-- The slot of a visible node: the root has no parent, and that of every other node is visible. -/
theorem slot (h : Shows root dims ids v) {k i : Nat} (hk : v.state.visible[k]? = some i) :
    (i = 0 ∧ v.state.parentSlots[k]? = some none) ∨
      ∃ p j : Nat, root.IsParent p i ∧ v.state.visible[j]? = some p ∧
        v.state.parentSlots[k]? = some (some j) := by
  have hi := List.mem_of_getElem? hk
  rw [parentSlots, List.getElem?_map, hk, Option.map_some]
  obtain ⟨it, hit, ⟨hp, rfl⟩ | ⟨p, hp, hparent, _⟩⟩ := h.item_parent hi
  · exact .inl ⟨rfl, by rw [hit, Option.bind_some, hp, Option.bind_none]⟩
  · have hvis := h.above_visible hparent.isAbove hi
    obtain ⟨j, hj⟩ : ∃ j, v.state.visible.findIdx? (· == p) = some j := by
      rw [← Option.isSome_iff_exists, List.findIdx?_isSome, List.any_eq_true]
      exact ⟨p, hvis, beq_self_eq_true p⟩
    obtain ⟨hlt, hget, _⟩ := List.findIdx?_eq_some_iff_getElem.mp hj
    refine .inr ⟨p, j, hparent, ?_, ?_⟩
    · rw [List.getElem?_eq_getElem hlt, eq_of_beq hget]
    · rw [hit, Option.bind_some, hp, Option.bind_some, hj]

/-- The slots of the visible nodes are in the order of their positions. -/
theorem slot_lt_iff (h : Shows root dims ids v) {j k p q : Nat} (hj : v.state.visible[j]? = some p)
    (hk : v.state.visible[k]? = some q) : j < k ↔ p < q := by
  have hlt {j k p q : Nat} (hj : v.state.visible[j]? = some p) (hk : v.state.visible[k]? = some q)
      (hjk : j < k) : p < q := by
    obtain ⟨hjlt, rfl⟩ := List.getElem?_eq_some_iff.mp hj
    obtain ⟨hklt, rfl⟩ := List.getElem?_eq_some_iff.mp hk
    exact List.pairwise_iff_getElem.mp h.visible_increasing j k hjlt hklt hjk
  refine ⟨hlt hj hk, fun hpq => ?_⟩
  rcases Nat.lt_trichotomy j k with hjk | rfl | hkj
  · exact hjk
  · cases hj.symm.trans hk
    exact absurd hpq (Nat.lt_irrefl p)
  · exact absurd hpq (Nat.lt_asymm (hlt hk hj hkj))

theorem slot_le_iff (h : Shows root dims ids v) {j k p q : Nat} (hj : v.state.visible[j]? = some p)
    (hk : v.state.visible[k]? = some q) : j ≤ k ↔ p ≤ q := by
  rw [← Nat.not_lt, ← Nat.not_lt, h.slot_lt_iff hk hj]

/-- Visible nodes stand above each other as they do in the tree. -/
theorem above (h : Shows root dims ids v) {j k p q : Nat} (hj : v.state.visible[j]? = some p)
    (hk : v.state.visible[k]? = some q) (hpq : p = q ∨ root.IsAbove p q) :
    Layout.Above v.state.parentSlots j k := by
  induction q using Nat.strongRecOn generalizing k with
  | _ q ih =>
    rcases hpq with rfl | hpq
    · obtain rfl : j = k := Nat.le_antisymm ((h.slot_le_iff hj hk).mpr (Nat.le_refl p))
        ((h.slot_le_iff hk hj).mpr (Nat.le_refl p))
      exact .self
    · rcases h.slot hk with ⟨rfl, _⟩ | ⟨r, l, hr, hl, hslot⟩
      · exact absurd hpq.before (Nat.not_lt_zero p)
      · exact .up hslot (ih r hr.isAbove.before hl (hpq.of_parent hr))

theorem visible_zero (h : Shows root dims ids v) : v.state.visible[0]? = some 0 := by
  have hmem : 0 ∈ v.state.visible :=
    h.mem_visible.mpr ⟨root.nodeCount_pos, fun j hj => absurd hj.before (Nat.not_lt_zero j)⟩
  obtain ⟨k, hk⟩ := List.getElem?_of_mem hmem
  have hlt := (List.getElem?_eq_some_iff.mp hk).1
  have hfirst := List.getElem?_eq_getElem (Nat.zero_lt_of_lt hlt)
  obtain rfl : k = 0 := Nat.le_zero.mp ((h.slot_le_iff hk hfirst).mpr (Nat.zero_le _))
  exact hk

/-- Whatever is visible, the slots are those of a tree in pre-order. -/
theorem isPreorder (h : Shows root dims ids v) : Layout.IsPreorder v.state.parentSlots := by
  constructor
  · obtain ⟨_, hslot⟩ | ⟨p, _, hp, _⟩ := h.slot h.visible_zero
    · exact hslot
    · exact absurd hp Node.not_isParent_zero
  · intro k hk
    rw [parentSlots, List.length_map] at hk
    have hnext := List.getElem?_eq_getElem hk
    have hbefore := List.getElem?_eq_getElem (Nat.lt_of_succ_lt hk)
    have hlt := (h.slot_lt_iff hbefore hnext).mp (Nat.lt_succ_self k)
    obtain ⟨hzero, _⟩ | ⟨p, j, hp, hj, hslot⟩ := h.slot hnext
    · rw [hzero] at hlt
      exact absurd hlt (Nat.not_lt_zero _)
    · -- the parent stands before the child, so it is the node before or stands before that
      have hjk := (h.slot_lt_iff hj hnext).mpr hp.isAbove.before
      have hle := (h.slot_le_iff hj hbefore).mp (Nat.le_of_lt_succ hjk)
      exact ⟨j, hslot, h.above hj hbefore (hp.between hle hlt)⟩

theorem atDepth (h : Shows root dims ids v) {k i : Nat} {s : Spot}
    (hk : v.state.visible[k]? = some i) (hs : root.walk[i]? = some s) :
    Layout.AtDepth v.state.parentSlots k s.address.length := by
  induction i using Nat.strongRecOn generalizing k s with
  | _ i ih =>
    rcases h.slot hk with ⟨rfl, hslot⟩ | ⟨p, j, hp, hj, hslot⟩
    · rw [(Node.address_eq_nil hs).mpr rfl]
      exact .root hslot
    · obtain ⟨t, s', c, ht, hs', ha⟩ := id hp
      cases hs.symm.trans hs'
      rw [ha, List.length_append]
      exact .child hslot (ih p hp.isAbove.before hj ht)

end Shows

/-- The views of a tree that a user can come to. -/
inductive Reachable (root : Node) (dims : Dimensions α) : TreeView α → Prop
  | start : Reachable root dims (TreeView.ofTree root dims)
  | press {v : TreeView α} (c : Click) : Reachable root dims v → Reachable root dims (v.press c).2
  | select {v : TreeView α} (other : Node) (id : Nat) :
      Reachable root dims v → Reachable root dims (v.select other id).2

/-- Selecting a node of whatever tree clicks on it or does nothing. -/
theorem select_snd (v : TreeView α) (other : Node) (id : Nat) :
    (v.select other id).2 = v ∨ (v.select other id).2 = (v.press (.node id)).2 := by
  rw [select, TreeView.press]
  split
  · next hclick => exact .inr (congrArg Prod.snd hclick).symm
  · exact .inl rfl

theorem Shows.exists_press (h : Shows root dims ids v) (c : Click) :
    ∃ ids', Shows root dims ids' (v.press c).2 := by
  cases hc : c.target root with
  | none => exact ⟨ids, by rwa [h.press_none hc]⟩
  | some i => exact ⟨_, h.press hc⟩

theorem Reachable.shows (h : Reachable root dims v) : ∃ ids, Shows root dims ids v := by
  induction h with
  | start => exact ⟨[], .ofTree root dims⟩
  | press c _ ih =>
    obtain ⟨_, ih⟩ := ih
    exact ih.exists_press c
  | @select v other id _ ih =>
    obtain ⟨ids, ih⟩ := ih
    rcases v.select_snd other id with hv | hv
    · exact ⟨ids, by rwa [hv]⟩
    · rw [hv]
      exact ih.exists_press _

end Slots

section Exact

variable {root : Node} {dims : Dimensions Rat} {ids : List Nat} {v : TreeView Rat}

/-- A node of a frame stands in the column of its depth in the whole tree. -/
theorem Shows.column (h : Shows root dims ids v) {n : Placed Rat} (hn : n ∈ v.frame.nodes) :
    ∃ s, root.walk[n.id]? = some s ∧ n.depth = s.address.length ∧
      n.position.y = n.depth * ((Extent.ofDimensions dims).depth / (root.height + 1)) := by
  obtain ⟨k, hk, hpoint⟩ := h.mem_places.mp ⟨n, hn, rfl, rfl⟩
  have hid : n.id < root.walk.length := by
    rw [Node.walk_length]
    exact (h.mem_visible.mp (List.mem_of_getElem? hk)).1
  have hs := List.getElem?_eq_getElem hid
  obtain ⟨_, _, hdepth, _⟩ := h.placed hn hs
  refine ⟨_, hs, hdepth, ?_⟩
  rw [hdepth]
  exact Layout.tidyTree_y h.isPreorder (h.atDepth hk hs) _ _ _ hpoint

/-- Across the breadth the nodes of a frame leave the same room free at both ends. -/
theorem Shows.room (h : Shows root dims ids v) (hb : 0 < (Extent.ofDimensions dims).breadth) :
    ∃ room : Rat, 0 < room ∧
      (∀ n ∈ v.frame.nodes, room ≤ n.position.x ∧
        n.position.x ≤ (Extent.ofDimensions dims).breadth - room) ∧
      (∃ a ∈ v.frame.nodes, a.position.x = room) ∧
      ∃ b ∈ v.frame.nodes, b.position.x = (Extent.ofDimensions dims).breadth - room := by
  obtain ⟨room, hroom, hall, ⟨p, hp, hleft⟩, q, hq, hright⟩ :=
    Layout.tidyTree_breadth h.isPreorder hb (Extent.ofDimensions dims).depth root.height
  have hnode {p : Point Rat} (hp : p ∈ Layout.tidyTree v.state.parentSlots
      (Extent.ofDimensions dims).breadth (Extent.ofDimensions dims).depth root.height) :
      ∃ n ∈ v.frame.nodes, n.position = p := by
    obtain ⟨k, hk⟩ := List.getElem?_of_mem hp
    have hlt : k < v.state.visible.length := by
      have := (List.getElem?_eq_some_iff.mp hk).1
      rwa [tidyTree_length, parentSlots, List.length_map] at this
    obtain ⟨n, hn, _, hpos⟩ := h.mem_places.mpr ⟨k, List.getElem?_eq_getElem hlt, hk⟩
    exact ⟨n, hn, hpos⟩
  refine ⟨room, hroom, fun n hn => ?_, ?_, ?_⟩
  · obtain ⟨k, _, hpoint⟩ := h.mem_places.mp ⟨n, hn, rfl, rfl⟩
    exact hall _ (List.mem_of_getElem? hpoint)
  · obtain ⟨a, ha, rfl⟩ := hnode hp
    exact ⟨a, ha, hleft⟩
  · obtain ⟨b, hb, rfl⟩ := hnode hq
    exact ⟨b, hb, hright⟩

/-- The frame of every view that a user can come to lies inside its area. The column of a node is
given by its depth and the height of the whole tree, hence is the same in all frames that show the
node, and the outermost nodes are as far from the two ends of the breadth. -/
theorem reachable_placement (hb : 0 < (Extent.ofDimensions dims).breadth)
    (hd : 0 < (Extent.ofDimensions dims).depth) (h : Reachable root dims v) :
    let area := Extent.ofDimensions dims
    v.frame.ids = v.state.visible ∧
    (∀ n ∈ v.frame.nodes, (0 < n.position.x ∧ n.position.x < area.breadth) ∧
      0 ≤ n.position.y ∧ n.position.y < area.depth) ∧
    (∀ n ∈ v.frame.nodes, ∃ s, root.walk[n.id]? = some s ∧
      n.depth = (root.ancestors s.address).length ∧
      n.position.y = n.depth * (area.depth / (root.height + 1))) ∧
    (∀ w, Reachable root dims w → ∀ n ∈ v.frame.nodes, ∀ m ∈ w.frame.nodes, n.id = m.id →
      n.position.y = m.position.y) ∧
    ∃ a ∈ v.frame.nodes, ∃ b ∈ v.frame.nodes,
      (∀ n ∈ v.frame.nodes, a.position.x ≤ n.position.x ∧ n.position.x ≤ b.position.x) ∧
      a.position.x - 0 = area.breadth - b.position.x := by
  intro area
  obtain ⟨ids, hv⟩ := h.shows
  obtain ⟨room, hroom, hall, ⟨a, ha, hleft⟩, b, hb, hright⟩ := hv.room hb
  refine ⟨hv.frame_ids, fun n hn => ⟨?_, ?_⟩, fun n hn => ?_, fun w hw n hn m hm hid => ?_,
    a, ha, b, hb, fun n hn => ?_, ?_⟩
  · obtain ⟨hge, hle⟩ := hall n hn
    constructor <;> linarith
  · obtain ⟨s, hs, hdepth, hy⟩ := hv.column hn
    have hcolumn : 0 < area.depth / (root.height + 1) := div_pos hd (by positivity)
    have hlt : (n.depth : Rat) < root.height + 1 := by
      have := Node.length_le_height (Node.at?_of_mem_walk (List.mem_of_getElem? hs))
      exact_mod_cast Nat.lt_succ_of_le (hdepth ▸ this)
    rw [hy]
    constructor
    · exact mul_nonneg (Nat.cast_nonneg _) (le_of_lt hcolumn)
    · calc
        _ < (root.height + 1) * (area.depth / (root.height + 1)) :=
          mul_lt_mul_of_pos_right hlt hcolumn
        _ = area.depth := mul_div_cancel₀ _ (by positivity)
  · obtain ⟨s, hs, hdepth, hy⟩ := hv.column hn
    refine ⟨s, hs, ?_, hy⟩
    rw [hdepth, Node.ancestors_length (Node.at?_of_mem_walk (List.mem_of_getElem? hs))]
  · obtain ⟨_, hw⟩ := hw.shows
    obtain ⟨s, hs, hdepth, hy⟩ := hv.column hn
    obtain ⟨t, ht, hdepth', hy'⟩ := hw.column hm
    rw [hid] at hs
    cases hs.symm.trans ht
    rw [hy, hy', hdepth, hdepth']
  · obtain ⟨hge, hle⟩ := hall n hn
    exact ⟨hleft ▸ hge, hright ▸ hle⟩
  · rw [hleft, hright]
    ring

/-- The file of a directory that was expanded by its name keeps its column when it is selected. -/
theorem reachable_placement_sample :
    let root := Node.directory "src" [Node.directory "lib" [Node.file "a.c"], Node.file "b.c"]
    let dims : Dimensions Rat := Dimensions.ofSize 960 600
    let v := ((TreeView.ofTree root dims).press (.named "lib")).2
    0 < (Extent.ofDimensions dims).breadth ∧ 0 < (Extent.ofDimensions dims).depth ∧
      Reachable root dims v ∧ Reachable root dims (v.select root 2).2 ∧
      ∃ n ∈ v.frame.nodes, n.id = 2 ∧ n.position.y = 750 ∧
        ∀ m ∈ (v.select root 2).2.frame.nodes, m.id = 2 → m.position.y = 750 := by
  intro root dims v
  have hbreadth : 0 < (Extent.ofDimensions dims).breadth := by decide +kernel
  have hdepth : (Extent.ofDimensions dims).depth = 1125 := by decide +kernel
  have hpos : 0 < (Extent.ofDimensions dims).depth := by rw [hdepth]; norm_num
  have hv : Reachable root dims v := .press _ .start
  have hw : Reachable root dims (v.select root 2).2 := .select root 2 hv
  obtain ⟨_, _, hcolumn, hsame, _⟩ := reachable_placement hbreadth hpos hv
  have hmem : 2 ∈ v.frame.ids := by decide +kernel
  obtain ⟨n, hn, hid⟩ := List.mem_map.mp hmem
  have hy : n.position.y = 750 := by
    obtain ⟨s, hs, hlen, hy⟩ := hcolumn n hn
    have hs' : root.walk[2]? = some ⟨[0, 0], Node.file "a.c"⟩ := by
      rw [Node.walk_eq]
      rfl
    rw [hid] at hs
    cases hs'.symm.trans hs
    have hlen : n.depth = 2 := hlen
    have hheight : root.height = 2 := by decide
    rw [hy, hlen, hheight, hdepth]
    norm_num
  exact ⟨hbreadth, hpos, hv, hw, n, hn, hid, hy, fun m hm hmid =>
    (hsame _ hw n hn m hm (hid.trans hmid.symm)).symm.trans hy⟩

end Exact

end TreeView

end SourceAtlas
