import SourceAtlas.Diagram.TreeView
import SourceAtlas.Proofs.Diagram.Outline

/-! # Runs of clicks

A click names a node by its position or by its name, and may name none. What a view shows after any
number of clicks is determined by how often each node was hit: the clicks that hit nothing leave no
trace, and each of the others toggles one node. -/

namespace SourceAtlas

open TreeState

/-- What is clicked: a node given by its position, or the first node with a name. -/
inductive Click where
  | node (id : Nat)
  | named (name : String)
  deriving DecidableEq, Repr

def Click.target (root : Node) : Click → Option Nat
  | .node id => if id < root.nodeCount then some id else none
  | .named name => root.idOf name

/-- The positions hit by a sequence of clicks, one for each click that hits a node. -/
def Node.hits (root : Node) (clicks : List Click) : List Nat := clicks.filterMap (·.target root)

namespace TreeView

variable {α : Type} [Scalar α]

def press (v : TreeView α) : Click → Option (Transition α) × TreeView α
  | .node id => v.click id
  | .named name => v.clickName name

def after (v : TreeView α) (clicks : List Click) : TreeView α :=
  clicks.foldl (fun v c => (v.press c).2) v

/-- The view of a tree whose nodes have been toggled at the given positions, in any order. Its frame
is up to date. -/
structure Shows (root : Node) (dims : Dimensions α) (ids : List Nat) (v : TreeView α) : Prop where
  state : v.state.outline = (ids.foldl toggle (TreeState.ofTree root)).outline
  frame : v.frame = v.state.frame v.extent
  dims : v.dims = dims

namespace Shows

variable {root : Node} {dims : Dimensions α} {ids : List Nat} {v : TreeView α}

/-! ## One click -/

/-- Laying the tree out anew keeps the outline and brings the frame up to date. -/
theorem refresh (hs : v.state.outline = (ids.foldl toggle (TreeState.ofTree root)).outline)
    (hd : v.dims = dims) (source : Nat) (origin : Point α) :
    Shows root dims ids (v.refresh source origin).2 := by
  have hrec : (v.state.record (v.state.frame v.extent)).outline = v.state.outline :=
    outline_record ..
  refine ⟨hrec.trans hs, ?_, hd⟩
  show v.state.frame v.extent = (v.state.record (v.state.frame v.extent)).frame v.extent
  rw [← outline_frame (v.state.record _), hrec, outline_frame]

theorem ofTree (root : Node) (dims : Dimensions α) :
    Shows root dims [] (TreeView.ofTree root dims) := by
  let fresh : TreeView α := ⟨TreeState.ofTree root, dims, Frame.blank, none⟩
  have hstate :
      fresh.state.outline = (([] : List Nat).foldl toggle (TreeState.ofTree root)).outline :=
    rfl
  exact refresh hstate rfl 0 ⟨fresh.extent.breadth / 2.0, 0.0⟩

theorem size (h : Shows root dims ids v) : v.state.size = root.nodeCount := by
  rw [← outline_size, h.state, outline_size, foldl_toggle_size, ofTree_size]

/-- The item at a position still describes its node. It is expanded when, starting with the root
alone expanded, an item with children is flipped once for each hit. -/
theorem item (h : Shows root dims ids v) {i : Nat} {s : Spot} (hs : root.walk[i]? = some s) :
    ∃ it, v.state.item? i = some it ∧ it.Describes root.walk i s ∧ it.expanded =
      if s.node.children = [] then i == 0 else not^[ids.count i] (i == 0) := by
  obtain ⟨fresh, hfresh, hdesc, hexp⟩ := ofTree_describes (α := α) hs
  have hout := congrArg (·.item? i) h.state
  simp only [outline_item?, foldl_toggle_item?, hfresh, Option.map_some] at hout
  obtain ⟨it, hit, ho⟩ := Option.map_eq_some_iff.mp hout
  refine ⟨it, hit, (hdesc.toggled _).of_outline ho, ?_⟩
  have hroot : s.address.isEmpty = (i == 0) := by
    rw [Bool.eq_iff_iff, List.isEmpty_iff, beq_iff_eq]
    exact Node.address_eq_nil hs
  have hchildren : fresh.children.isEmpty = true ↔ s.node.children = [] := by
    rw [hdesc.children]
    cases s.node.children <;> simp [startIds]
  have hflag : it.expanded = (fresh.toggled (ids.count i)).expanded := congrArg (·.expanded) ho
  rw [hflag, Item.toggled, ← hroot, ← hexp]
  by_cases hc : s.node.children = []
  · rw [if_pos hc, if_pos (hchildren.mpr hc)]
  · rw [if_neg hc, if_neg (mt hchildren.mp hc)]

theorem item?_none (h : Shows root dims ids v) {i : Nat} (hi : root.nodeCount ≤ i) :
    v.state.item? i = none := by
  rw [← h.size] at hi
  exact Array.getElem?_eq_none hi

theorem idOf (h : Shows root dims ids v) (name : String) : v.state.idOf name = root.idOf name := by
  have hnames : v.state.items.toList.map (·.name) = root.preorder.map (·.name) := by
    rw [← Node.spotsAt_nodes [], ← Node.walk_eq, List.map_map]
    refine List.ext_getElem? fun i => ?_
    rw [List.getElem?_map, List.getElem?_map, Array.getElem?_toList]
    cases hs : root.walk[i]? with
    | none =>
      rw [List.getElem?_eq_none_iff, Node.walk_length] at hs
      exact congrArg (Option.map _) (h.item?_none hs)
    | some s =>
      obtain ⟨it, hit, hdesc, _⟩ := h.item hs
      rw [Option.map_some, Function.comp_apply, ← hdesc.name]
      exact congrArg (Option.map _) hit
  have hfind := congrArg (List.findIdx? (· == name)) hnames
  rw [List.findIdx?_map, List.findIdx?_map] at hfind
  exact (List.findIdx?_toArray _ v.state.items.toList).trans hfind

theorem click (h : Shows root dims ids v) {i : Nat} (hi : i < root.nodeCount) :
    Shows root dims (ids ++ [i]) (v.click i).2 := by
  rw [← Node.walk_length] at hi
  obtain ⟨it, hit, _, _⟩ := h.item (List.getElem?_eq_getElem hi)
  let toggled : TreeView α := { v with state := v.state.toggle i }
  have hstate : toggled.state.outline =
      ((ids ++ [i]).foldl toggle (TreeState.ofTree root)).outline := by
    show (v.state.toggle i).outline = _
    rw [List.foldl_append, List.foldl_cons, List.foldl_nil, outline_toggle, outline_toggle, h.state]
  rw [TreeView.click, hit]
  exact refresh hstate h.dims i it.position

theorem click_none (h : Shows root dims ids v) {i : Nat} (hi : root.nodeCount ≤ i) :
    v.click i = (none, v) := by
  rw [TreeView.click, h.item?_none hi]

theorem press_eq (h : Shows root dims ids v) {c : Click} {i : Nat} (hc : c.target root = some i) :
    v.press c = v.click i ∧ i < root.nodeCount := by
  cases c with
  | node id =>
    rw [Click.target, Option.ite_none_right_eq_some] at hc
    obtain ⟨hid, hi⟩ := hc
    cases hi
    exact ⟨rfl, hid⟩
  | named name =>
    have hname : root.idOf name = some i := hc
    refine ⟨?_, ?_⟩
    · rw [TreeView.press, clickName, h.idOf, hname]
    · obtain ⟨hi, _⟩ := List.findIdx?_eq_some_iff_getElem.mp hname
      rwa [Node.preorder_length] at hi

/-- A click that hits a node toggles it. -/
theorem press (h : Shows root dims ids v) {c : Click} {i : Nat} (hc : c.target root = some i) :
    Shows root dims (ids ++ [i]) (v.press c).2 := by
  obtain ⟨heq, hi⟩ := h.press_eq hc
  rw [heq]
  exact h.click hi

/-- A click that hits no node leaves everything as it is. -/
theorem press_none (h : Shows root dims ids v) {c : Click} (hc : c.target root = none) :
    v.press c = (none, v) := by
  cases c with
  | node id =>
    rw [Click.target, ite_eq_right_iff] at hc
    exact h.click_none (Nat.le_of_not_lt fun hid => by cases hc hid)
  | named name =>
    have hname : root.idOf name = none := hc
    rw [TreeView.press, clickName, h.idOf, hname]

/-! ## Runs -/

theorem after (h : Shows root dims ids v) (clicks : List Click) :
    Shows root dims (ids ++ root.hits clicks) (v.after clicks) := by
  induction clicks generalizing v ids with
  | nil => simpa [Node.hits, TreeView.after] using h
  | cons c clicks ih =>
    show Shows root dims _ ((v.press c).2.after clicks)
    cases hc : c.target root with
    | none =>
      rw [h.press_none hc, Node.hits, List.filterMap_cons_none hc]
      exact ih h
    | some i =>
      rw [Node.hits, List.filterMap_cons_some hc, List.append_cons]
      exact ih (h.press hc)

/-! ## What a view shows -/

theorem isExpanded (h : Shows root dims ids v) {i : Nat} {s : Spot} (hs : root.walk[i]? = some s) :
    v.state.isExpanded i =
      if s.node.children = [] then i == 0 else not^[ids.count i] (i == 0) := by
  obtain ⟨it, hit, _, hexp⟩ := h.item hs
  rw [TreeState.isExpanded, hit, ← hexp]
  rfl

theorem keeps (h : Shows root dims ids v) : v.state.Keeps root.walk := by
  intro i s hs
  obtain ⟨it, hit, hdesc, _⟩ := h.item hs
  rw [children, hit, ← hdesc.children]
  rfl

theorem mem_visible (h : Shows root dims ids v) {i : Nat} : i ∈ v.state.visible ↔
    i < root.nodeCount ∧ ∀ j, root.IsAbove j i → v.state.isExpanded j = true :=
  TreeState.mem_visible h.keeps h.size

theorem frame_ids (h : Shows root dims ids v) : v.frame.ids = v.state.visible := by
  rw [h.frame]
  refine TreeState.frame_ids (fun i hi => ?_) _
  rw [h.size]
  exact (h.mem_visible.mp hi).1

theorem visible_increasing (h : Shows root dims ids v) : v.state.visible.Pairwise (· < ·) := by
  rw [visible_eq h.keeps h.size]
  exact Node.shown_increasing root 0

/-- With a node all those above it are visible. -/
theorem above_visible (h : Shows root dims ids v) {j i : Nat} (hj : root.IsAbove j i)
    (hi : i ∈ v.state.visible) : j ∈ v.state.visible := by
  obtain ⟨_, habove⟩ := h.mem_visible.mp hi
  refine h.mem_visible.mpr ⟨hj.lt, ?_⟩
  intro k hk
  exact habove k (hk.trans hj)

/-- The parent that the item of a visible node names. -/
theorem item_parent (h : Shows root dims ids v) {i : Nat} (hi : i ∈ v.state.visible) :
    ∃ it, v.state.item? i = some it ∧
      ((it.parent = none ∧ i = 0) ∨ ∃ p, it.parent = some p ∧ root.IsParent p i ∧ i ≠ 0) := by
  have hlt := (h.mem_visible.mp hi).1
  rw [← Node.walk_length] at hlt
  have hs := List.getElem?_eq_getElem hlt
  obtain ⟨it, hit, hdesc, _⟩ := h.item hs
  exact ⟨it, hit, hdesc.parent_eq hs⟩

theorem mem_links (h : Shows root dims ids v) {p i : Nat} :
    (p, i) ∈ v.frame.links ↔ i ∈ v.state.visible ∧ root.IsParent p i := by
  rw [h.frame, frame_links, List.mem_filterMap]
  constructor
  · rintro ⟨id, hid, hlink⟩
    obtain ⟨it, hit, ⟨hp, _⟩ | ⟨q, hq, hparent, _⟩⟩ := h.item_parent hid
    · simp [hit, hp] at hlink
    · simp only [hit, hq, Option.bind_some, Option.map_some, Option.some.injEq,
        Prod.mk.injEq] at hlink
      obtain ⟨rfl, rfl⟩ := hlink
      exact ⟨hid, hparent⟩
  · rintro ⟨hi, hparent⟩
    refine ⟨i, hi, ?_⟩
    obtain ⟨it, hit, ⟨_, rfl⟩ | ⟨q, hq, hparent', _⟩⟩ := h.item_parent hi
    · obtain ⟨s, t, k, _, ht, ha⟩ := hparent
      rw [(Node.address_eq_nil ht).mpr rfl] at ha
      simp at ha
    · simp [hit, hq, hparent.unique hparent']

/-- Every visible node but the root is linked once. -/
theorem links_targets (h : Shows root dims ids v) :
    v.frame.links.map Prod.snd = v.state.visible.filter (· ≠ 0) := by
  rw [h.frame, frame_links, List.map_filterMap, ← List.filterMap_eq_filter]
  refine List.filterMap_congr fun i hi => ?_
  obtain ⟨it, hit, ⟨hp, rfl⟩ | ⟨p, hp, _, hi⟩⟩ := h.item_parent hi
  · simp [hit, hp, Option.guard]
  · simp [hit, hp, hi]

/-- A node on the frame other than the root names its parent, which is on the frame. -/
theorem placed_parent (h : Shows root dims ids v) {n : Placed α} (hn : n ∈ v.frame.nodes)
    (hid : n.id ≠ 0) : ∃ p ∈ v.state.visible, n.parent = some p ∧ root.IsParent p n.id := by
  have hmap := frame_nodes_map v.state v.extent (fun id it => (id, it.parent))
    (fun n => (n.id, n.parent)) fun _ _ _ => rfl
  have hmem : (n.id, n.parent) ∈ v.frame.nodes.map fun n => (n.id, n.parent) :=
    List.mem_map_of_mem hn
  rw [h.frame, hmap, List.mem_filterMap] at hmem
  obtain ⟨i, hi, hsome⟩ := hmem
  obtain ⟨it, hit, hcases⟩ := h.item_parent hi
  simp only [hit, Option.map_some, Option.some.injEq, Prod.mk.injEq] at hsome
  obtain ⟨rfl, hparent⟩ := hsome
  rcases hcases with ⟨_, h0⟩ | ⟨p, hp, hip, _⟩
  · exact absurd h0 hid
  · exact ⟨p, h.above_visible hip.isAbove hi, hparent ▸ hp, hip⟩

/-- Views of a tree whose nodes with children were toggled equally often, up to parity, have the
same frame. -/
theorem frame_eq {ids' : List Nat} {v' : TreeView α} (h : Shows root dims ids v)
    (h' : Shows root dims ids' v')
    (hids : ∀ i s, root.walk[i]? = some s → s.node.children ≠ [] →
      ids.count i % 2 = ids'.count i % 2) : v.frame = v'.frame := by
  have hstate : v.state.outline = v'.state.outline := by
    rw [h.state, h'.state]
    refine congrArg outline (foldl_toggle_congr fun i it hit hne => ?_)
    have hi : i < root.walk.length := by
      obtain ⟨hi, _⟩ := Array.getElem?_eq_some_iff.mp hit
      rwa [Node.walk_length, ← ofTree_size (α := α)]
    obtain ⟨it', hit', hdesc, _⟩ := ofTree_describes (α := α) (List.getElem?_eq_getElem hi)
    rw [hit] at hit'
    cases hit'
    -- an item has children when its node has, so the parities agree where they matter
    refine hids i _ (List.getElem?_eq_getElem hi) fun hc => hne ?_
    rw [hdesc.children, hc]
    rfl
  rw [h.frame, h'.frame, ← outline_frame, hstate, outline_frame, extent, extent, h.dims, h'.dims]

end Shows

/-- After any clicks on a fresh view, the flag of a node with children has been flipped once for
each click that hit it, and a node without children has kept its flag. The frame is the layout of
the state: it shows, in increasing order, the nodes with only expanded nodes above them, and one
link for each of them but the root, from its parent, which is shown too. Hence only the parity of
the hits on nodes with children matters to the frame, and a click that hits no node changes
nothing. -/
theorem after_clicks (root : Node) (dims : Dimensions α) (clicks : List Click) :
    let v := (TreeView.ofTree root dims).after clicks
    (v.state.size = root.nodeCount ∧ ∀ i s, root.walk[i]? = some s → v.state.isExpanded i =
      if s.node.children = [] then i == 0 else not^[(root.hits clicks).count i] (i == 0)) ∧
    (v.frame = v.state.frame (Extent.ofDimensions dims) ∧
      v.frame.ids.Pairwise (· < ·) ∧
      (∀ i, i ∈ v.frame.ids ↔
        i < root.nodeCount ∧ ∀ j, root.IsAbove j i → v.state.isExpanded j = true) ∧
      (∀ n ∈ v.frame.nodes, n.id ≠ 0 →
        ∃ p ∈ v.frame.ids, n.parent = some p ∧ root.IsParent p n.id) ∧
      (∀ p i, (p, i) ∈ v.frame.links ↔ i ∈ v.frame.ids ∧ root.IsParent p i) ∧
      v.frame.links.map Prod.snd = v.frame.ids.filter (· ≠ 0)) ∧
    (∀ clicks', (∀ i s, root.walk[i]? = some s → s.node.children ≠ [] →
        (root.hits clicks).count i % 2 = (root.hits clicks').count i % 2) →
      v.frame = ((TreeView.ofTree root dims).after clicks').frame) ∧
    ∀ c : Click, c.target root = none → v.press c = (none, v) := by
  intro v
  have h : Shows root dims (root.hits clicks) v := (Shows.ofTree root dims).after clicks
  refine ⟨⟨h.size, fun i s hs => h.isExpanded hs⟩, ⟨?_, ?_, ?_, ?_, ?_, ?_⟩, ?_, ?_⟩
  · rw [h.frame, extent, h.dims]
  · rw [h.frame_ids]
    exact h.visible_increasing
  · intro i
    rw [h.frame_ids]
    exact h.mem_visible
  · intro n hn hid
    rw [h.frame_ids]
    exact h.placed_parent hn hid
  · intro p i
    rw [h.frame_ids]
    exact h.mem_links
  · rw [h.frame_ids]
    exact h.links_targets
  · intro clicks' hclicks
    exact h.frame_eq ((Shows.ofTree root dims).after clicks') hclicks
  · intro c hc
    exact h.press_none hc

/-- Collapsing the root hides an expanded directory; in the other order the hidden directory is
expanded. -/
theorem after_clicks_reordered :
    let root := Node.directory "src" [Node.directory "lib" [Node.file "a.c"], Node.file "b.c"]
    let v := TreeView.ofTree root (Dimensions.standard : Dimensions Float)
    root.hits [.named "lib", .node 0, .node 9] = [1, 0] ∧
    root.hits [.node 0, .named "doc", .node 1] = [0, 1] ∧
    (v.after [.named "lib", .node 0, .node 9]).frame =
      (v.after [.node 0, .named "doc", .node 1]).frame := by
  intro root v
  have hl : root.hits [.named "lib", .node 0, .node 9] = [1, 0] := by decide
  have hr : root.hits [.node 0, .named "doc", .node 1] = [0, 1] := by decide
  refine ⟨hl, hr, (after_clicks root _ _).2.2.1 _ fun i _ _ _ => ?_⟩
  rw [hl, hr, (List.Perm.swap 1 0 []).count_eq]

end TreeView

end SourceAtlas
