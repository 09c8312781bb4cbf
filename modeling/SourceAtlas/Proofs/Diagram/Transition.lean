import SourceAtlas.Proofs.Diagram.Clicks
import SourceAtlas.Proofs.Diagram.Positions
import SourceAtlas.Proofs.Lists

/-! # What moves after a click

The transition after a click compares two frames node by node. Which nodes appear or vanish is told
by the flags: a click changes the flag of one node, so all nodes that are not below it stay as they
are. Where a node comes from is told by the state, which remembers the place of every node of the
frame; of a hidden node it only knows where it was seen last. -/

namespace SourceAtlas

namespace TreeState

variable {α : Type}

/-! ## Places on a frame -/

namespace Frame

variable {f : Frame α} {i : Nat} {p : Point α}

def place? (f : Frame α) (i : Nat) : Option (Point α) := (f.get? i).map (·.position)

theorem get?_eq_none : f.get? i = none ↔ i ∉ f.ids := by
  simp [get?, ids]

theorem mem_ids_of_get? {n : Placed α} (h : f.get? i = some n) : i ∈ f.ids := by
  by_contra hi
  rw [get?_eq_none.mpr hi] at h
  cases h

theorem contains_iff : f.contains i = true ↔ i ∈ f.ids := by
  simp [contains, ids]

theorem place?_of_mem (h : f.ids.Nodup) {n : Placed α} (hn : n ∈ f.nodes) :
    f.place? n.id = some n.position := by
  rw [place?, get?, Lists.find?_of_nodup h hn]
  rfl

theorem mem_of_place? (h : f.place? i = some p) : ∃ n ∈ f.nodes, n.id = i ∧ n.position = p := by
  obtain ⟨n, hn, hp⟩ := Option.map_eq_some_iff.mp h
  have hid := List.find?_some hn
  exact ⟨n, List.mem_of_find?_eq_some hn, eq_of_beq hid, hp⟩

theorem exists_place? (h : i ∈ f.ids) : ∃ p, f.place? i = some p := by
  cases hn : f.get? i with
  | none => exact absurd h (get?_eq_none.mp hn)
  | some n => exact ⟨n.position, by rw [place?, hn]; rfl⟩

end Frame

/-! ## The moves between two frames -/

namespace Transition

/-- The moves lead from one frame to another: first the nodes of the new one, then those that
vanish. Each node moves from its old place to its new one, a node without the one or the other
having that of the source. -/
structure Connects (t : Transition α) (old new : Frame α) : Prop where
  phases : t.moves.map (fun m => (m.id, m.phase)) =
    (new.ids.map fun i => (i, if i ∈ old.ids then .update else .enter)) ++
      (old.ids.filter (· ∉ new.ids)).map fun i => (i, .exit)
  once : (t.moves.map (·.id)).Nodup
  all : ∀ i, i ∈ t.moves.map (·.id) ↔ i ∈ old.ids ∨ i ∈ new.ids
  origin : ∀ m ∈ t.moves, old.place? (if m.phase = .enter then t.source else m.id) = some m.origin
  target : ∀ m ∈ t.moves, new.place? (if m.phase = .exit then t.source else m.id) = some m.target

theorem mem_ids {t : Transition α} {phase : Phase} {i : Nat} :
    i ∈ t.ids phase ↔ (i, phase) ∈ t.moves.map fun m => (m.id, m.phase) := by
  simp only [ids, List.mem_map, List.mem_filter, beq_iff_eq, Prod.mk.injEq, and_assoc, and_comm]

theorem mem_ids_of_move {t : Transition α} {m : Move α} (hm : m ∈ t.moves) : m.id ∈ t.ids m.phase :=
  mem_ids.mpr (List.mem_map_of_mem hm)

/-- The moves follow the new frame, and then the old one for what is no longer there. -/
theorem between_phases (source : Nat) (origin : Point α) (old new : Frame α) :
    (between source origin old new).moves.map (fun m => (m.id, m.phase)) =
      (new.ids.map fun i => (i, if i ∈ old.ids then .update else .enter)) ++
        (old.ids.filter (· ∉ new.ids)).map fun i => (i, .exit) := by
  simp only [between, List.map_append, List.map_map]
  congr 1
  · show _ = (new.nodes.map (·.id)).map _
    rw [List.map_map]
    refine List.map_congr_left fun n _ => ?_
    cases hn : old.get? n.id with
    | none => simp [hn, Frame.get?_eq_none.mp hn]
    | some was => simp [hn, Frame.mem_ids_of_get? hn]
  · show _ = ((old.nodes.map (·.id)).filter (· ∉ new.ids)).map _
    have hgone (n : Placed α) : (!new.contains n.id) = decide (n.id ∉ new.ids) := by
      simp [← Frame.contains_iff]
    rw [List.filter_map, List.map_map]
    simp only [hgone]
    rfl

section Between

variable {source : Nat} {origin : Point α} {old new : Frame α} {i : Nat}

theorem between_ids (source : Nat) (origin : Point α) (old new : Frame α) :
    (between source origin old new).moves.map (·.id) =
      new.ids ++ old.ids.filter (· ∉ new.ids) := by
  have h := congrArg (List.map Prod.fst) (between_phases source origin old new)
  simpa [Function.comp_def] using h

theorem mem_enter : i ∈ (between source origin old new).ids .enter ↔ i ∈ new.ids ∧ i ∉ old.ids := by
  rw [mem_ids, between_phases]
  simp

theorem mem_exit : i ∈ (between source origin old new).ids .exit ↔ i ∈ old.ids ∧ i ∉ new.ids := by
  rw [mem_ids, between_phases]
  by_cases hi : i ∈ old.ids <;> simp [hi]

theorem enter_eq_nil : (between source origin old new).ids .enter = [] ↔
    ∀ i, ¬ (i ∈ new.ids ∧ i ∉ old.ids) := by
  simp only [List.eq_nil_iff_forall_not_mem, mem_enter]

theorem exit_eq_nil : (between source origin old new).ids .exit = [] ↔
    ∀ i, ¬ (i ∈ old.ids ∧ i ∉ new.ids) := by
  simp only [List.eq_nil_iff_forall_not_mem, mem_exit]

/-- What one move says: where it comes from and where it goes. -/
theorem between_cases (hold : old.ids.Nodup) (hnew : new.ids.Nodup) {m : Move α}
    (hm : m ∈ (between source origin old new).moves) :
    (m.phase = .update ∧ old.place? m.id = some m.origin ∧ new.place? m.id = some m.target) ∨
    (m.phase = .enter ∧ m.origin = origin ∧ new.place? m.id = some m.target) ∨
    (m.phase = .exit ∧ old.place? m.id = some m.origin ∧
      m.target = (new.place? source).getD origin) := by
  rw [between, List.mem_append, List.mem_map, List.mem_map] at hm
  rcases hm with ⟨n, hn, rfl⟩ | ⟨n, hn, rfl⟩
  · have htarget := Frame.place?_of_mem hnew hn
    cases hwas : old.get? n.id with
    | none => exact .inr (.inl ⟨rfl, rfl, htarget⟩)
    | some was => exact .inl ⟨rfl, by simp [Frame.place?, hwas], htarget⟩
  · have horigin := Frame.place?_of_mem hold (List.mem_of_mem_filter hn)
    exact .inr (.inr ⟨rfl, horigin, rfl⟩)

end Between

end Transition

/-! ## Remembered places -/

/-- The place that a state remembers for a node. -/
def place? (st : TreeState α) (i : Nat) : Option (Point α) := (st.item? i).map (·.position)

/-- The state that remembers one place of a frame. -/
def remember (st : TreeState α) (n : Placed α) : TreeState α :=
  st.modify n.id fun it => { it with previous := it.position, position := n.position }

theorem record_cons (st : TreeState α) (n : Placed α) (ns : List (Placed α))
    (links : List (Nat × Nat)) : st.record ⟨n :: ns, links⟩ = (st.remember n).record ⟨ns, links⟩ :=
  rfl

theorem remember_size (st : TreeState α) (n : Placed α) : (st.remember n).size = st.size :=
  Array.size_modify ..

theorem place?_remember (st : TreeState α) (n : Placed α) (i : Nat) : (st.remember n).place? i =
    if n.id = i then (st.place? i).map fun _ => n.position else st.place? i := by
  unfold place? remember
  rw [modify_item?]
  split
  · rw [Option.map_map, Option.map_map]
    rfl
  · rfl

/-- A node that is not on the frame keeps its place. -/
theorem place?_record_of_not_mem {f : Frame α} {i : Nat} (h : i ∉ f.ids) (st : TreeState α) :
    (st.record f).place? i = st.place? i := by
  obtain ⟨nodes, links⟩ := f
  induction nodes generalizing st with
  | nil => rfl
  | cons n ns ih =>
    obtain ⟨hne, hns⟩ := not_or.mp (mt List.mem_cons.mpr h)
    rw [record_cons, ih _ hns, place?_remember, if_neg (Ne.symm hne)]

/-- A node that is on the frame gets its place from there. -/
theorem place?_record {f : Frame α} (hids : f.ids.Nodup) {m : Placed α} (hm : m ∈ f.nodes)
    {st : TreeState α} (hlt : m.id < st.size) : (st.record f).place? m.id = some m.position := by
  obtain ⟨nodes, links⟩ := f
  induction nodes generalizing st with
  | nil => cases hm
  | cons n ns ih =>
    obtain ⟨hn, hns⟩ := List.nodup_cons.mp hids
    rw [record_cons]
    rcases List.mem_cons.mp hm with rfl | hm
    · rw [place?_record_of_not_mem hn, place?_remember, if_pos rfl, place?, item?,
        Array.getElem?_eq_getElem hlt]
      rfl
    · exact ih (by rwa [remember_size]) hns hm

/-- The two states have the same flags but for one node. -/
def AgreeBut (root : Node) (id : Nat) (st st' : TreeState α) : Prop :=
  ∀ j < root.nodeCount, j ≠ id → st.isExpanded j = st'.isExpanded j

theorem AgreeBut.symm {root : Node} {id : Nat} {st st' : TreeState α}
    (h : AgreeBut root id st st') :
    AgreeBut root id st' st := by
  intro j hj hne
  exact (h j hj hne).symm

end TreeState

open TreeState

namespace TreeView

variable {α : Type} [Scalar α]

/-- The state remembers where the frame shows its nodes. -/
def Remembers (v : TreeView α) : Prop :=
  ∀ i p, v.frame.place? i = some p → v.state.place? i = some p

namespace Shows

variable {root : Node} {dims : Dimensions α} {ids : List Nat} {v : TreeView α}

theorem frame_nodup (h : Shows root dims ids v) : v.frame.ids.Nodup := by
  rw [h.frame_ids]
  exact h.visible_increasing.imp Nat.ne_of_lt

theorem mem_frame (h : Shows root dims ids v) {i : Nat} : i ∈ v.frame.ids ↔
    i < root.nodeCount ∧ ∀ j, root.IsAbove j i → v.state.isExpanded j = true := by
  rw [h.frame_ids]
  exact h.mem_visible

/-- After laying out anew, the state remembers the new frame. -/
theorem remembers_refresh {w : TreeView α} {source : Nat} {origin : Point α}
    (h : Shows root dims ids (w.refresh source origin).2) :
    (w.refresh source origin).2.Remembers := by
  intro i p hp
  obtain ⟨n, hn, rfl, rfl⟩ := Frame.mem_of_place? hp
  have hsize : (w.refresh source origin).2.state.size = w.state.size := by
    rw [← outline_size, ← outline_size w.state]
    exact congrArg TreeState.size (outline_record ..)
  refine place?_record h.frame_nodup hn ?_
  rw [← hsize, h.size]
  exact (h.mem_frame.mp (List.mem_map_of_mem hn)).1

theorem remembers_click (h : Shows root dims ids v) {i : Nat} (hi : i < root.nodeCount) :
    (v.click i).2.Remembers := by
  have hclick := h.click hi
  rw [← h.size] at hi
  have hit : v.state.item? i = some _ := Array.getElem?_eq_getElem hi
  rw [TreeView.click, hit] at hclick ⊢
  exact hclick.remembers_refresh

/-- Hidden nodes keep the places where they were seen last, but visible ones are never out of
date. -/
theorem remembers_after (h : Shows root dims ids v) (hv : v.Remembers) (clicks : List Click) :
    (v.after clicks).Remembers := by
  induction clicks generalizing v ids with
  | nil => exact hv
  | cons c clicks ih =>
    show ((v.press c).2.after clicks).Remembers
    cases hc : c.target root with
    | none =>
      rw [h.press_none hc]
      exact ih h hv
    | some i =>
      obtain ⟨heq, hi⟩ := h.press_eq hc
      rw [heq]
      exact ih (h.click hi) (h.remembers_click hi)

end Shows

theorem remembers_ofTree (root : Node) (dims : Dimensions α) :
    (TreeView.ofTree root dims).Remembers :=
  (Shows.ofTree root dims).remembers_refresh

/-! ## What a toggle hides and reveals -/

namespace Shows

variable {root : Node} {dims : Dimensions α} {ids ids' : List Nat} {v v' : TreeView α} {id i : Nat}
  {s : Spot}

theorem isExpanded_click (h : Shows root dims ids v) (hid : id < root.nodeCount)
    (hs : root.walk[i]? = some s) : (v.click id).2.state.isExpanded i =
      (if id = i ∧ s.node.children ≠ [] then !v.state.isExpanded i else v.state.isExpanded i) := by
  rw [(h.click hid).isExpanded hs, h.isExpanded hs, List.count_append, List.count_singleton]
  by_cases hc : s.node.children = []
  · simp [hc]
  · by_cases hi : id = i
    · simp [hc, hi, Function.iterate_succ_apply']
    · simp [hc, hi]

theorem agreeBut_click (h : Shows root dims ids v) (hid : id < root.nodeCount) :
    AgreeBut root id v.state (v.click id).2.state := by
  intro j hj hne
  rw [← Node.walk_length] at hj
  rw [h.isExpanded_click hid (List.getElem?_eq_getElem hj), if_neg]
  intro hc
  exact hne hc.1.symm

/-- What is visible in one state alone lies below the node, which is visible in both and expanded in
that state. -/
theorem only_below (h : Shows root dims ids v) (h' : Shows root dims ids' v')
    (hagree : AgreeBut root id v.state v'.state) (hi : i ∈ v.frame.ids) (hi' : i ∉ v'.frame.ids) :
    root.IsAbove id i ∧ v.state.isExpanded id = true ∧ id ∈ v.frame.ids ∧ id ∈ v'.frame.ids := by
  -- a node that is not below keeps the flags above it
  have hbeside {k : Nat} (hk : k ∈ v.frame.ids) (hnot : ¬ root.IsAbove id k) :
      k ∈ v'.frame.ids := by
    obtain ⟨hlt, habove⟩ := h.mem_frame.mp hk
    refine h'.mem_frame.mpr ⟨hlt, fun j hj => ?_⟩
    have hne : j ≠ id := by
      intro he
      exact hnot (he ▸ hj)
    rw [← hagree j hj.lt hne]
    exact habove j hj
  have hbelow : root.IsAbove id i := by
    by_contra hnot
    exact hi' (hbeside hi hnot)
  have hid : id ∈ v.frame.ids := by
    rw [h.frame_ids] at hi ⊢
    exact h.above_visible hbelow hi
  exact ⟨hbelow, (h.mem_frame.mp hi).2 id hbelow, hid, hbeside hid Node.IsAbove.irrefl⟩

/-- Where the node is collapsed in the second state, that state shows nothing of its own, and hides
just what is below the node. -/
theorem only_iff (h : Shows root dims ids v) (h' : Shows root dims ids' v')
    (hagree : AgreeBut root id v.state v'.state) (hexp : v'.state.isExpanded id = false) :
    (∀ i, ¬ (i ∈ v'.frame.ids ∧ i ∉ v.frame.ids)) ∧
      ∀ i, i ∈ v.frame.ids ∧ i ∉ v'.frame.ids ↔ root.IsAbove id i ∧ i ∈ v.frame.ids := by
  have hopen : ¬ v'.state.isExpanded id = true := Bool.not_eq_true _ ▸ hexp
  refine ⟨?_, ?_⟩
  · intro i hi
    exact hopen (only_below h' h hagree.symm hi.1 hi.2).2.1
  · intro i
    constructor
    · intro hi
      exact ⟨(only_below h h' hagree hi.1 hi.2).1, hi.1⟩
    · intro hi
      exact ⟨hi.2, fun hi' => hopen ((h'.mem_frame.mp hi').2 id hi.1)⟩

/-- Between two frames that differ by the flag of one node, nodes appear and vanish at its place. -/
theorem connects (h : Shows root dims ids v) (h' : Shows root dims ids' v')
    (hagree : AgreeBut root id v.state v'.state) (hv : v.Remembers) {origin : Point α}
    (hplace : v.state.place? id = some origin) :
    (Transition.between id origin v.frame v'.frame).Connects v.frame v'.frame := by
  refine ⟨Transition.between_phases .., ?_, ?_, ?_, ?_⟩
  · rw [Transition.between_ids, List.nodup_append]
    refine ⟨h'.frame_nodup, h.frame_nodup.filter _, ?_⟩
    intro i hi j hj he
    subst he
    simp [hi] at hj
  · intro i
    rw [Transition.between_ids, List.mem_append, List.mem_filter]
    by_cases hi : i ∈ v'.frame.ids <;> simp [hi]
  · intro m hm
    have hids := Transition.mem_ids_of_move hm
    rcases Transition.between_cases h.frame_nodup h'.frame_nodup hm with
      ⟨hphase, horigin, _⟩ | ⟨hphase, horigin, _⟩ | ⟨hphase, horigin, _⟩
    · simpa [hphase] using horigin
    · rw [hphase, Transition.mem_enter] at hids
      obtain ⟨_, _, _, hid⟩ := only_below h' h hagree.symm hids.1 hids.2
      obtain ⟨p, hp⟩ := Frame.exists_place? hid
      have hsame : p = origin := Option.some.inj ((hv id p hp).symm.trans hplace)
      rw [if_pos hphase, horigin, ← hsame]
      exact hp
    · simpa [hphase] using horigin
  · intro m hm
    have hids := Transition.mem_ids_of_move hm
    rcases Transition.between_cases h.frame_nodup h'.frame_nodup hm with
      ⟨hphase, _, htarget⟩ | ⟨hphase, _, htarget⟩ | ⟨hphase, _, htarget⟩
    · simpa [hphase] using htarget
    · simpa [hphase] using htarget
    · rw [hphase, Transition.mem_exit] at hids
      obtain ⟨_, _, _, hid⟩ := only_below h h' hagree hids.1 hids.2
      obtain ⟨p, hp⟩ := Frame.exists_place? hid
      rw [if_pos hphase, htarget, hp]
      exact hp

end Shows

theorem click_between {v : TreeView α} {id : Nat} {it : TreeState.Item α}
    (hit : v.state.item? id = some it) :
    (v.click id).1 = some (Transition.between id it.position v.frame (v.click id).2.frame) := by
  rw [click, hit]
  rfl

/-- After any clicks, a click on a node moves every node that is visible before or after it, once,
from where it was to where it is. A node with children opens or closes: all that is shown below it
appears or vanishes at its place, and nothing else does. Where the node is hidden or has no
children, nothing appears or vanishes. -/
theorem click_connects (root : Node) (dims : Dimensions α) (clicks : List Click) {id : Nat}
    {s : Spot} (hs : root.walk[id]? = some s) :
    let v := (TreeView.ofTree root dims).after clicks
    let next := (v.click id).2
    ∃ t, (v.click id).1 = some t ∧ t.source = id ∧ t.Connects v.frame next.frame ∧
      (s.node.children ≠ [] →
        (v.state.isExpanded id = true → next.state.isExpanded id = false ∧ t.ids .enter = [] ∧
          ∀ i, i ∈ t.ids .exit ↔ root.IsAbove id i ∧ i ∈ v.frame.ids) ∧
        (v.state.isExpanded id = false → next.state.isExpanded id = true ∧ t.ids .exit = [] ∧
          ∀ i, i ∈ t.ids .enter ↔ root.IsAbove id i ∧ i ∈ next.frame.ids)) ∧
      (id ∉ v.frame.ids ∨ s.node.children = [] → t.ids .enter = [] ∧ t.ids .exit = []) := by
  intro v next
  have hid : id < root.nodeCount := by
    rw [← Node.walk_length]
    exact (List.getElem?_eq_some_iff.mp hs).1
  have h : Shows root dims (root.hits clicks) v := (Shows.ofTree root dims).after clicks
  have h' : Shows root dims (root.hits clicks ++ [id]) next := h.click hid
  have hv : v.Remembers :=
    (Shows.ofTree root dims).remembers_after (remembers_ofTree root dims) clicks
  have hagree := h.agreeBut_click hid
  obtain ⟨it, hit, _⟩ := h.item hs
  have hplace : v.state.place? id = some it.position := by
    rw [place?, hit]
    rfl
  refine ⟨_, click_between hit, rfl, h.connects h' hagree hv hplace, ?_, ?_⟩
  · intro hc
    have hflag : next.state.isExpanded id = !v.state.isExpanded id := by
      rw [h.isExpanded_click hid hs, if_pos ⟨rfl, hc⟩]
    simp only [Transition.enter_eq_nil, Transition.exit_eq_nil, Transition.mem_enter,
      Transition.mem_exit]
    constructor
    · intro hexp
      rw [hexp] at hflag
      exact ⟨hflag, h.only_iff h' hagree hflag⟩
    · intro hexp
      rw [hexp] at hflag
      exact ⟨hflag, h'.only_iff h hagree.symm hexp⟩
  · intro hclosed
    have hnone {i : Nat} (hbelow : root.IsAbove id i) (hvisible : id ∈ v.frame.ids) : False := by
      rcases hclosed with hhidden | hleaf
      · exact hhidden hvisible
      · exact Node.not_isAbove_leaf hs hleaf i hbelow
    rw [Transition.enter_eq_nil, Transition.exit_eq_nil]
    constructor
    · intro i hi
      obtain ⟨hbelow, _, _, hvisible⟩ := h'.only_below h hagree.symm hi.1 hi.2
      exact hnone hbelow hvisible
    · intro i hi
      obtain ⟨hbelow, _, hvisible, _⟩ := h.only_below h' hagree hi.1 hi.2
      exact hnone hbelow hvisible

/-- The second click on a directory takes its file away again. -/
theorem click_connects_closing :
    let root := Node.directory "src" [Node.directory "lib" [Node.file "a.c"], Node.file "b.c"]
    let v := (TreeView.ofTree root (Dimensions.standard : Dimensions Float)).after [.named "lib"]
    v.frame.ids = [0, 1, 2, 3] ∧ v.state.isExpanded 1 = true ∧
      ∃ t, (v.click 1).1 = some t ∧ t.Connects v.frame (v.click 1).2.frame ∧ t.ids .enter = [] ∧
        ∀ i, i ∈ t.ids .exit ↔ i = 2 := by
  intro root v
  have hhits : root.hits [.named "lib"] = [1] := by decide
  have h := (Shows.ofTree root (Dimensions.standard : Dimensions Float)).after [.named "lib"]
  rw [hhits] at h
  have hs : root.walk[1]? = some ⟨[0], Node.directory "lib" [Node.file "a.c"]⟩ := by
    rw [Node.walk_eq]
    rfl
  have hroot : v.state.isExpanded 0 = true := h.isExpanded (Node.walk_zero root)
  have hlib : v.state.isExpanded 1 = true := h.isExpanded hs
  have hshown {isOpen : Nat → Bool} (h0 : isOpen 0 = true) (h1 : isOpen 1 = true) :
      root.shown isOpen 0 = [0, 1, 2, 3] := by
    simp [root, Node.directory, Node.file, Node.shown, Node.shownAll, Node.nodeCount,
      Node.nodeCountAll, h0, h1]
  have hids : v.frame.ids = [0, 1, 2, 3] := by
    rw [h.frame_ids, visible_eq h.keeps h.size, hshown hroot hlib]
  have hbelow (i : Nat) : root.IsAbove 1 i ↔ i = 2 := by
    have hrange : i = 1 ∨ root.IsAbove 1 i ↔ i ∈ [1, 2] := Node.within_iff hs
    constructor
    · intro habove
      have hi := hrange.mp (.inr habove)
      have hne : i ≠ 1 := by
        intro he
        exact Node.IsAbove.irrefl (he ▸ habove)
      simpa [hne] using hi
    · intro hi
      exact (hrange.mpr (by simp [hi])).resolve_left (by omega)
  obtain ⟨t, ht, _, hconnects, hopen, _⟩ :=
    click_connects root (Dimensions.standard : Dimensions Float) [.named "lib"] hs
  obtain ⟨_, henter, hexit⟩ := (hopen (by decide)).1 hlib
  refine ⟨hids, hlib, t, ht, hconnects, henter, fun i => ?_⟩
  rw [hexit, hbelow]
  constructor
  · exact And.left
  · intro hi
    refine ⟨hi, ?_⟩
    rw [hids, hi]
    decide

end TreeView

end SourceAtlas
