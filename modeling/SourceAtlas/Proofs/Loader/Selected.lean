import SourceAtlas.Panel.Basic
import SourceAtlas.Loader.Supply
import SourceAtlas.Proofs.Loader.Hydration

/-! # The source of one node

For a selected node only its own source is read. Where files have no children, the node is the one
that stands at its position after attaching all sources, and its panel is the same for a directory
too, since a panel shows nothing of the sources below it. What is read never depends on the texts,
so a loader may be supplied from a disk beforehand. -/

namespace SourceAtlas

namespace Node

theorem findById_isSome {root : Node} {id : Nat} :
    (root.findById id).isSome ↔ id < root.nodeCount := by
  rw [findById_eq, Option.isSome_map, ← walk_length]
  simp

/-- Where files have no children, only directories lie above a node. -/
theorem openTo_of_leaves {root : Node}
    (h : ∀ s ∈ root.walk, s.node.isFile → s.node.children = []) {s : Spot} (hs : s ∈ root.walk) :
    root.openTo s.address = true := by
  refine List.all_eq_true.mpr fun p hp => ?_
  obtain ⟨⟨b, hb⟩, hne⟩ := at?_of_mem_ancestors (mem_walk.mp hs) hp
  by_contra hdir
  exact hne (h ⟨b, p⟩ (mem_walk.mpr hb) (by simpa [isFile_eq] using hdir))

end Node

namespace Loader

open Logged

variable (l : Loader)

theorem hydrateOne_eq {root : Node} {id : Nat} {s : Spot} (hs : root.walk[id]? = some s) :
    l.hydrateOne root id = if s.node.isDirectory then pure (some s.node)
      else do return some (← l.hydrateAt (root.wayTo false s.address) (id != 0) s.node) := by
  rw [hydrateOne, Node.locate_eq, hs]
  rfl

theorem hydrateOne_none {root : Node} {id : Nat} (hs : root.walk[id]? = none) :
    l.hydrateOne root id = pure none := by
  rw [hydrateOne, Node.locate_eq, hs]
  rfl

theorem hydrateOne_isSome (root : Node) (id : Nat) :
    (l.hydrateOne root id).value.isSome ↔ id < root.nodeCount := by
  rw [← Node.findById_isSome, Node.findById_eq]
  cases hs : root.walk[id]? with
  | none => rw [hydrateOne_none l hs]; rfl
  | some s =>
    rw [hydrateOne_eq l hs]
    split <;> simp

/-- The source of a selected file is the one that it gets when all are attached. -/
theorem hydrateOne_file {root : Node} {id : Nat} {s : Spot} (hs : root.walk[id]? = some s)
    (hfile : s.node.isFile = true) (hopen : root.openTo s.address = true) :
    (l.hydrateOne root id).value = (l.hydrate root).value.findById id := by
  have hdir : s.node.isDirectory = false := by simpa [Node.isFile_eq] using hfile
  rw [Node.findById_eq, hydrate_spot l hs, hydrateOne_eq l hs, hdir, hopen, hydrateAt_file l hfile,
    hydrateAt_file l hfile]
  rfl

/-- A selected file is looked for under its path, and nothing else is read. -/
theorem hydrateOne_reads {root : Node} {id : Nat} {s : Spot} (hs : root.walk[id]? = some s) :
    (l.hydrateOne root id).reads = if s.node.isFile then l.readsFor (root.pathOf s) else [] := by
  rw [hydrateOne_eq l hs, Node.isFile_eq]
  cases hdir : s.node.isDirectory with
  | true => rfl
  | false =>
    have hfile : s.node.isFile = true := by rw [Node.isFile_eq, hdir]; rfl
    rw [if_neg Bool.false_ne_true, reads_bind, hydrateAt_file l hfile, reads_bind, source_reads]
    simp
    rfl

theorem readsAt_length_le (root : Node) (s : Spot) : (l.readsAt root s).length ≤ 1 := by
  rw [readsAt, readsFor]
  split
  · split <;> simp
  · simp

/-! ## Panels -/

theorem hydrateAt_name (n : Node) (trail : List String) (steps : Bool) :
    (l.hydrateAt trail steps n).value.name = n.name := by
  rw [Node.name, hydrateAt_entry]
  split <;> rfl

theorem hydrateAt_kind (n : Node) (trail : List String) (steps : Bool) :
    (l.hydrateAt trail steps n).value.kind = n.kind := by
  rw [Node.kind, hydrateAt_entry]
  split <;> rfl

theorem childNames_hydrateAt {n : Node} (h : n.isDirectory = true) (trail : List String)
    (steps : Bool) (kind : Kind) :
    Panel.childNames (l.hydrateAt trail steps n).value kind = Panel.childNames n kind := by
  rw [Panel.childNames, Panel.childNames, hydrateAt_children, if_pos h, List.filter_map,
    List.map_map]
  simp only [Function.comp_def, hydrateAt_name, hydrateAt_kind]

/-- The panel of a directory shows nothing of the sources below it. -/
theorem ofNode_hydrateAt {n : Node} (h : n.isDirectory = true) (trail : List String)
    (steps : Bool) : Panel.ofNode (l.hydrateAt trail steps n).value = Panel.ofNode n := by
  have hentry : (l.hydrateAt trail steps n).value.entry = n.entry := by
    rw [hydrateAt_entry, Node.isFile_eq, h]
    rfl
  have hdir : (l.hydrateAt trail steps n).value.isDirectory = n.isDirectory := by
    rw [Node.isDirectory, hydrateAt_kind, Node.isDirectory]
  rw [Panel.ofNode, Panel.ofNode, hdir, if_pos h, if_pos h, Panel.directorySections,
    Panel.directorySections, childNames_hydrateAt l h, childNames_hydrateAt l h, Panel.nodeFacts,
    Panel.nodeFacts, Node.name, Node.kind, hentry]
  rfl

theorem ofNode_hydrateOne {root : Node}
    (h : ∀ s ∈ root.walk, s.node.isFile → s.node.children = []) (id : Nat) :
    (l.hydrateOne root id).value.map Panel.ofNode =
      ((l.hydrate root).value.findById id).map Panel.ofNode := by
  cases hs : root.walk[id]? with
  | none =>
    have hnone : (l.hydrate root).value.walk[id]? = none := by
      have haddr := congrArg List.length (l.hydrateAt_addresses root [] false)
      rw [List.length_map, List.length_map] at haddr
      rw [List.getElem?_eq_none_iff] at hs ⊢
      exact haddr ▸ hs
    rw [hydrateOne_none l hs, Node.findById_eq, hnone]
    rfl
  | some s =>
    have hopen := Node.openTo_of_leaves h (List.mem_of_getElem? hs)
    cases hdir : s.node.isDirectory with
    | false =>
      rw [hydrateOne_file l hs (by rw [Node.isFile_eq, hdir]; rfl) hopen]
    | true =>
      rw [hydrateOne_eq l hs, if_pos hdir, Node.findById_eq, hydrate_spot l hs, if_pos hopen]
      exact congrArg some (l.ofNode_hydrateAt hdir _ _).symm

/-! ## Supply from a disk -/

theorem readAll_run (files : FileTree) (paths : List String) :
    StateT.run (m := Id) (paths.mapM fun path => do
        return (path, textOf (← FileTree.disk.read path))) files =
      (paths.map fun path => (path, textOf (files.read path)), files) := by
  induction paths with
  | nil => rfl
  | cons path paths ih =>
    rw [List.mapM_cons, StateT.run_bind, List.map_cons]
    show StateT.run (m := Id) ((paths.mapM _) >>= fun texts => pure (_ :: texts)) files = _
    rw [StateT.run_bind, ih]
    rfl

/-- Reading the files beforehand gives the run on the files themselves, for a task that reads the
same paths whatever the texts are and depends on nothing else. -/
theorem supply_run {α : Type} (files : FileTree)
    (task : (String → Except String String) → Logged α)
    (hreads : ∀ rd, (task rd).reads = (task fun _ => .error "").reads)
    (hsame : ∀ rd rd', (∀ path ∈ (task rd).reads, rd' path = rd path) → task rd' = task rd) :
    StateT.run (m := Id) (supply FileTree.disk task) files =
      (task fun path => textOf (files.read path), files) := by
  let paths := (task fun _ => .error "").reads
  let texts := paths.map fun path => (path, textOf (files.read path))
  have htask : (task fun path => (texts.lookup path).getD (.error "")) =
      task fun path => textOf (files.read path) := by
    refine hsame _ _ fun path hpath => ?_
    rw [hreads] at hpath
    rw [List.lookup_graph (fun path => textOf (files.read path)) hpath]
    rfl
  rw [supply, StateT.run_bind, readAll_run, ← htask]
  rfl

theorem load_reads : l.load.reads = [l.structurePath] := by
  have hdocument : l.tryLoad.reads = [l.structurePath] := by
    rw [tryLoad, reads_bind]
    cases (l.readText l.structurePath).value <;> rfl
  rw [load, reads_bind, hdocument]
  cases l.tryLoad.value with
  | error e => rfl
  | ok tree =>
    simp only
    cases tree.checkUnique <;> rfl

theorem reading_hydrateOne_reads (rd : String → Except String String) (root : Node) (id : Nat) :
    ((l.reading rd).hydrateOne root id).reads = (l.hydrateOne root id).reads := by
  cases hs : root.walk[id]? with
  | none => rw [hydrateOne_none _ hs, hydrateOne_none _ hs]
  | some s =>
    rw [hydrateOne_reads _ hs, hydrateOne_reads _ hs]
    rfl

end Loader

end SourceAtlas
