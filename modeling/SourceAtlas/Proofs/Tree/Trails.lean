import SourceAtlas.Proofs.Tree.Address

/-! # Nodes with the names above them

Positions are one way to list the nodes of a tree. The list of the nodes in pre-order, each with the
names that lead down to it, is made child by child; following every position of a tree down by
counting gives the same list. -/

namespace SourceAtlas.Node

/-- The nodes of a tree in pre-order, each with the names from the root down to its parent. -/
def trails (n : Node) : List (List String × Node) :=
  n.walk.map fun s => ((n.ancestors s.address).map name, s.node)

/-- The nodes below a child have the name of the parent before their own trail. -/
theorem trails_children (n : Node) :
    n.trails = ([], n) ::
      n.children.flatMap fun c => c.trails.map fun x => (n.name :: x.1, x.2) := by
  have hchild : ∀ x ∈ n.children.zipIdx, (x.1.walk.map (Spot.under x.2)).map
      (fun s => ((n.ancestors s.address).map name, s.node)) =
        x.1.trails.map fun y => (n.name :: y.1, y.2) := by
    intro x hx
    have hc : n.children[x.2]? = some x.1 := List.mem_zipIdx_iff_getElem?.mp hx
    simp [trails, Spot.under, ancestors_cons hc]
  have hfst : n.children = n.children.zipIdx.map Prod.fst := by simp
  rw [trails, walk_children, List.map_cons, List.map_flatMap, List.flatMap_congr hchild]
  conv_rhs => rw [hfst, List.flatMap_map]
  rfl

theorem mem_trails_child {n c m : Node} {trail : List String} (hc : c ∈ n.children)
    (h : (trail, m) ∈ c.trails) : (n.name :: trail, m) ∈ n.trails := by
  rw [trails_children]
  exact List.mem_cons_of_mem _ (List.mem_flatMap.mpr ⟨c, hc, List.mem_map.mpr ⟨_, h, rfl⟩⟩)

theorem locate_eq_trails (root : Node) (id : Nat) :
    root.locate id = (root.trails[id]?).map fun x => (x.1.tail, x.2) := by
  rw [locate_eq, trails, List.getElem?_map, Option.map_map]
  simp [Function.comp_def, List.map_tail]

theorem mem_trails_of_locate {root n : Node} {id : Nat} {trail : List String}
    (h : root.locate id = some (trail, n)) : ∃ names, (names, n) ∈ root.trails ∧
      trail = names.tail := by
  rw [locate_eq_trails, Option.map_eq_some_iff] at h
  obtain ⟨⟨names, m⟩, hm, he⟩ := h
  cases he
  exact ⟨names, List.mem_of_getElem? hm, rfl⟩

/-- All positions together give every node of the tree once. -/
theorem filterMap_locate (root : Node) :
    (List.range root.nodeCount).filterMap root.locate =
      root.trails.map fun x => (x.1.tail, x.2) := by
  have hall {α : Type} (l : List α) : (List.range l.length).filterMap (l[·]?) = l := by
    induction l with
    | nil => rfl
    | cons a l ih =>
      rw [List.length_cons, List.range_succ_eq_map, List.filterMap_cons, List.filterMap_map]
      simpa [Function.comp_def] using ih
  have hlength : root.nodeCount = root.trails.length := by
    rw [trails, List.length_map, walk_length]
  conv_rhs => rw [← hall root.trails, List.map_filterMap]
  rw [hlength]
  exact List.filterMap_congr fun id _ => locate_eq_trails root id

end SourceAtlas.Node
