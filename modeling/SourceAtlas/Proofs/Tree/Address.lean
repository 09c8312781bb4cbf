import SourceAtlas.Proofs.Tree.Lineage

/-! # Following addresses

An address is followed child by child, so what is said of the nodes of a tree can be proved along
the address or, a tree being its root and the trees of its children, by induction on the children.
The walk visits exactly the addresses that lead to a node. -/

namespace SourceAtlas

/-- The same node seen from the parent of the tree's root, which is its child number `k`. -/
def Spot.under (k : Nat) (s : Spot) : Spot := ⟨k :: s.address, s.node⟩

namespace Node

theorem nodeCount_le_all {c : Node} {cs : List Node} (h : c ∈ cs) :
    c.nodeCount ≤ nodeCountAll cs := by
  induction cs with
  | nil => cases h
  | cons n ns ih =>
    rw [nodeCountAll]
    rcases List.mem_cons.mp h with rfl | h
    · omega
    · have := ih h
      omega

theorem nodeCount_child_lt {n c : Node} (h : c ∈ n.children) : c.nodeCount < n.nodeCount := by
  have := nodeCount_le_all h
  rw [Walk.nodeCount_eq n]
  omega

/-- What holds of a node as soon as it holds of its children holds of every node. -/
theorem byChildren {P : Node → Prop} (step : ∀ n, (∀ c ∈ n.children, P c) → P n) (n : Node) :
    P n := by
  induction h : n.nodeCount using Nat.strong_induction_on generalizing n with
  | _ m ih =>
    subst h
    exact step n fun c hc => ih c.nodeCount (nodeCount_child_lt hc) c rfl

/-! ## Addresses -/

theorem at?_cons_eq_some {n m : Node} {k : Nat} {a : List Nat} :
    n.at? (k :: a) = some m ↔ ∃ c, n.children[k]? = some c ∧ c.at? a = some m := by
  rw [at?, Option.bind_eq_some_iff]

theorem at?_append (n : Node) (a b : List Nat) : n.at? (a ++ b) = (n.at? a).bind (·.at? b) := by
  induction a generalizing n with
  | nil => rfl
  | cons k a ih =>
    rw [List.cons_append, at?, at?]
    cases n.children[k]? with
    | none => rfl
    | some c => exact ih c

theorem ancestors_nil (n : Node) : n.ancestors [] = [] := rfl

/-- A node has as many ancestors as its address has steps. -/
theorem ancestors_length {n m : Node} {a : List Nat} (h : n.at? a = some m) :
    (n.ancestors a).length = a.length := by
  induction a generalizing n with
  | nil => rfl
  | cons k a ih =>
    obtain ⟨c, hc, h⟩ := at?_cons_eq_some.mp h
    rw [ancestors_cons hc, List.length_cons, List.length_cons, ih h]

/-- The ancestors of a node are nodes of the tree that have children. -/
theorem at?_of_mem_ancestors {n m p : Node} {a : List Nat} (h : n.at? a = some m)
    (hp : p ∈ n.ancestors a) : (∃ b, n.at? b = some p) ∧ p.children ≠ [] := by
  induction a generalizing n with
  | nil => cases hp
  | cons k a ih =>
    obtain ⟨c, hc, h⟩ := at?_cons_eq_some.mp h
    rw [ancestors_cons hc, List.mem_cons] at hp
    rcases hp with rfl | hp
    · refine ⟨⟨[], rfl⟩, ?_⟩
      intro hnil
      simp [hnil] at hc
    · obtain ⟨⟨b, hb⟩, hne⟩ := ih h hp
      exact ⟨⟨k :: b, at?_cons_eq_some.mpr ⟨c, hc, hb⟩⟩, hne⟩

/-! ## The walk, child by child -/

mutual
theorem spotsAt_cons (k : Nat) : ∀ (n : Node) (a : List Nat),
    spotsAt (k :: a) n = (spotsAt a n).map (Spot.under k)
  | .mk e none, a => rfl
  | .mk e (some cs), a => by
    rw [spotsAt, spotsAt, List.map_cons, spotsFrom_cons k cs a]
    rfl

theorem spotsFrom_cons (k : Nat) : ∀ (ns : List Node) (a : List Nat) {j : Nat},
    spotsFrom (k :: a) j ns = (spotsFrom a j ns).map (Spot.under k)
  | [], a, j => rfl
  | n :: ns, a, j => by
    rw [spotsFrom, spotsFrom, List.map_append, ← spotsAt_cons k n, ← spotsFrom_cons k ns]
    rfl
end

theorem spotsFrom_eq (k : Nat) (ns : List Node) :
    spotsFrom [] k ns = (ns.zipIdx k).flatMap fun x => x.1.walk.map (Spot.under x.2) := by
  induction ns generalizing k with
  | nil => rfl
  | cons n ns ih =>
    rw [spotsFrom, List.zipIdx_cons, List.flatMap_cons, ih, walk_eq, ← spotsAt_cons]
    rfl

theorem spotsAt_children (a : List Nat) (n : Node) :
    spotsAt a n = ⟨a, n⟩ :: spotsFrom a 0 n.children := by
  cases n with
  | mk e cs =>
    cases cs with
    | none => rfl
    | some cs => rw [spotsAt]; rfl

/-- A walk visits the root and then walks through the children one after another. -/
theorem walk_children (n : Node) :
    n.walk = ⟨[], n⟩ :: n.children.zipIdx.flatMap fun x => x.1.walk.map (Spot.under x.2) := by
  rw [walk_eq, ← spotsFrom_eq, spotsAt_children]

/-- The walk visits every address that leads to a node. -/
theorem mem_walk {root : Node} {s : Spot} : s ∈ root.walk ↔ root.at? s.address = some s.node := by
  refine ⟨at?_of_mem_walk, ?_⟩
  obtain ⟨a, m⟩ := s
  intro h
  induction a generalizing root with
  | nil =>
    cases h
    rw [walk_children]
    exact List.mem_cons_self
  | cons k a ih =>
    obtain ⟨c, hc, h⟩ := at?_cons_eq_some.mp h
    rw [walk_children]
    refine List.mem_cons_of_mem _ (List.mem_flatMap.mpr ⟨(c, k), ?_, ?_⟩)
    · rwa [List.mem_zipIdx_iff_getElem?]
    · exact List.mem_map.mpr ⟨⟨a, m⟩, ih h, rfl⟩

theorem findById_eq (root : Node) (id : Nat) :
    root.findById id = (root.walk[id]?).map Spot.node := by
  rw [findById, locate_eq, Option.map_map]
  rfl

/-- A tree that stands at an address is walked through like the tree alone. -/
theorem spotsAt_eq (a : List Nat) (n : Node) :
    spotsAt a n = n.walk.map fun s => ⟨a ++ s.address, s.node⟩ := by
  induction a with
  | nil => simp [walk_eq]
  | cons k a ih =>
    rw [spotsAt_cons, ih, List.map_map]
    rfl

theorem mem_spotsAt {a : List Nat} {n : Node} {b : List Nat} {m : Node} (h : n.at? b = some m) :
    ⟨a ++ b, m⟩ ∈ spotsAt a n := by
  rw [spotsAt_eq]
  exact List.mem_map.mpr ⟨⟨b, m⟩, mem_walk.mpr h, rfl⟩

end Node
end SourceAtlas
