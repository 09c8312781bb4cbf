import Mathlib.Data.List.Infix
import SourceAtlas.Tree.Locate

/-! # Positions, addresses and the pre-order walk

A node of a tree is told apart from its equals by its address, the numbers of the children on the
way down to it. A walk with an explicit stack visits every address once; the position of a node is
the number of nodes visited before it. Following a position down by counting subtrees
(`Node.locate`) reaches the node that the walk visits at that position, and the names met on the way
are those of the nodes at the shorter addresses. -/

namespace SourceAtlas

structure Spot where
  address : List Nat
  node : Node

/-- The children of a row where they stand below an address, the first with number `k`. -/
def Node.row (a : List Nat) (k : Nat) (ns : List Node) : List Spot :=
  (ns.zipIdx k).map fun (c, j) => ⟨a ++ [j], c⟩

theorem Node.row_cons (a : List Nat) (k : Nat) (n : Node) (ns : List Node) :
    row a k (n :: ns) = ⟨a ++ [k], n⟩ :: row a (k + 1) ns := by
  simp [row]

def Spot.below (s : Spot) : List Spot := Node.row s.address 0 s.node.children

namespace Walk

def load (stack : List Spot) : Nat := stack.foldr (fun s n => s.node.nodeCount + n) 0

/-- Pushes the children of a node, the last one first, so that the first one is visited next. -/
def push (s : Spot) (stack : List Spot) : List Spot :=
  s.below.reverse.foldl (fun stack c => c :: stack) stack

theorem push_eq (s : Spot) (stack : List Spot) : push s stack = s.below ++ stack := by
  have h (l : List Spot) : l.foldl (fun stack c => c :: stack) stack = l.reverse ++ stack := by
    induction l generalizing stack with
    | nil => rfl
    | cons c l ih => simp [ih]
  simp [push, h]

theorem load_cons (s : Spot) (stack : List Spot) :
    load (s :: stack) = s.node.nodeCount + load stack := rfl

theorem load_append (s t : List Spot) : load (s ++ t) = load s + load t := by
  induction s with
  | nil => simp [load]
  | cons c s ih => rw [List.cons_append, load_cons, load_cons, ih, Nat.add_assoc]

theorem load_row (a : List Nat) (k : Nat) (ns : List Node) :
    load (Node.row a k ns) = Node.nodeCountAll ns := by
  induction ns generalizing k with
  | nil => rfl
  | cons n ns ih => rw [Node.row_cons, load_cons, ih, Node.nodeCountAll]

theorem nodeCount_eq (n : Node) : n.nodeCount = 1 + Node.nodeCountAll n.children := by
  cases n with
  | mk e cs => cases cs <;> rfl

theorem load_below (s : Spot) : load s.below + 1 = s.node.nodeCount := by
  rw [Spot.below, load_row, nodeCount_eq, Nat.add_comm]

/-- Visits the node on top of the stack and puts its children in its place, until the stack is
empty. -/
def visits (stack : List Spot) : List Spot :=
  match stack with
  | [] => []
  | s :: stack => s :: visits (push s stack)
termination_by load stack
decreasing_by
  rw [push_eq, load_append, load_cons]
  have := load_below s
  omega

end Walk

namespace Node

/-- The nodes of a tree in the order in which a walk from the root visits them. -/
def walk (root : Node) : List Spot := Walk.visits [⟨[], root⟩]

def at? (n : Node) : List Nat → Option Node
  | [] => some n
  | k :: a => (n.children[k]?).bind (·.at? a)

/-- The nodes at the shorter addresses on the way to an address, the root first. -/
def ancestors (root : Node) (a : List Nat) : List Node := a.inits.dropLast.filterMap root.at?

mutual
/-- The nodes of a tree that stands at an address, each before its children. -/
def spotsAt (a : List Nat) : Node → List Spot
  | .mk e none => [⟨a, .mk e none⟩]
  | .mk e (some cs) => ⟨a, .mk e (some cs)⟩ :: spotsFrom a 0 cs

/-- The nodes of a row of children that starts with child number `k`. -/
def spotsFrom (a : List Nat) (k : Nat) : List Node → List Spot
  | [] => []
  | n :: ns => spotsAt (a ++ [k]) n ++ spotsFrom a (k + 1) ns
end

/-! ## The walk visits a tree before what lies under it on the stack -/

mutual
theorem visits_tree (a : List Nat) : ∀ (n : Node) (stack : List Spot),
    Walk.visits (⟨a, n⟩ :: stack) = spotsAt a n ++ Walk.visits stack
  | .mk e none, stack => by
    rw [Walk.visits, Walk.push_eq, spotsAt]
    rfl
  | .mk e (some cs), stack => by
    rw [Walk.visits, Walk.push_eq, spotsAt]
    exact congrArg _ (visits_row a 0 cs stack)

theorem visits_row (a : List Nat) (k : Nat) : ∀ (ns : List Node) (stack : List Spot),
    Walk.visits (row a k ns ++ stack) = spotsFrom a k ns ++ Walk.visits stack
  | [], stack => rfl
  | n :: ns, stack => by
    rw [row_cons, List.cons_append, visits_tree, visits_row, spotsFrom, List.append_assoc]
end

theorem walk_eq (root : Node) : root.walk = spotsAt [] root := by
  rw [walk, visits_tree, Walk.visits, List.append_nil]

mutual
theorem spotsAt_nodes (a : List Nat) : ∀ n : Node, (spotsAt a n).map Spot.node = n.preorder
  | .mk e none => rfl
  | .mk e (some cs) => by
    rw [spotsAt, preorder, List.map_cons, spotsFrom_nodes]

theorem spotsFrom_nodes (a : List Nat) (k : Nat) :
    ∀ ns : List Node, (spotsFrom a k ns).map Spot.node = preorderAll ns
  | [] => rfl
  | n :: ns => by
    rw [spotsFrom, preorderAll, List.map_append, spotsAt_nodes, spotsFrom_nodes]
end

mutual
theorem preorder_length : ∀ n : Node, n.preorder.length = n.nodeCount
  | .mk e none => rfl
  | .mk e (some cs) => by
    rw [preorder, nodeCount, List.length_cons, preorderAll_length, Nat.add_comm]

theorem preorderAll_length : ∀ ns : List Node, (preorderAll ns).length = nodeCountAll ns
  | [] => rfl
  | n :: ns => by
    rw [preorderAll, nodeCountAll, List.length_append, preorder_length, preorderAll_length]
end

theorem spotsAt_length (a : List Nat) (n : Node) : (spotsAt a n).length = n.nodeCount := by
  rw [← preorder_length, ← spotsAt_nodes a, List.length_map]

theorem walk_length (root : Node) : root.walk.length = root.nodeCount := by
  rw [walk_eq, spotsAt_length]

/-! ## Addresses -/

mutual
/-- The nodes of a tree stand below its own address. -/
theorem address_of_mem {a : List Nat} {s : Spot} : ∀ {n : Node}, s ∈ spotsAt a n →
    ∃ b, s.address = a ++ b ∧ n.at? b = some s.node
  | .mk e none, h => by
    rw [spotsAt, List.mem_singleton] at h
    subst h
    exact ⟨[], (List.append_nil a).symm, rfl⟩
  | .mk e (some cs), h => by
    rw [spotsAt, List.mem_cons] at h
    rcases h with rfl | h
    · exact ⟨[], (List.append_nil a).symm, rfl⟩
    · obtain ⟨j, c, b, hj, hc, hb⟩ := address_of_mem_row h
      exact ⟨j :: b, by simpa using hj, by simp [at?, children, listed, hc, hb]⟩

theorem address_of_mem_row {a : List Nat} {s : Spot} {k : Nat} : ∀ {ns : List Node},
    s ∈ spotsFrom a k ns →
      ∃ j c b, s.address = a ++ (k + j) :: b ∧ ns[j]? = some c ∧ c.at? b = some s.node
  | [], h => by cases h
  | n :: ns, h => by
    rw [spotsFrom, List.mem_append] at h
    rcases h with h | h
    · obtain ⟨b, hb, hn⟩ := address_of_mem h
      exact ⟨0, n, b, by simpa using hb, rfl, hn⟩
    · obtain ⟨j, c, b, hj, hc, hb⟩ := address_of_mem_row h
      exact ⟨j + 1, c, b, by rw [hj]; congr 2; omega, hc, hb⟩
end

theorem at?_of_mem_walk {root : Node} {s : Spot} (h : s ∈ root.walk) :
    root.at? s.address = some s.node := by
  rw [walk_eq] at h
  obtain ⟨b, hb, hn⟩ := address_of_mem h
  rwa [hb]

mutual
theorem spotsAt_nodup (a : List Nat) : ∀ n : Node, ((spotsAt a n).map Spot.address).Nodup
  | .mk e none => by simp [spotsAt]
  | .mk e (some cs) => by
    rw [spotsAt, List.map_cons, List.nodup_cons]
    refine ⟨?_, spotsFrom_nodup a 0 cs⟩
    intro h
    obtain ⟨s, hs, ha⟩ := List.mem_map.mp h
    obtain ⟨j, _, b, hj, _, _⟩ := address_of_mem_row hs
    simp [hj] at ha

theorem spotsFrom_nodup (a : List Nat) (k : Nat) :
    ∀ ns : List Node, ((spotsFrom a k ns).map Spot.address).Nodup
  | [] => List.nodup_nil
  | n :: ns => by
    rw [spotsFrom, List.map_append, List.nodup_append]
    refine ⟨spotsAt_nodup (a ++ [k]) n, spotsFrom_nodup a (k + 1) ns, ?_⟩
    -- a tree of the row and those after it differ in the number that follows `a`
    intro _ hl _ hr he
    obtain ⟨s, hs, rfl⟩ := List.mem_map.mp hl
    obtain ⟨t, ht, rfl⟩ := List.mem_map.mp hr
    obtain ⟨b, hb, _⟩ := address_of_mem hs
    obtain ⟨j, _, b', hj, _, _⟩ := address_of_mem_row ht
    rw [hb, hj, List.append_assoc, List.append_cancel_left_eq, List.singleton_append,
      List.cons.injEq] at he
    omega
end

/-- No address is visited twice. -/
theorem walk_nodup (root : Node) : (root.walk.map Spot.address).Nodup := by
  rw [walk_eq]
  exact spotsAt_nodup [] root

theorem ancestors_cons {n c : Node} {k : Nat} (h : n.children[k]? = some c) (a : List Nat) :
    n.ancestors (k :: a) = n :: c.ancestors a := by
  have hne : a.inits.map (k :: ·) ≠ [] := by cases a <;> simp
  have hat (b : List Nat) : n.at? (k :: b) = c.at? b := by rw [at?, h, Option.bind_some]
  have hroot : n.at? [] = some n := rfl
  rw [ancestors, List.inits_cons, List.dropLast_cons_of_ne_nil hne,
    List.filterMap_cons_some hroot, ← List.map_dropLast, List.filterMap_map]
  exact congrArg _ (List.filterMap_congr fun b _ => hat b)

/-! ## Counting down to a position -/

mutual
/-- Counting reaches the node that stands at the position, by way of the nodes above it. -/
theorem descend_spot {a : List Nat} {s : Spot} : ∀ {n : Node} {i : Nat} {b : List Nat},
    (spotsAt a n)[i]? = some s → s.address = a ++ b →
      n.descend i = some ((n.ancestors b).map name, s.node)
  | .mk e none, 0, b, h, hb => by
    cases h
    obtain rfl := List.self_eq_append_right.mp hb
    rfl
  | .mk e none, i + 1, b, h, hb => by cases h
  | .mk e (some cs), 0, b, h, hb => by
    cases h
    obtain rfl := List.self_eq_append_right.mp hb
    rfl
  | .mk e (some cs), i + 1, b, h, hb => by
    obtain ⟨j, c, b', hj, hc, hd⟩ := descendAll_spot (k := 0) h
    rw [hj, List.append_cancel_left_eq, Nat.zero_add] at hb
    subst hb
    rw [descend, hd, ancestors_cons hc]
    rfl

theorem descendAll_spot {a : List Nat} {s : Spot} : ∀ {ns : List Node} {i k : Nat},
    (spotsFrom a k ns)[i]? = some s →
      ∃ j c b, s.address = a ++ (k + j) :: b ∧ ns[j]? = some c ∧
        descendAll ns i = some ((c.ancestors b).map name, s.node)
  | [], i, k, h => by cases h
  | n :: ns, i, k, h => by
    rw [spotsFrom, List.getElem?_append, spotsAt_length] at h
    rw [descendAll]
    split at h
    · next hi =>
      obtain ⟨b, hb, _⟩ := address_of_mem (List.mem_of_getElem? h)
      refine ⟨0, n, b, by simpa using hb, rfl, ?_⟩
      rw [if_pos hi]
      exact descend_spot h hb
    · next hi =>
      obtain ⟨j, c, b, hj, hc, hd⟩ := descendAll_spot h
      refine ⟨j + 1, c, b, by rw [hj]; congr 2; omega, hc, ?_⟩
      rw [if_neg hi]
      exact hd
end

mutual
theorem descend_none : ∀ {n : Node} {i : Nat}, n.nodeCount ≤ i → n.descend i = none
  | .mk e none, 0, h => by simp [nodeCount] at h
  | .mk e (some cs), 0, h => by simp [nodeCount] at h
  | .mk e none, i + 1, h => rfl
  | .mk e (some cs), i + 1, h => by
    rw [nodeCount] at h
    rw [descend, descendAll_none (by omega)]
    rfl

theorem descendAll_none : ∀ {ns : List Node} {i : Nat}, nodeCountAll ns ≤ i →
    descendAll ns i = none
  | [], i, h => rfl
  | n :: ns, i, h => by
    rw [nodeCountAll] at h
    rw [descendAll, if_neg (by omega), descendAll_none (by omega)]
end

/-- Counting down to a position gives what the walk meets there. -/
theorem locate_eq (root : Node) (id : Nat) :
    root.locate id =
      (root.walk[id]?).map fun s => ((root.ancestors s.address).tail.map name, s.node) := by
  rw [walk_eq, locate]
  cases h : (spotsAt [] root)[id]? with
  | none =>
    rw [List.getElem?_eq_none_iff, spotsAt_length] at h
    rw [descend_none h]
    rfl
  | some s =>
    rw [descend_spot h (List.nil_append _).symm]
    simp

/-- Counting down finds a node exactly at the positions of the tree. It is the one that the walk
visits at that position, and the trail names the nodes above it, the root left out. -/
theorem locate_walk (root : Node) (id : Nat) :
    ((root.locate id).isSome ↔ id < root.nodeCount) ∧ root.walk.length = root.nodeCount ∧
    ∀ trail n, root.locate id = some (trail, n) → root.findById id = some n ∧
      ∃ s, root.walk[id]? = some s ∧ s.node = n ∧ root.at? s.address = some n ∧
        trail = (root.ancestors s.address).tail.map name := by
  rw [← walk_length]
  refine ⟨?_, rfl, ?_⟩
  · rw [locate_eq, Option.isSome_map]
    simp
  · intro trail n h
    refine ⟨by rw [findById, h]; rfl, ?_⟩
    rw [locate_eq, Option.map_eq_some_iff] at h
    obtain ⟨s, hs, he⟩ := h
    cases he
    exact ⟨s, hs, rfl, at?_of_mem_walk (List.mem_of_getElem? hs), rfl⟩

end Node
end SourceAtlas
