import Mathlib.Data.List.Forall2
import SourceAtlas.Diagram.TreeState
import SourceAtlas.Proofs.Tree.Lineage

/-! # The items of a collapsible tree

The items of a tree stand in the order of the pre-order walk. `itemsOf` numbers them by counting
subtrees; the item at a position describes the spot that the walk visits there. -/

namespace SourceAtlas

/-- From position `id` on the walk `w` goes through the spots `l`. -/
def Through (w : List Spot) (id : Nat) (l : List Spot) : Prop := l <+: w.drop id

namespace Through

theorem whole (w : List Spot) : Through w 0 w := List.prefix_rfl

theorem head {w : List Spot} {id : Nat} {s : Spot} {l : List Spot} (h : Through w id (s :: l)) :
    w[id]? = some s := by
  obtain ⟨rest, h⟩ := h
  rw [← List.head?_drop, ← h]
  rfl

theorem left {w : List Spot} {id : Nat} {l r : List Spot} (h : Through w id (l ++ r)) :
    Through w id l :=
  (List.prefix_append l r).trans h

theorem right {w : List Spot} {id : Nat} {l r : List Spot} (h : Through w id (l ++ r)) :
    Through w (id + l.length) r := by
  obtain ⟨rest, h⟩ := h
  refine ⟨rest, ?_⟩
  rw [← List.drop_drop, ← h, List.append_assoc, List.drop_left]

theorem tail {w : List Spot} {id : Nat} {s : Spot} {l : List Spot} (h : Through w id (s :: l)) :
    Through w (id + 1) l :=
  right (l := [s]) h

end Through

namespace TreeState

variable {α : Type}

/-- The position `parent` is that of the node above the address `a` in the walk `w`. -/
def Under (w : List Spot) (parent : Option Nat) (a : List Nat) : Prop :=
  (parent = none ∧ a = []) ∨ ∃ p s k, parent = some p ∧ w[p]? = some s ∧ a = s.address ++ [k]

/-- What the item at position `i` says of the spot that the walk `w` visits there. -/
structure Item.Describes (w : List Spot) (i : Nat) (it : Item α) (s : Spot) : Prop where
  name : it.name = s.node.name
  category : it.category = Category.ofEntry s.node.entry
  depth : it.depth = s.address.length
  parent : Under w it.parent s.address
  children : it.children = startIds (i + 1) s.node.children

/-- The parent that an item names is the parent in the tree, and only the root has none. -/
theorem Item.Describes.parent_eq {root : Node} {i : Nat} {it : Item α} {s : Spot}
    (h : it.Describes root.walk i s) (hs : root.walk[i]? = some s) :
    (it.parent = none ∧ i = 0) ∨ ∃ p, it.parent = some p ∧ root.IsParent p i ∧ i ≠ 0 := by
  rcases h.parent with ⟨hp, ha⟩ | ⟨p, t, k, hp, ht, ha⟩
  · exact .inl ⟨hp, (Node.address_eq_nil hs).mp ha⟩
  · refine .inr ⟨p, hp, ⟨t, s, k, ht, hs, ha⟩, ?_⟩
    intro hi
    rw [← Node.address_eq_nil hs, ha] at hi
    simp at hi

/-- Items of a fresh state beside the spots of the walk `w`, position by position. -/
def Fresh (w : List Spot) : List (Item α × Nat) → List Spot → Prop :=
  List.Forall₂ fun p s => p.1.Describes w p.2 s ∧ p.1.expanded = s.address.isEmpty

variable [Scalar α]

mutual
theorem itemsOf_length (parent : Option Nat) (depth id : Nat) :
    ∀ n : Node, (itemsOf parent depth id n : List (Item α)).length = n.nodeCount
  | .mk e none => rfl
  | .mk e (some cs) => by
    rw [itemsOf, List.length_cons, itemsBelow_length, Node.nodeCount, Nat.add_comm]

theorem itemsBelow_length (parent depth id : Nat) :
    ∀ ns : List Node, (itemsBelow parent depth id ns : List (Item α)).length = Node.nodeCountAll ns
  | [] => rfl
  | n :: ns => by
    rw [itemsBelow, List.length_append, itemsOf_length, itemsBelow_length, Node.nodeCountAll]
end

theorem expanded_ofEntry (e : Entry) (parent : Option Nat) (a children : List Nat) :
    (Item.ofEntry e parent a.length children : Item α).expanded = a.isEmpty := by
  cases a <;> rfl

mutual
/-- Where the walk goes through a tree, the items of the tree describe it step by step. -/
theorem itemsOf_describes {w : List Spot} : ∀ (n : Node) {a : List Nat} {parent : Option Nat}
    {id : Nat}, Through w id (Node.spotsAt a n) → Under w parent a →
      Fresh w ((itemsOf parent a.length id n : List (Item α)).zipIdx id) (Node.spotsAt a n)
  | .mk e none, a, parent, id, _, hp => by
    rw [itemsOf, Node.spotsAt]
    exact .cons ⟨⟨rfl, rfl, rfl, hp, rfl⟩, expanded_ofEntry ..⟩ .nil
  | .mk e (some cs), a, parent, id, hw, hp => by
    rw [Node.spotsAt] at hw
    rw [itemsOf, Node.spotsAt]
    refine .cons ⟨⟨rfl, rfl, rfl, hp, rfl⟩, expanded_ofEntry ..⟩ ?_
    exact itemsBelow_describes cs hw.tail hw.head

theorem itemsBelow_describes {w : List Spot} :
    ∀ (ns : List Node) {a : List Nat} {p : Nat} {r : Node}
    {id k : Nat}, Through w id (Node.spotsFrom a k ns) → w[p]? = some ⟨a, r⟩ →
      Fresh w ((itemsBelow p (a.length + 1) id ns : List (Item α)).zipIdx id)
        (Node.spotsFrom a k ns)
  | [], _, _, _, _, _, _, _ => .nil
  | n :: ns, a, p, r, id, k, hw, hp => by
    rw [Node.spotsFrom] at hw
    have hright := hw.right
    rw [Node.spotsAt_length] at hright
    rw [itemsBelow, Node.spotsFrom, List.zipIdx_append, itemsOf_length]
    have hunder : Under w (some p) (a ++ [k]) := .inr ⟨p, ⟨a, r⟩, k, rfl, hp, rfl⟩
    have hleft := itemsOf_describes n hw.left hunder
    rw [List.length_append] at hleft
    exact List.rel_append hleft (itemsBelow_describes ns hright hp)
end

theorem ofTree_size (root : Node) : (ofTree root : TreeState α).size = root.nodeCount := by
  simp [ofTree, size, itemsOf_length]

/-- The item at a position of a fresh state describes the spot that the walk visits there. -/
theorem ofTree_describes {root : Node} {i : Nat} {s : Spot} (hs : root.walk[i]? = some s) :
    ∃ it : Item α, (ofTree root).item? i = some it ∧ it.Describes root.walk i s ∧
      it.expanded = s.address.isEmpty := by
  have hw : Through root.walk 0 (Node.spotsAt [] root) := by
    rw [← Node.walk_eq]
    exact .whole _
  have hall : Fresh root.walk
      ((itemsOf none ([] : List Nat).length 0 root : List (Item α)).zipIdx 0)
      (Node.spotsAt [] root) :=
    itemsOf_describes root hw (.inl ⟨rfl, rfl⟩)
  rw [← Node.walk_eq] at hall
  obtain ⟨hi, rfl⟩ := List.getElem?_eq_some_iff.mp hs
  have hlen : i < (itemsOf none 0 0 root : List (Item α)).length := by
    rwa [itemsOf_length, ← Node.walk_length]
  refine ⟨(itemsOf none 0 0 root)[i], ?_, ?_⟩
  · simp [ofTree, item?]
  · simpa using hall.get (by simpa using hlen) hi

end TreeState
end SourceAtlas
