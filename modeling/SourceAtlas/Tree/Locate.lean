import SourceAtlas.Tree.Basic

/-! Finding nodes by position or by name. The position of a node is its place in pre-order, the root
being 0. A position is followed down by counting: a child that starts at position `p` holds the
positions from `p` up to `p` plus its number of nodes. -/

namespace SourceAtlas.Node

mutual
/-- The node at a position, with the names from the given node down to the parent. -/
def descend : Node → Nat → Option (List String × Node)
  | .mk e cs, 0 => some ([], .mk e cs)
  | .mk _ none, _ + 1 => none
  | .mk e (some cs), i + 1 =>
    (descendAll cs i).map fun (trail, n) => (e.name :: trail, n)

/-- The node at a position of a row of trees, with the names from its tree's root down. -/
def descendAll : List Node → Nat → Option (List String × Node)
  | [], _ => none
  | n :: ns, i => if i < n.nodeCount then descend n i else descendAll ns (i - n.nodeCount)
end

/-- The node at a position, with the names of its ancestors below the root, outermost first. -/
def locate (root : Node) (id : Nat) : Option (List String × Node) :=
  (root.descend id).map fun (trail, n) => (trail.drop 1, n)

def findById (root : Node) (id : Nat) : Option Node := (root.locate id).map (·.2)

def findByName (root : Node) (name : String) : Option Node :=
  root.preorder.find? (·.name == name)

/-- The position of the first node with the given name. -/
def idOf (root : Node) (name : String) : Option Nat :=
  root.preorder.findIdx? (·.name == name)

/-- The items of a list that stand there for the second time, in order. -/
def repeated (seen : List String) : List String → List String
  | [] => []
  | s :: rest =>
    if seen.count s = 1 then s :: repeated (s :: seen) rest else repeated (s :: seen) rest

/-- The names carried by two or more nodes, ordered by their second occurrence. -/
def duplicateNames (root : Node) : List String := repeated [] root.names

end SourceAtlas.Node
