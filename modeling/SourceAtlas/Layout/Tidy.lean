import SourceAtlas.Geometry.Rect

/-! Tidy drawing of a tree in linear time. Siblings stand one unit apart and other neighbours of a
level two; a parent is centred above its first and last child. A first walk, children before
parents, places each subtree beside its left siblings by following the two contours that face each
other; a second pass adds up the displacements. Threads continue a contour below the end of a
shorter subtree, so that a contour can be followed without visiting the whole subtree. -/

namespace SourceAtlas.Layout

/-- The shape of a tree whose nodes are numbered in pre-order. One more node, numbered last, stands
above the root, so that every node has a parent. -/
structure Shape where
  count : Nat
  parents : Array Nat
  childLists : Array (List Nat)
  depths : Array Nat
  numbers : Array Nat

namespace Shape

def empty (count : Nat) : Shape :=
  { count
    parents := Array.replicate (count + 1) count
    childLists := Array.replicate (count + 1) []
    depths := Array.replicate (count + 1) 0
    numbers := Array.replicate (count + 1) 0 }

def parent (s : Shape) (v : Nat) : Nat := s.parents.getD v s.count

def children (s : Shape) (v : Nat) : List Nat := s.childLists.getD v []

/-- The number of edges from the root to a node. -/
def depth (s : Shape) (v : Nat) : Nat := s.depths.getD v 0

def number (s : Shape) (v : Nat) : Nat := s.numbers.getD v 0

/-- Adds node `v` below `parent?`; without a parent it stands below the extra node. -/
def add (s : Shape) (v : Nat) (parent? : Option Nat) : Shape :=
  let p := parent?.getD s.count
  let siblings := s.children p
  { s with
    parents := s.parents.setIfInBounds v p
    childLists := s.childLists.setIfInBounds p (siblings ++ [v])
    depths := if p < s.count then s.depths.setIfInBounds v (s.depth p + 1) else s.depths
    numbers := s.numbers.setIfInBounds v siblings.length }

def ofParents (parents : List (Option Nat)) : Shape :=
  parents.zipIdx.foldl (fun s (parent?, v) => s.add v parent?) (empty parents.length)

/-- The nodes of the subtree at `v`, children before parents and left before right; `fuel` bounds
the depth. -/
def postorder (s : Shape) : (fuel v : Nat) → List Nat
  | 0, _ => []
  | fuel + 1, v => (s.children v).flatMap (s.postorder fuel) ++ [v]

def leftSibling? (s : Shape) (v : Nat) : Option Nat :=
  match s.number v with
  | 0 => none
  | i + 1 => (s.children (s.parent v))[i]?

def separation {α : Type} [Scalar α] (s : Shape) (v w : Nat) : α :=
  if s.parent v = s.parent w then 1.0 else 2.0

end Shape

/-- What the walk knows of each node. -/
structure Walk (α : Type) where
  /-- The node of the subtree's level to which a displacement has to be charged. -/
  ancestors : Array Nat
  /-- For each parent, the child charged when no better one is known. -/
  fallbacks : Array (Option Nat)
  /-- The place relative to the siblings. -/
  prelims : Array α
  /-- The displacement of the subtree below the node. -/
  modifiers : Array α
  /-- The change of displacement from one sibling to the next. -/
  changes : Array α
  /-- The displacement owed to the node and its right siblings. -/
  shifts : Array α
  /-- Where a contour goes on below a node without children. -/
  threads : Array (Option Nat)

namespace Walk

variable {α : Type} [Scalar α]

/-- Nothing is displaced, and every node answers for itself. -/
def start (count : Nat) : Walk α :=
  { ancestors := Array.range (count + 1)
    fallbacks := Array.replicate (count + 1) none
    prelims := Array.replicate (count + 1) 0.0
    modifiers := Array.replicate (count + 1) 0.0
    changes := Array.replicate (count + 1) 0.0
    shifts := Array.replicate (count + 1) 0.0
    threads := Array.replicate (count + 1) none }

/-- The place of a node relative to its siblings. -/
def prelim (w : Walk α) (v : Nat) : α := w.prelims.getD v 0.0

/-- The displacement of the subtree below a node. -/
def modifier (w : Walk α) (v : Nat) : α := w.modifiers.getD v 0.0

def change (w : Walk α) (v : Nat) : α := w.changes.getD v 0.0

def shift (w : Walk α) (v : Nat) : α := w.shifts.getD v 0.0

/-- The node charged for a node. -/
def ancestor (w : Walk α) (v : Nat) : Nat := w.ancestors.getD v v

def thread (w : Walk α) (v : Nat) : Option Nat := w.threads.getD v none

/-- The child of `p` charged when no better one is known. -/
def fallback (w : Walk α) (p : Nat) : Option Nat := w.fallbacks.getD p none

/-- The child of `p` charged for a conflict at `u`. -/
def charged (w : Walk α) (s : Shape) (p fallback u : Nat) : Nat :=
  if s.parent (w.ancestor u) = p then w.ancestor u else fallback

def setPrelim (w : Walk α) (v : Nat) (a : α) : Walk α :=
  { w with prelims := w.prelims.setIfInBounds v a }

def setModifier (w : Walk α) (v : Nat) (a : α) : Walk α :=
  { w with modifiers := w.modifiers.setIfInBounds v a }

def setThread (w : Walk α) (v next : Nat) : Walk α :=
  { w with threads := w.threads.setIfInBounds v (some next) }

def setAncestor (w : Walk α) (v u : Nat) : Walk α :=
  { w with ancestors := w.ancestors.setIfInBounds v u }

def setFallback (w : Walk α) (p u : Nat) : Walk α :=
  { w with fallbacks := w.fallbacks.setIfInBounds p (some u) }

/-- Continues the contour that ends at `v` with `next`, which stands further right by `amount`. -/
def hook (w : Walk α) (v next : Nat) (amount : α) : Walk α :=
  (w.setThread v next).setModifier v (w.modifier v + amount)

def nextLeft (w : Walk α) (s : Shape) (v : Nat) : Option Nat :=
  (s.children v).head? <|> w.thread v

def nextRight (w : Walk α) (s : Shape) (v : Nat) : Option Nat :=
  (s.children v).getLast? <|> w.thread v

/-- Moves the subtree at `right` by an amount, the siblings between it and `left` sharing it. -/
def moveSubtree (w : Walk α) (s : Shape) (left right : Nat) (amount : α) : Walk α :=
  let change := amount / (Scalar.ofCount (s.number right) - Scalar.ofCount (s.number left))
  let changes := w.changes.setIfInBounds right (w.change right - change)
  let changes := changes.setIfInBounds left (changes.getD left 0.0 + change)
  { w with
    changes
    shifts := w.shifts.setIfInBounds right (w.shift right + amount)
    prelims := w.prelims.setIfInBounds right (w.prelim right + amount)
    modifiers := w.modifiers.setIfInBounds right (w.modifier right + amount) }

/-- Pays out the displacements owed to the children given from right to left. -/
def payShifts (w : Walk α) (owed change : α) : List Nat → Walk α
  | [] => w
  | v :: vs =>
    let w := (w.setPrelim v (w.prelim v + owed)).setModifier v (w.modifier v + owed)
    let change := change + w.change v
    payShifts w (owed + (w.shift v + change)) change vs

/-- Pays out the displacements owed to the children of a node. -/
def executeShifts (w : Walk α) (s : Shape) (v : Nat) : Walk α :=
  w.payShifts 0.0 0.0 (s.children v).reverse

/-- Four contours, followed level by level: the inner ones face each other, the outer ones bound the
two forests. Each comes with the displacement added up along it. -/
structure Contours (α : Type) where
  innerLeft : Nat
  innerRight : Nat
  outerLeft : Nat
  outerRight : Nat
  sumInnerLeft : α
  sumInnerRight : α
  sumOuterLeft : α
  sumOuterRight : α

/-- The contours at the roots: `left` and `v` face each other, `first` is the leftmost root. -/
def atRoots (w : Walk α) (first left v : Nat) : Contours α :=
  { innerLeft := left, innerRight := v, outerLeft := first, outerRight := v
    sumInnerLeft := w.modifier left, sumInnerRight := w.modifier v
    sumOuterLeft := w.modifier first, sumOuterRight := w.modifier v }

/-- How far the right forest has to move for two nodes, next on the inner contours, to keep their
separation. -/
def gap (w : Walk α) (s : Shape) (c : Contours α) (left right : Nat) : α :=
  w.prelim left + c.sumInnerLeft - w.prelim right - c.sumInnerRight + s.separation left right

/-- Takes the contours on to the given nodes, and moves the subtree at `v` to the right where it
comes too close. -/
def clearLevel (s : Shape) (v fallback : Nat) (w : Walk α) (c : Contours α)
    (innerLeft innerRight outerLeft outerRight : Nat) : Walk α × Contours α :=
  let w := w.setAncestor outerRight v
  let gap := w.gap s c innerLeft innerRight
  let moves := Scalar.less 0.0 gap
  let w := if moves then w.moveSubtree s (w.charged s (s.parent v) fallback innerLeft) v gap else w
  let sumInnerRight := if moves then c.sumInnerRight + gap else c.sumInnerRight
  let sumOuterRight := if moves then c.sumOuterRight + gap else c.sumOuterRight
  (w,
    { innerLeft, innerRight, outerLeft, outerRight
      sumInnerLeft := c.sumInnerLeft + w.modifier innerLeft
      sumInnerRight := sumInnerRight + w.modifier innerRight
      sumOuterLeft := c.sumOuterLeft + w.modifier outerLeft
      sumOuterRight := sumOuterRight + w.modifier outerRight })

/-- Follows the contours down until an inner one ends, and moves the subtree at `v` to the right
wherever it comes too close. The next nodes of the inner contours come with the result. -/
def clear (s : Shape) (v fallback : Nat) : (fuel : Nat) → Walk α → Contours α →
    Walk α × Contours α × Option Nat × Option Nat
  | 0, w, c => (w, c, none, none)
  | fuel + 1, w, c =>
    match w.nextRight s c.innerLeft, w.nextLeft s c.innerRight with
    | some innerLeft, some innerRight =>
      match w.nextLeft s c.outerLeft, w.nextRight s c.outerRight with
      | some outerLeft, some outerRight =>
        let (w, c) := clearLevel s v fallback w c innerLeft innerRight outerLeft outerRight
        clear s v fallback fuel w c
      | _, _ => (w, c, none, none)
    | innerLeft, innerRight => (w, c, innerLeft, innerRight)

/-- Moves the subtree at `v` clear of its left siblings and threads the contours on. The node
charged by default for the next sibling comes with the result. -/
def apportion (w : Walk α) (s : Shape) (v left fallback : Nat) : Walk α × Nat :=
  let first := (s.children (s.parent v)).headD v
  let (w, c, moreLeft, moreRight) := clear s v fallback (s.count + 1) w (w.atRoots first left v)
  let w := match moreLeft, w.nextRight s c.outerRight with
    | some next, none => w.hook c.outerRight next (c.sumInnerLeft - c.sumOuterRight)
    | _, _ => w
  match moreRight, w.nextLeft s c.outerLeft with
  | some next, none => (w.hook c.outerLeft next (c.sumInnerRight - c.sumOuterLeft), v)
  | _, _ => (w, fallback)

/-- Places a node beside its left sibling and above the middle of its children. -/
def placeNode (w : Walk α) (s : Shape) (v : Nat) : Walk α :=
  match (s.children v).head?, (s.children v).getLast?, s.leftSibling? v with
  | some first, some last, left? =>
    let w := w.executeShifts s v
    let middle := (w.prelim first + w.prelim last) / 2.0
    match left? with
    | some left =>
      let w := w.setPrelim v (w.prelim left + s.separation v left)
      w.setModifier v (w.prelim v - middle)
    | none => w.setPrelim v middle
  | _, _, some left => w.setPrelim v (w.prelim left + s.separation v left)
  | _, _, none => w

/-- The step of the first walk at a node, its children being done. -/
def visit (s : Shape) (w : Walk α) (v : Nat) : Walk α :=
  let p := s.parent v
  let w := w.placeNode s v
  let fallback := (w.fallback p).getD ((s.children p).headD v)
  let (w, fallback) := match s.leftSibling? v with
    | some left => w.apportion s v left fallback
    | none => (w, fallback)
  w.setFallback p fallback

def inherit (s : Shape) (w : Walk α) (v : Nat) : Walk α :=
  w.setModifier v (w.modifier v + w.modifier (s.parent v))

def firstWalk (s : Shape) : Walk α :=
  (s.postorder (s.count + 1) 0).foldl (visit s) (start s.count)

def run (s : Shape) : Walk α :=
  let w := firstWalk s
  let w := w.setModifier s.count (-w.prelim 0)
  (List.range s.count).foldl (inherit s) w

def place (s : Shape) (w : Walk α) (v : Nat) : α := w.prelim v + w.modifier (s.parent v)

end Walk

variable {α : Type} [Scalar α]

/-- The first index whose entry is strictly better than all before it. -/
def bestIndex (better : α → α → Bool) (xs : Array α) : Nat :=
  (List.range xs.size).foldl
    (fun best v => if better (xs.getD v 0.0) (xs.getD best 0.0) then v else best) 0

/-- The places of the nodes before they are fitted into a breadth. -/
def unitPlaces (s : Shape) : Array α :=
  let w : Walk α := Walk.run s
  ((List.range s.count).map (Walk.place s w)).toArray

def leftmost (xs : Array α) : Nat := bestIndex Scalar.less xs

def rightmost (xs : Array α) : Nat := bestIndex (fun a b => Scalar.less b a) xs

/-- What is kept free at both ends: half the separation of the outermost nodes. -/
def margin (s : Shape) (xs : Array α) : α :=
  if leftmost xs = rightmost xs then 1.0 else s.separation (leftmost xs) (rightmost xs) / 2.0

/-- The displacement that puts the leftmost node at the margin. -/
def inset (s : Shape) (xs : Array α) : α := margin s xs - xs.getD (leftmost xs) 0.0

/-- The factor that stretches the places to the breadth, margins included. -/
def scale (s : Shape) (xs : Array α) (breadth : α) : α :=
  breadth / (xs.getD (rightmost xs) 0.0 + margin s xs + inset s xs)

/-- Places for the nodes of a tree given by the parents of its nodes in pre-order. The breadth keeps
half a separation free at both ends; a level of depth `d` stands at `d * extent / (levels + 1)`. -/
def tidyTree (parents : List (Option Nat)) (breadth extent : α) (levels : Nat) : List (Point α) :=
  match parents with
  | [] => []
  | parents =>
    let s := Shape.ofParents parents
    let xs : Array α := unitPlaces s
    let tx := inset s xs
    let kx := scale s xs breadth
    let column := extent / Scalar.ofCount (levels + 1)
    (List.range s.count).map fun v =>
      ⟨(xs.getD v 0.0 + tx) * kx, Scalar.ofCount (s.depth v) * column⟩

end SourceAtlas.Layout
