import SourceAtlas.Diagram.TreeState
import SourceAtlas.Diagram.Dimensions
import SourceAtlas.Panel.Basic

/-! A collapsible tree on the screen. A click expands or collapses a node and lays the tree out
anew; the transition tells where each node moves. Nodes that appear grow out of the place where the
clicked node was, and nodes that vanish shrink into the place where it is. -/

namespace SourceAtlas

namespace TreeState

/-- Whether a node appears, stays or vanishes. -/
inductive Phase where
  | enter
  | update
  | exit
  deriving DecidableEq, Repr

def Phase.name : Phase → String
  | .enter => "enter"
  | .update => "update"
  | .exit => "exit"

structure Move (α : Type) where
  id : Nat
  phase : Phase
  origin : Point α
  target : Point α

/-- The movement from one frame to the next after a click on `source`. -/
structure Transition (α : Type) where
  source : Nat
  duration : Nat
  moves : List (Move α)

def Transition.ids {α : Type} (t : Transition α) (phase : Phase) : List Nat :=
  (t.moves.filter (·.phase == phase)).map (·.id)

/-- How long a transition lasts, in milliseconds. -/
def transitionTime : Nat := 750

variable {α : Type} [Scalar α]

/-- The movement between two frames, new nodes growing out of `origin`. -/
def Transition.between (source : Nat) (origin : Point α) (old new : Frame α) : Transition α :=
  let target := ((new.get? source).map (·.position)).getD origin
  let arriving := new.nodes.map fun n =>
    match old.get? n.id with
    | some was => (⟨n.id, .update, was.position, n.position⟩ : Move α)
    | none => ⟨n.id, .enter, origin, n.position⟩
  let leaving := (old.nodes.filter fun n => !new.contains n.id).map fun n =>
    (⟨n.id, .exit, n.position, target⟩ : Move α)
  ⟨source, transitionTime, arriving ++ leaving⟩

def Extent.ofDimensions (d : Dimensions α) : Extent α :=
  ⟨d.boundHeight * 1.5, d.boundWidth * 1.25⟩

end TreeState

open TreeState

structure TreeView (α : Type) where
  state : TreeState α
  dims : Dimensions α
  frame : Frame α
  last : Option (Transition α)

namespace TreeView

variable {α : Type} [Scalar α]

def extent (v : TreeView α) : Extent α := Extent.ofDimensions v.dims

def refresh (v : TreeView α) (source : Nat) (origin : Point α) : Transition α × TreeView α :=
  let next := v.state.frame v.extent
  let transition := Transition.between source origin v.frame next
  (transition, { v with state := v.state.record next, frame := next, last := some transition })

/-- The view in which only the root is expanded; it grows out of the middle of the left edge. -/
def ofTree (root : Node) (dims : Dimensions α) : TreeView α :=
  let v : TreeView α := ⟨TreeState.ofTree root, dims, Frame.blank, none⟩
  (v.refresh 0 ⟨v.extent.breadth / 2.0, 0.0⟩).2

/-- Expands or collapses a node; nothing happens when there is no such node. -/
def click (v : TreeView α) (id : Nat) : Option (Transition α) × TreeView α :=
  match v.state.item? id with
  | some i =>
    let (transition, v) := { v with state := v.state.toggle id }.refresh id i.position
    (some transition, v)
  | none => (none, v)

def clickName (v : TreeView α) (name : String) : Option (Transition α) × TreeView α :=
  match v.state.idOf name with
  | some id => v.click id
  | none => (none, v)

/-- A click that also selects the node for the detail panel. -/
def select (v : TreeView α) (root : Node) (id : Nat) :
    Option (Transition α × Subject) × TreeView α :=
  match Subject.at? root id, v.click id with
  | some subject, (some transition, v) => (some (transition, subject), v)
  | _, _ => (none, v)

/-- Expands the first nodes with the given names in turn, those that are expanded being left alone.
The first name that no node carries is the error. -/
def expandNames (v : TreeView α) : List String → Except String (TreeView α)
  | [] => .ok v
  | name :: names =>
    match v.state.idOf name with
    | none => .error name
    | some id => (if v.state.isExpanded id then v else (v.click id).2).expandNames names

end TreeView

end SourceAtlas
