import Mathlib.Logic.Function.Iterate
import SourceAtlas.Proofs.Diagram.Visible

/-! # States up to the places of their nodes

A frame is drawn from the outline of a state, which leaves out where the nodes stand. Remembering
the places of a frame keeps the outline; toggling acts on the outline, node by node, so that the
order of toggles does not matter and two toggles of one node cancel out. -/

namespace SourceAtlas.TreeState

variable {α : Type}

/-- States with the same items at all positions are equal. -/
theorem ext_item? {st su : TreeState α} (hi : ∀ i, st.item? i = su.item? i)
    (hl : st.levels = su.levels) : st = su := by
  cases st
  cases su
  simp only [mk.injEq]
  exact ⟨Array.ext_getElem? hi, hl⟩

theorem modify_item? (st : TreeState α) (id : Nat) (f : Item α → Item α) (i : Nat) :
    (st.modify id f).item? i = if id = i then (st.item? i).map f else st.item? i := by
  rw [modify, item?, Array.getElem?_modify]
  rfl

/-! ## Toggling -/

/-- The item after the given number of toggles; one without children stays as it is. -/
def Item.toggled (n : Nat) (it : Item α) : Item α :=
  if it.children.isEmpty then it else { it with expanded := not^[n] it.expanded }

theorem Item.toggled_zero (it : Item α) : it.toggled 0 = it := by
  rw [toggled]
  split <;> rfl

theorem Item.toggled_toggled (m n : Nat) (it : Item α) :
    (it.toggled m).toggled n = it.toggled (m + n) := by
  by_cases h : it.children.isEmpty
  · simp [toggled, h]
  · simp [toggled, h, Nat.add_comm m, Function.iterate_add_apply]

/-- A flag that was flipped a number of times has changed when that number is odd. -/
theorem iterate_not (k : Nat) (b : Bool) : not^[k] b = (b != (k % 2 == 1)) := by
  induction k with
  | zero => simp
  | succ k ih =>
    rw [Function.iterate_succ_apply', ih]
    rcases Nat.mod_two_eq_zero_or_one k with hk | hk <;> cases b <;> simp [hk, Nat.add_mod]

/-- Only the parity of the number of toggles counts. -/
theorem Item.toggled_congr {it : Item α} {m n : Nat} (h : it.children ≠ [] → m % 2 = n % 2) :
    it.toggled m = it.toggled n := by
  rw [toggled, toggled]
  split
  · rfl
  · next hc =>
    rw [iterate_not m, iterate_not n, h (by simpa using hc)]

theorem Item.Describes.toggled {w : List Spot} {i : Nat} {it : Item α} {s : Spot}
    (h : it.Describes w i s) (n : Nat) : (it.toggled n).Describes w i s := by
  rw [Item.toggled]
  split
  · exact h
  · exact ⟨h.name, h.category, h.depth, h.parent, h.children⟩

theorem toggle_item? (st : TreeState α) (id i : Nat) :
    (st.toggle id).item? i = (st.item? i).map (Item.toggled (if id = i then 1 else 0)) := by
  rw [toggle, modify_item?]
  split
  · rfl
  · rw [funext Item.toggled_zero, Option.map_id']

/-- After a sequence of toggles each item has been toggled as often as its position occurs. -/
theorem foldl_toggle_item? (st : TreeState α) (ids : List Nat) (i : Nat) :
    (ids.foldl toggle st).item? i = (st.item? i).map (Item.toggled (ids.count i)) := by
  induction ids generalizing st with
  | nil => rw [List.foldl_nil, List.count_nil, funext Item.toggled_zero, Option.map_id']
  | cons id ids ih =>
    rw [List.foldl_cons, ih, toggle_item?, Option.map_map, List.count_cons]
    congr 1
    funext it
    simp [Item.toggled_toggled, Nat.add_comm]

theorem foldl_toggle_levels (st : TreeState α) (ids : List Nat) :
    (ids.foldl toggle st).levels = st.levels := by
  induction ids generalizing st with
  | nil => rfl
  | cons id ids ih => exact ih _

theorem foldl_toggle_size (st : TreeState α) (ids : List Nat) :
    (ids.foldl toggle st).size = st.size := by
  induction ids generalizing st with
  | nil => rfl
  | cons id ids ih => exact (ih _).trans (Array.size_modify ..)

/-- Two sequences that toggle every node with children equally often, up to parity, have the same
effect. -/
theorem foldl_toggle_congr {st : TreeState α} {ids ids' : List Nat}
    (h : ∀ i it, st.item? i = some it → it.children ≠ [] → ids.count i % 2 = ids'.count i % 2) :
    ids.foldl toggle st = ids'.foldl toggle st := by
  refine ext_item? (fun i => ?_) (by rw [foldl_toggle_levels, foldl_toggle_levels])
  rw [foldl_toggle_item?, foldl_toggle_item?]
  cases hi : st.item? i with
  | none => rfl
  | some it => exact congrArg some (Item.toggled_congr (h i it hi))

/-! ## Outlines -/

variable [Scalar α]

/-- The item without the places where its node stands and stood. -/
def Item.outline (it : Item α) : Item α :=
  { it with position := Point.origin, previous := Point.origin }

/-- The state without the places of its nodes. -/
def outline (st : TreeState α) : TreeState α := { st with items := st.items.map Item.outline }

theorem outline_item? (st : TreeState α) (i : Nat) :
    st.outline.item? i = (st.item? i).map Item.outline := by
  simp [outline, item?]

@[simp] theorem outline_levels (st : TreeState α) : st.outline.levels = st.levels := rfl

@[simp] theorem outline_size (st : TreeState α) : st.outline.size = st.size := by
  simp [outline, size]

@[simp] theorem outline_isExpanded (st : TreeState α) (i : Nat) :
    st.outline.isExpanded i = st.isExpanded i := by
  rw [isExpanded, isExpanded, outline_item?, Option.any_map]
  rfl

@[simp] theorem outline_children (st : TreeState α) (i : Nat) :
    st.outline.children i = st.children i := by
  rw [children, children, outline_item?, Option.map_map]
  rfl

theorem outline_visibleFrom (st : TreeState α) (fuel : Nat) (stack : List Nat) :
    st.outline.visibleFrom fuel stack = st.visibleFrom fuel stack := by
  induction fuel generalizing stack with
  | zero => rfl
  | succ fuel ih =>
    cases stack with
    | nil => rfl
    | cons id stack => rw [visibleFrom, visibleFrom, outline_isExpanded, outline_children, ih]

/-- Where the nodes stood has no influence on the frame. -/
theorem outline_frame (st : TreeState α) (extent : Extent α) :
    st.outline.frame extent = st.frame extent := by
  have hv : st.outline.visible = st.visible := by
    rw [visible, visible, outline_size, outline_visibleFrom]
  have hp (i : Nat) : (st.outline.item? i).bind (·.parent) = (st.item? i).bind (·.parent) := by
    rw [outline_item?]
    cases st.item? i <;> rfl
  have hn (i : Nat) (p : Point α) : (st.outline.item? i).map (Placed.ofItem i · p) =
      (st.item? i).map (Placed.ofItem i · p) := by
    rw [outline_item?]
    cases st.item? i <;> rfl
  simp only [frame, hv, hp, hn, outline_levels]

/-- A change that keeps the outline of the item keeps the outline of the state. -/
theorem outline_modify (st : TreeState α) (id : Nat) {f : Item α → Item α}
    (hf : ∀ it, (f it).outline = it.outline) : (st.modify id f).outline = st.outline := by
  refine ext_item? (fun i => ?_) rfl
  rw [outline_item?, outline_item?, modify_item?]
  split
  · rw [Option.map_map]
    exact congrArg (fun g => (st.item? i).map g) (funext hf)
  · rfl

theorem outline_record (st : TreeState α) (f : Frame α) : (st.record f).outline = st.outline := by
  rw [record]
  induction f.nodes generalizing st with
  | nil => rfl
  | cons n ns ih =>
    rw [List.foldl_cons, ih]
    exact outline_modify st n.id fun _ => rfl

theorem outline_toggle (st : TreeState α) (id : Nat) :
    (st.toggle id).outline = st.outline.toggle id := by
  refine ext_item? (fun i => ?_) rfl
  rw [outline_item?, toggle_item?, toggle_item?, outline_item?, Option.map_map, Option.map_map]
  congr 1
  funext it
  by_cases h : it.children.isEmpty <;> simp [Item.toggled, Item.outline, h]

theorem Item.Describes.of_outline {w : List Spot} {i : Nat} {it it' : Item α} {s : Spot}
    (h : it.Describes w i s) (ho : it'.outline = it.outline) : it'.Describes w i s := by
  have hname : it'.name = it.name := congrArg (·.name) ho
  have hcategory : it'.category = it.category := congrArg (·.category) ho
  have hdepth : it'.depth = it.depth := congrArg (·.depth) ho
  have hparent : it'.parent = it.parent := congrArg (·.parent) ho
  have hchildren : it'.children = it.children := congrArg (·.children) ho
  refine ⟨?_, ?_, ?_, ?_, ?_⟩
  · rw [hname, h.name]
  · rw [hcategory, h.category]
  · rw [hdepth, h.depth]
  · rw [hparent]
    exact h.parent
  · rw [hchildren, h.children]

end SourceAtlas.TreeState
