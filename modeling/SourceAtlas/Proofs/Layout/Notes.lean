import SourceAtlas.Proofs.Layout.Levels

/-! # What the walk notes of each node

Each operation of the walk writes down something about a few nodes and leaves what is known of the
others as it is. `Walk.note` gathers all that is known of one node, so that this is one equation for
each operation; the fields of the nodes written to are read back below. -/

namespace SourceAtlas.Layout.Walk

variable {α : Type}

structure Note (α : Type) where
  ancestor : Nat
  prelim : α
  modifier : α
  change : α
  shift : α
  thread : Option Nat

/-- How many nodes each list has room for. -/
def sizes (w : Walk α) : List Nat :=
  [w.ancestors.size, w.fallbacks.size, w.prelims.size, w.modifiers.size, w.changes.size,
    w.shifts.size, w.threads.size]

/-- There is room for `n` nodes and the one above the root. -/
def Fits (w : Walk α) (n : Nat) : Prop := ∀ k ∈ w.sizes, k = n + 1

section Room

variable {w : Walk α} {n u v r : Nat} {a : α}

theorem Fits.lt {k : Nat} (h : w.Fits n) (hk : k ∈ w.sizes) (hv : v ≤ n) : v < k := by
  rw [h k hk]; omega

theorem Fits.congr {w' : Walk α} (h : w.Fits n) (hw : w'.sizes = w.sizes) : w'.Fits n := by
  rw [Fits, hw]; exact h

@[simp] theorem sizes_setPrelim : (w.setPrelim v a).sizes = w.sizes := by simp [sizes, setPrelim]

@[simp] theorem sizes_setModifier : (w.setModifier v a).sizes = w.sizes := by
  simp [sizes, setModifier]

@[simp] theorem sizes_setAncestor : (w.setAncestor v u).sizes = w.sizes := by
  simp [sizes, setAncestor]

@[simp] theorem sizes_setFallback : (w.setFallback v u).sizes = w.sizes := by
  simp [sizes, setFallback]

theorem getD_set_ne {γ : Type} {xs : Array γ} {d b : γ} (h : u ≠ v) :
    (xs.setIfInBounds v b).getD u d = xs.getD u d := by
  simp [Array.getElem?_setIfInBounds_ne h.symm]

theorem getD_set_self {γ : Type} {xs : Array γ} {d b : γ} (h : v < xs.size) :
    (xs.setIfInBounds v b).getD v d = b := by
  simp [h]

theorem ancestor_setAncestor (h : w.Fits n) (hv : v ≤ n) : (w.setAncestor v r).ancestor v = r :=
  getD_set_self (h.lt (by simp [sizes]) hv)

theorem fallback_setFallback (h : w.Fits n) (hv : v ≤ n) :
    (w.setFallback v r).fallback v = some r :=
  getD_set_self (h.lt (by simp [sizes]) hv)

theorem fallback_setFallback_ne (h : u ≠ v) : (w.setFallback v r).fallback u = w.fallback u :=
  getD_set_ne h

end Room

variable [Scalar α]

def note (w : Walk α) (u : Nat) : Note α :=
  ⟨w.ancestor u, w.prelim u, w.modifier u, w.change u, w.shift u, w.thread u⟩

theorem start_fits (n : Nat) : (start n : Walk α).Fits n := by
  simp [Fits, sizes, start]

section Operations

variable {w : Walk α} {s : Shape} {a x y : α} {n u v l r : Nat} {vs : List Nat}

@[simp] theorem sizes_hook : (w.hook v u a).sizes = w.sizes := by
  simp [sizes, hook, setThread, setModifier]

@[simp] theorem sizes_moveSubtree : (w.moveSubtree s l r a).sizes = w.sizes := by
  simp [sizes, moveSubtree]

/-! ## Nodes that are not written to -/

theorem note_setPrelim (h : u ≠ v) : (w.setPrelim v a).note u = w.note u := by
  simp only [note, prelim, setPrelim, getD_set_ne h]; rfl

theorem note_setModifier (h : u ≠ v) : (w.setModifier v a).note u = w.note u := by
  simp only [note, modifier, setModifier, getD_set_ne h]; rfl

theorem note_setAncestor (h : u ≠ v) : (w.setAncestor v r).note u = w.note u := by
  simp only [note, ancestor, setAncestor, getD_set_ne h]; rfl

theorem note_hook (h : u ≠ v) : (w.hook v r a).note u = w.note u := by
  rw [hook, note_setModifier h]
  simp only [note, thread, setThread, getD_set_ne h]; rfl

theorem note_moveSubtree (hl : u ≠ l) (hr : u ≠ r) : (w.moveSubtree s l r a).note u = w.note u := by
  simp only [note, prelim, modifier, change, shift, moveSubtree, getD_set_ne hl,
    getD_set_ne hr]
  rfl

theorem note_payShifts (h : u ∉ vs) : (w.payShifts x y vs).note u = w.note u := by
  induction vs generalizing w x y with
  | nil => rfl
  | cons v vs ih =>
    obtain ⟨hv, hvs⟩ := not_or.mp (mt List.mem_cons.mpr h)
    rw [payShifts, ih hvs, note_setModifier hv, note_setPrelim hv]

/-! ## Nodes that are written to -/

theorem prelim_setPrelim (h : w.Fits n) (hv : v ≤ n) : (w.setPrelim v a).prelim v = a :=
  getD_set_self (h.lt (by simp [sizes]) hv)

theorem modifier_setModifier (h : w.Fits n) (hv : v ≤ n) : (w.setModifier v a).modifier v = a :=
  getD_set_self (h.lt (by simp [sizes]) hv)

theorem thread_hook (h : w.Fits n) (hv : v ≤ n) : (w.hook v r a).thread v = some r :=
  getD_set_self (h.lt (by simp [sizes]) hv)

theorem modifier_hook (h : w.Fits n) (hv : v ≤ n) :
    (w.hook v r a).modifier v = w.modifier v + a :=
  getD_set_self (h.lt (by simp [sizes, setThread]) hv)

theorem prelim_moveSubtree (h : w.Fits n) (hv : r ≤ n) :
    (w.moveSubtree s l r a).prelim r = w.prelim r + a := getD_set_self (h.lt (by simp [sizes]) hv)

theorem modifier_moveSubtree (h : w.Fits n) (hv : r ≤ n) :
    (w.moveSubtree s l r a).modifier r = w.modifier r + a :=
      getD_set_self (h.lt (by simp [sizes]) hv)

theorem shift_moveSubtree (h : w.Fits n) (hv : r ≤ n) :
    (w.moveSubtree s l r a).shift r = w.shift r + a := getD_set_self (h.lt (by simp [sizes]) hv)

theorem prelim_moveSubtree_ne (h : u ≠ r) : (w.moveSubtree s l r a).prelim u = w.prelim u :=
  getD_set_ne h

theorem modifier_moveSubtree_ne (h : u ≠ r) :
    (w.moveSubtree s l r a).modifier u = w.modifier u := getD_set_ne h

theorem shift_moveSubtree_ne (h : u ≠ r) : (w.moveSubtree s l r a).shift u = w.shift u :=
  getD_set_ne h

/-- What a moved subtree adds for each sibling on its left. -/
def share (s : Shape) (l r : Nat) (a : α) : α :=
  a / (Scalar.ofCount (s.number r) - Scalar.ofCount (s.number l))

theorem change_moveSubtree_right (h : w.Fits n) (hv : r ≤ n) (hl : r ≠ l) :
    (w.moveSubtree s l r a).change r = w.change r - share s l r a :=
  (getD_set_ne hl).trans (getD_set_self (h.lt (by simp [sizes]) hv))

theorem change_moveSubtree_left (h : w.Fits n) (hv : l ≤ n) (hl : l ≠ r) :
    (w.moveSubtree s l r a).change l = w.change l + share s l r a :=
  (getD_set_self (by
    rw [Array.size_setIfInBounds]
    exact h.lt (by simp [sizes]) hv)).trans (congrArg (· + share s l r a) (getD_set_ne hl))

end Operations

end SourceAtlas.Layout.Walk
