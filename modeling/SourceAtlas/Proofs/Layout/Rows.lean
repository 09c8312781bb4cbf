import Mathlib.Data.List.Chain
import Mathlib.Tactic.Linarith
import Mathlib.Tactic.Ring
import SourceAtlas.Proofs.Geometry.Exact
import SourceAtlas.Proofs.Layout.FirstWalk

/-! # Rows of a forest over the rationals

A node stands where its own place and the displacements of the nodes above it add up to. `Walk.row`
lists the nodes of a level, each with the displacement that it inherits, where the roots themselves
are displaced by given amounts; `Walk.places` lists where they stand. -/

namespace SourceAtlas

namespace Layout

/-! ## Separations -/

namespace Shape

variable (s : Shape) (u v x : Nat)

theorem one_le_separation : 1 ≤ (s.separation u v : Rat) := by
  rw [separation]; split <;> norm_num

theorem separation_le_two : (s.separation u v : Rat) ≤ 2 := by
  rw [separation]; split <;> norm_num

theorem separation_comm : (s.separation u v : Rat) = s.separation v u := by
  simp only [separation, eq_comm]

/-- `y` stands to the right of `x`, at their separation or farther off. -/
def Apart (s : Shape) (x y : Nat × Rat) : Prop := x.2 + s.separation x.1 y.1 ≤ y.2

variable {s}

theorem Apart.trans {x y z : Nat × Rat} (h : s.Apart x y) (h' : s.Apart y z) : s.Apart x z := by
  have h1 := s.one_le_separation x.1 y.1
  have h2 := s.one_le_separation y.1 z.1
  have h3 := s.separation_le_two x.1 z.1
  simp only [Apart] at *
  linarith

/-- Two rows side by side are apart when the ends that face each other are. -/
theorem pairwise_apart_append {xs ys : List (Nat × Rat)} (hx : xs.Pairwise s.Apart)
    (hy : ys.Pairwise s.Apart)
    (h : ∀ x ∈ xs.getLast?, ∀ y ∈ ys.head?, s.Apart x y) : (xs ++ ys).Pairwise s.Apart := by
  have : IsTrans _ s.Apart := ⟨fun _ _ _ => Apart.trans⟩
  rw [← List.isChain_iff_pairwise] at *
  exact hx.append hy h

end Shape

/-! ## Rows -/

namespace Walk

def slide (t : Rat) (x : Nat × Rat) : Nat × Rat := (x.1, x.2 + t)

/-- What a displaced node hands down to its children. -/
def handed (w : Walk Rat) (x : Nat × Rat) : Rat := x.2 + w.modifier x.1

/-- The children of a displaced node, each with the displacement that it inherits. -/
def hang (w : Walk Rat) (s : Shape) (x : Nat × Rat) : List (Nat × Rat) :=
  (s.children x.1).map (·, w.handed x)

def spot (w : Walk Rat) (x : Nat × Rat) : Nat × Rat := (x.1, w.prelim x.1 + x.2)

/-- The nodes `ℓ` levels below roots that are displaced by `D`, each with its displacement. -/
def row (w : Walk Rat) (s : Shape) (D : Nat → Rat) (ℓ : Nat) (cs : List Nat) : List (Nat × Rat) :=
  generation (w.hang s) ℓ (cs.map fun c => (c, D c))

def places (w : Walk Rat) (s : Shape) (D : Nat → Rat) (ℓ : Nat) (cs : List Nat) :
    List (Nat × Rat) :=
  (w.row s D ℓ cs).map w.spot

/-- The next node of a left contour with the displacement that it inherits. -/
def stepLeft (w : Walk Rat) (s : Shape) (x : Nat × Rat) : Option (Nat × Rat) :=
  (w.nextLeft s x.1).map (·, w.handed x)

/-- The next node of a right contour with the displacement that it inherits. -/
def stepRight (w : Walk Rat) (s : Shape) (x : Nat × Rat) : Option (Nat × Rat) :=
  (w.nextRight s x.1).map (·, w.handed x)

variable {s : Shape} {w w' : Walk Rat} {D E : Nat → Rat} {t : Rat} {ℓ u v : Nat} {x : Nat × Rat}
  {cs as bs : List Nat}

theorem row_append : w.row s D ℓ (as ++ bs) = w.row s D ℓ as ++ w.row s D ℓ bs := by
  rw [row, List.map_append, generation_append]; rfl

theorem places_append : w.places s D ℓ (as ++ bs) = w.places s D ℓ as ++ w.places s D ℓ bs := by
  rw [places, row_append, List.map_append]; rfl

/-- The nodes of a row are those of the level. -/
theorem row_nodes : (w.row s D ℓ cs).map Prod.fst = s.level ℓ cs := by
  rw [row, ← generation_map Prod.fst (g := s.children), List.map_map]
  · exact congrArg _ (List.map_id' cs)
  · intro x; rw [hang, List.map_map]; exact (List.map_id' _).symm

theorem mem_level_of_mem_row (h : x ∈ w.row s D ℓ cs) : x.1 ∈ s.level ℓ cs := by
  rw [← row_nodes]; exact List.mem_map_of_mem h

theorem row_eq_nil : w.row s D ℓ cs = [] ↔ s.level ℓ cs = [] := by
  rw [← row_nodes (w := w) (D := D), List.map_eq_nil_iff]

theorem head?_row : (w.row s D ℓ cs).head?.map Prod.fst = (s.level ℓ cs).head? := by
  rw [← row_nodes, List.head?_map]

theorem getLast?_row : (w.row s D ℓ cs).getLast?.map Prod.fst = (s.level ℓ cs).getLast? := by
  rw [← row_nodes, List.getLast?_map]

theorem row_congr (h : ∀ c ∈ cs, E c = D c) : w.row s E ℓ cs = w.row s D ℓ cs := by
  rw [row, row, List.map_congr_left fun c hc => by rw [h c hc]]

theorem row_congr_front (h : ∀ c ∈ as, E c = D c) (hbs : s.level ℓ bs = []) :
    w.row s E ℓ (as ++ bs) = w.row s D ℓ (as ++ bs) := by
  rw [row_append, row_congr h, row_append, row_eq_nil.mpr hbs, row_eq_nil.mpr hbs]

theorem head?_row_congr_front (h : ∀ c ∈ as, E c = D c) (has : s.level ℓ as ≠ []) :
    (w.row s E ℓ (as ++ bs)).head? = (w.row s D ℓ (as ++ bs)).head? := by
  have hne : w.row s D ℓ as ≠ [] := mt row_eq_nil.mp has
  rw [row_append, row_congr h, row_append, List.head?_append_of_ne_nil _ hne,
    List.head?_append_of_ne_nil _ hne]

/-- The row below the root of a tree is that of its children's forest. -/
theorem row_tree :
    w.row s D (ℓ + 1) [v] = w.row s (fun _ => D v + w.modifier v) ℓ (s.children v) := by
  rw [row, generation_succ', row, List.map_singleton, List.flatMap_singleton]; rfl

theorem row_slide : w.row s (fun c => D c + t) ℓ cs = (w.row s D ℓ cs).map (slide t) := by
  rw [row, row, ← generation_map (slide t) (g := w.hang s), List.map_map]
  · rfl
  · intro x
    rw [hang, hang, List.map_map]
    refine List.map_congr_left fun c _ => Prod.ext rfl ?_
    simp only [handed, slide, Function.comp]
    ring

theorem places_slide : w.places s (fun c => D c + t) ℓ cs = (w.places s D ℓ cs).map (slide t) := by
  rw [places, row_slide, places, List.map_map, List.map_map]
  refine List.map_congr_left fun x _ => Prod.ext rfl ?_
  simp only [spot, slide, Function.comp]
  ring

theorem pairwise_slide {xs : List (Nat × Rat)} :
    (xs.map (slide t)).Pairwise s.Apart ↔ xs.Pairwise s.Apart := by
  rw [List.pairwise_map]
  refine List.Pairwise.iff fun {x y} => ?_
  simp only [Shape.Apart, slide]
  constructor <;> intro h <;> linarith

theorem places_eq_flatMap : w.places s D ℓ cs = cs.flatMap fun c => w.places s D ℓ [c] := by
  induction cs with
  | nil => simp [places, row]
  | cons c cs ih => rw [List.flatMap_cons, ← ih, ← places_append]; rfl

theorem row_tree_slide {δ : Nat → Rat} :
    w.row s (fun c => D c + δ c) ℓ [v] = (w.row s D ℓ [v]).map (slide (δ v)) := by
  rw [← row_slide, row_congr]
  simp

theorem places_tree_slide {δ : Nat → Rat} :
    w.places s (fun c => D c + δ c) ℓ [v] = (w.places s D ℓ [v]).map (slide (δ v)) := by
  rw [← places_slide, places, places, row_congr]
  simp

/-- Roots that move to the right, each at least as far as those before it, keep the rows apart. -/
theorem pairwise_stretch {δ : Nat → Rat} (h : (w.places s D ℓ cs).Pairwise s.Apart)
    (hδ : cs.Pairwise fun c d => δ c ≤ δ d) :
    (w.places s (fun c => D c + δ c) ℓ cs).Pairwise s.Apart := by
  rw [places_eq_flatMap, List.pairwise_flatMap] at h ⊢
  obtain ⟨hwithin, hbetween⟩ := h
  constructor
  · intro c hc
    rw [places_tree_slide]
    exact pairwise_slide.mpr (hwithin c hc)
  · refine (hbetween.and hδ).imp fun {c d} ⟨hcd, hle⟩ x hx y hy => ?_
    rw [places_tree_slide] at hx hy
    obtain ⟨x₀, hx₀, rfl⟩ := List.mem_map.mp hx
    obtain ⟨y₀, hy₀, rfl⟩ := List.mem_map.mp hy
    have := hcd x₀ hx₀ y₀ hy₀
    simp only [Shape.Apart, slide] at *
    linarith

/-! ## Forests that are well spaced -/

/-- The rows of the forest keep their separations, and the contours lead along their ends. -/
structure Spaced (s : Shape) (w : Walk Rat) (D : Nat → Rat) (cs : List Nat) : Prop where
  apart : ∀ ℓ, (w.places s D ℓ cs).Pairwise s.Apart
  left : Leads (w.stepLeft s) fun ℓ => (w.row s D ℓ cs).head?
  right : Leads (w.stepRight s) fun ℓ => (w.row s D ℓ cs).getLast?

theorem Spaced.roots (h : w.Spaced s D cs) (hE : ∀ c ∈ cs, E c = D c) : w.Spaced s E cs := by
  have hrow (ℓ : Nat) : w.row s E ℓ cs = w.row s D ℓ cs := row_congr hE
  refine ⟨fun ℓ => ?_, by simpa only [hrow] using h.left, by simpa only [hrow] using h.right⟩
  rw [places, hrow]
  exact h.apart ℓ

theorem handed_slide : w.handed (slide t x) = w.handed x + t := by
  simp only [handed, slide]; ring

theorem stepLeft_slide : w.stepLeft s (slide t x) = (w.stepLeft s x).map (slide t) := by
  rw [stepLeft, stepLeft, handed_slide, Option.map_map]; rfl

theorem stepRight_slide : w.stepRight s (slide t x) = (w.stepRight s x).map (slide t) := by
  rw [stepRight, stepRight, handed_slide, Option.map_map]; rfl

theorem Spaced.slide (h : w.Spaced s D cs) (t : Rat) : w.Spaced s (fun c => D c + t) cs where
  apart ℓ := by rw [places_slide]; exact pairwise_slide.mpr (h.apart ℓ)
  left := h.left.map (Walk.slide t) (fun ℓ => by rw [row_slide, List.head?_map])
    fun _ => stepLeft_slide
  right := h.right.map (Walk.slide t) (fun ℓ => by rw [row_slide, List.getLast?_map])
    fun _ => stepRight_slide

/-- Where a contour that hands down `t` at `u` goes on. -/
theorem stepLeft_eq {y : Nat} {e : Option (Nat × Rat)}
    (h : w.stepLeft s (u, t - w.modifier u) = e) (hy : e.map Prod.fst = some y) :
    e = some (y, t) := by
  subst h
  rw [stepLeft, handed, sub_add_cancel, Option.map_map] at *
  obtain ⟨z, hz, rfl⟩ := Option.map_eq_some_iff.mp hy
  rw [hz]
  rfl

theorem stepRight_eq {y : Nat} {e : Option (Nat × Rat)}
    (h : w.stepRight s (u, t - w.modifier u) = e) (hy : e.map Prod.fst = some y) :
    e = some (y, t) := by
  subst h
  rw [stepRight, handed, sub_add_cancel, Option.map_map] at *
  obtain ⟨z, hz, rfl⟩ := Option.map_eq_some_iff.mp hy
  rw [hz]
  rfl

/-- A tree is spaced as its children's forest is. -/
theorem Spaced.tree (h : w.Spaced s (fun _ => D v + w.modifier v) (s.children v))
    (hv : w.thread v = none) : w.Spaced s D [v] := by
  constructor
  · rintro (_ | ℓ)
    · exact List.pairwise_singleton ..
    · rw [places, row_tree]; exact h.apart ℓ
  · refine Leads.of_succ (o := (v, D v)) rfl ?_ (by simpa only [row_tree] using h.left)
    rw [stepLeft, nextLeft, hv, row_tree, row, generation, List.head?_map]
    cases (s.children v).head? <;> rfl
  · refine Leads.of_succ (o := (v, D v)) rfl ?_ (by simpa only [row_tree] using h.right)
    rw [stepRight, nextRight, hv, row_tree, row, generation, List.getLast?_map]
    cases (s.children v).getLast? <;> rfl

/-! ## Displacements that are paid out -/

/-- The roots have been moved by `E`, and nothing else has changed in the forest. -/
structure Paid (s : Shape) (E : Nat → Rat) (cs : List Nat) (w w' : Walk Rat) : Prop where
  prelim : ∀ {u}, s.Within cs u → w'.prelim u = w.prelim u + E u
  modifier : ∀ {u}, s.Within cs u → w'.modifier u = w.modifier u + E u
  thread : ∀ {u}, s.Within cs u → w'.thread u = w.thread u
  below : ∀ {ℓ u}, u ∈ s.level (ℓ + 1) cs → E u = 0

/-- Takes from a node's displacement what has been paid. -/
def unpaid (E : Nat → Rat) (x : Nat × Rat) : Nat × Rat := (x.1, x.2 - E x.1)

namespace Paid

variable (h : Paid s E cs w w')
include h

theorem handed (hx : s.Within cs x.1) : w'.handed (unpaid E x) = w.handed x := by
  rw [Walk.handed, unpaid, h.modifier hx, Walk.handed]; ring

theorem spot (hx : s.Within cs x.1) : w'.spot (unpaid E x) = w.spot x := by
  refine Prod.ext rfl ?_
  rw [Walk.spot, unpaid, h.prelim hx, Walk.spot]; ring

theorem row : w'.row s (fun c => D c - E c) ℓ cs = (w.row s D ℓ cs).map (unpaid E) := by
  induction ℓ with
  | zero => rw [Walk.row, Walk.row, generation, generation, List.map_map]; rfl
  | succ ℓ ih =>
    rw [Walk.row, generation, ← Walk.row, ih, Walk.row, Walk.row, generation, List.flatMap_map,
      List.map_flatMap]
    refine List.flatMap_congr fun x hx => ?_
    have hlevel := mem_level_of_mem_row hx
    rw [hang, h.handed ⟨ℓ, hlevel⟩, hang, List.map_map]
    refine List.map_congr_left fun c hc => ?_
    have hzero : E c = 0 := h.below (Shape.mem_level_succ.mpr ⟨x.1, hlevel, hc⟩)
    simp [unpaid, hzero]

theorem places : w'.places s (fun c => D c - E c) ℓ cs = w.places s D ℓ cs := by
  rw [Walk.places, h.row, List.map_map, Walk.places]
  exact List.map_congr_left fun x hx => h.spot ⟨ℓ, mem_level_of_mem_row hx⟩

/-- The nodes that a contour leads to are no roots, so they have not been paid anything. -/
theorem next_unpaid {r : Option (Nat × Rat)} (hr : ∀ y ∈ r, y ∈ w.row s D (ℓ + 1) cs) :
    r.map (unpaid E) = r := by
  cases r with
  | none => rfl
  | some y => simp [unpaid, h.below (mem_level_of_mem_row (hr y rfl))]

theorem stepLeft (hx : (w.row s D ℓ cs).head? = some x)
    (hstep : w.stepLeft s x = (w.row s D (ℓ + 1) cs).head?) :
    w'.stepLeft s (unpaid E x) = (w'.row s (fun c => D c - E c) (ℓ + 1) cs).head? := by
  have hwithin : s.Within cs x.1 := ⟨ℓ, mem_level_of_mem_row (List.mem_of_head? hx)⟩
  rw [h.row, List.head?_map, h.next_unpaid fun y hy => List.mem_of_head? hy, ← hstep, Walk.stepLeft,
    h.handed hwithin, Walk.stepLeft, nextLeft, nextLeft, unpaid, h.thread hwithin]

theorem stepRight (hx : (w.row s D ℓ cs).getLast? = some x)
    (hstep : w.stepRight s x = (w.row s D (ℓ + 1) cs).getLast?) :
    w'.stepRight s (unpaid E x) = (w'.row s (fun c => D c - E c) (ℓ + 1) cs).getLast? := by
  have hwithin : s.Within cs x.1 := ⟨ℓ, mem_level_of_mem_row (List.mem_of_getLast? hx)⟩
  rw [h.row, List.getLast?_map, h.next_unpaid fun y hy => List.mem_of_getLast? hy, ← hstep,
    Walk.stepRight, h.handed hwithin, Walk.stepRight, nextRight, nextRight, unpaid,
      h.thread hwithin]

theorem left (hw : Leads (w.stepLeft s) fun ℓ => (w.row s D ℓ cs).head?) :
    Leads (w'.stepLeft s) fun ℓ => (w'.row s (fun c => D c - E c) ℓ cs).head? := by
  intro ℓ y hy
  beta_reduce at hy ⊢
  rw [h.row, List.head?_map] at hy
  obtain ⟨x, hx, rfl⟩ := Option.map_eq_some_iff.mp hy
  exact h.stepLeft hx (hw hx)

theorem right (hw : Leads (w.stepRight s) fun ℓ => (w.row s D ℓ cs).getLast?) :
    Leads (w'.stepRight s) fun ℓ => (w'.row s (fun c => D c - E c) ℓ cs).getLast? := by
  intro ℓ y hy
  beta_reduce at hy ⊢
  rw [h.row, List.getLast?_map] at hy
  obtain ⟨x, hx, rfl⟩ := Option.map_eq_some_iff.mp hy
  exact h.stepRight hx (hw hx)

theorem spaced (hw : w.Spaced s D cs) : w'.Spaced s (fun c => D c - E c) cs where
  apart ℓ := by rw [h.places]; exact hw.apart ℓ
  left := h.left hw.left
  right := h.right hw.right

theorem mono (has : as ⊆ cs) : Paid s E as w w' where
  prelim hu := h.prelim (Shape.within_mono has hu)
  modifier hu := h.modifier (Shape.within_mono has hu)
  thread hu := h.thread (Shape.within_mono has hu)
  below hu := h.below (Shape.level_subset has hu)

end Paid

section Frame

variable (h : ∀ {u}, s.Within cs u → w'.note u = w.note u)
include h

theorem paid_zero : Paid s (fun _ => 0) cs w w' where
  prelim hu := by rw [add_zero]; exact congrArg Note.prelim (h hu)
  modifier hu := by rw [add_zero]; exact congrArg Note.modifier (h hu)
  thread hu := congrArg Note.thread (h hu)
  below _ := rfl

theorem Spaced.frame (hw : w.Spaced s D cs) : w'.Spaced s D cs := by
  simpa using (paid_zero h).spaced hw

end Frame

end Walk

end Layout

end SourceAtlas
