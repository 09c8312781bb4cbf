import Mathlib.Algebra.BigOperators.Group.List.Basic
import Mathlib.Algebra.Order.BigOperators.Group.List
import Mathlib.Tactic.FieldSimp
import Mathlib.Tactic.Linarith
import Mathlib.Tactic.Ring
import SourceAtlas.Proofs.Geometry.Exact
import SourceAtlas.Proofs.Layout.Squarify

/-! # Strips tile the bounds

Over exact numbers the weight still to be placed and the area still free shrink together: a strip
takes of the region what its items take of the weight, and the items divide the strip in the same
way. So the tiles fill the bounds without overlap, each with its share of the area, whatever items
the strips take (`layRows`); the aspect ratios only decide which rows are laid. -/

namespace SourceAtlas.Layout

open Rect (laid)

/-! ## Tilings side by side -/

/-- The tiles lie inside the bounds and do not overlap, each with an area of `density` for a unit of
its weight. Where there is any weight, they leave no point of the bounds free. -/
structure Tiles (bounds : Rect Rat) (density : Rat) (weights : List Rat) (tiles : List (Rect Rat)) :
    Prop where
  areas : tiles.map Rect.area = weights.map (density * ·)
  inside : ∀ r ∈ tiles, r.Inside bounds
  apart : tiles.Pairwise Rect.Apart
  covers : 0 < weights.sum → ∀ p, bounds.Covers p → ∃ r ∈ tiles, r.Covers p

section Tiles

variable {bounds : Rect Rat} {density w : Rat} {ws ws₁ ws₂ : List Rat}
  {ts ts₁ ts₂ : List (Rect Rat)} {flat : Bool} {start mid stop near far : Rat}

theorem Tiles.nil (bounds : Rect Rat) (density : Rat) : Tiles bounds density [] [] where
  areas := rfl
  inside _ hr := by cases hr
  apart := .nil
  covers h := absurd h (lt_irrefl 0)

theorem Tiles.single (hwide : start ≤ stop) (hhigh : near ≤ far)
    (harea : (stop - start) * (far - near) = density * w) :
    Tiles (laid flat start stop near far) density [w] [laid flat start stop near far] where
  areas := by rw [List.map_singleton, Rect.area_laid hwide hhigh, harea]; rfl
  inside r hr := by
    rw [List.mem_singleton.mp hr]
    exact Rect.laid_inside hwide hhigh le_rfl le_rfl le_rfl le_rfl
  apart := List.pairwise_singleton ..
  covers _ _ hp := ⟨_, List.mem_singleton_self _, hp⟩

/-- Two tilings with a common edge make one. A part without weight has no extent, so that the points
on its edge are left to the other part. -/
theorem Tiles.beside (hleft : start ≤ mid) (hright : mid ≤ stop) (hhigh : near ≤ far)
    (h₁ : Tiles (laid flat start mid near far) density ws₁ ts₁)
    (h₂ : Tiles (laid flat mid stop near far) density ws₂ ts₂)
    (hws₁ : 0 ≤ ws₁.sum) (hws₂ : 0 ≤ ws₂.sum)
    (hnone₁ : ws₁.sum = 0 → 0 < ws₂.sum → mid = start) (hnone₂ : ws₂.sum = 0 → mid = stop) :
    Tiles (laid flat start stop near far) density (ws₁ ++ ws₂) (ts₁ ++ ts₂) where
  areas := by rw [List.map_append, h₁.areas, h₂.areas, List.map_append]
  inside r hr := by
    rcases List.mem_append.mp hr with hr | hr
    · exact (h₁.inside r hr).trans (Rect.laid_inside hleft hhigh le_rfl hright le_rfl le_rfl)
    · exact (h₂.inside r hr).trans (Rect.laid_inside hright hhigh hleft le_rfl le_rfl le_rfl)
  apart := by
    refine List.pairwise_append.mpr ⟨h₁.apart, h₂.apart, fun r hr t ht => ?_⟩
    exact Rect.laid_apart.inside (h₁.inside r hr) (h₂.inside t ht)
  covers hpos p hp := by
    rw [List.sum_append] at hpos
    have hsplit : (∃ r ∈ ts₁, r.Covers p) ∨ ∃ r ∈ ts₂, r.Covers p := by
      rcases eq_or_lt_of_le' hws₁ with hzero | hpos₁
      · have hpos₂ : 0 < ws₂.sum := by linarith
        rw [← hnone₁ hzero hpos₂] at hp
        exact .inr (h₂.covers hpos₂ p hp)
      · rcases eq_or_lt_of_le' hws₂ with hzero | hpos₂
        · rw [← hnone₂ hzero] at hp
          exact .inl (h₁.covers hpos₁ p hp)
        · exact (Rect.covers_laid hp mid).imp (h₁.covers hpos₁ p) (h₂.covers hpos₂ p)
    rcases hsplit with ⟨r, hr, hcovers⟩ | ⟨r, hr, hcovers⟩
    · exact ⟨r, List.mem_append_left _ hr, hcovers⟩
    · exact ⟨r, List.mem_append_right _ hr, hcovers⟩

end Tiles

/-! ## One strip -/

namespace Strip

variable {s : Strip Rat} {density : Rat} {ws : List Rat}

def start (s : Strip Rat) : Rat := if s.flat then s.region.x0 else s.region.y0

def stop (s : Strip Rat) : Rat := if s.flat then s.region.x1 else s.region.y1

def near (s : Strip Rat) : Rat := if s.flat then s.region.y0 else s.region.x0

def far (s : Strip Rat) : Rat := if s.flat then s.region.y1 else s.region.x1

theorem region_eq (s : Strip Rat) : s.region = laid s.flat s.start s.stop s.near s.far := by
  unfold start stop near far laid
  cases s.flat <;> rfl

theorem behind_eq (s : Strip Rat) : s.behind = laid s.flat s.start s.stop s.edge s.far := by
  unfold behind start stop far laid
  cases s.flat <;> rfl

theorem tilesFrom_cons (s : Strip Rat) (a w : Rat) (ws : List Rat) :
    s.tilesFrom a (w :: ws) =
      laid s.flat a (a + w * s.unit) s.near s.edge :: s.tilesFrom (a + w * s.unit) ws := by
  rw [tilesFrom, near, laid]
  cases s.flat <;> rfl

theorem edge_eq (h : 0 < s.remaining) :
    s.edge = s.near + (s.far - s.near) * s.sum / s.remaining := by
  unfold edge near far Rect.height Rect.width
  rw [Scalar.zero_eq, Scalar.less_iff.mpr h]
  cases s.flat <;> rfl

/-- What the strip takes across. -/
theorem depth_eq (h : 0 < s.remaining) :
    s.edge - s.near = (s.far - s.near) * s.sum / s.remaining := by
  rw [edge_eq h, add_sub_cancel_left]

theorem edge_eq_near (hzero : s.sum = 0) (h : 0 < s.remaining) : s.edge = s.near := by
  rw [edge_eq h, hzero, mul_zero, zero_div, add_zero]

theorem edge_eq_far (h : s.remaining = 0) : s.edge = s.far := by
  have hless : Scalar.less 0 s.remaining = false := by
    rw [h]
    rfl
  unfold edge far
  rw [Scalar.zero_eq, hless]
  cases s.flat <;> rfl

theorem unit_eq (h : 0 < s.sum) : s.unit = (s.stop - s.start) / s.sum := by
  unfold unit start stop Rect.height Rect.width
  rw [Scalar.zero_eq, Scalar.less_iff.mpr h]
  cases s.flat <;> rfl

theorem unit_eq_zero (h : s.sum = 0) : s.unit = 0 := by
  unfold unit
  rw [Scalar.zero_eq, h]
  rfl

/-- The region has an area of `density` for each unit of the weight still to be placed, of which the
strip takes a part. -/
structure Fair (s : Strip Rat) (density : Rat) : Prop where
  wide : s.start ≤ s.stop
  high : s.near ≤ s.far
  nonneg : ∀ w ∈ s.weights, 0 ≤ w
  sum_eq : s.sum = s.weights.sum
  sum_le : s.sum ≤ s.remaining
  area : (s.stop - s.start) * (s.far - s.near) = density * s.remaining

namespace Fair

variable (h : s.Fair density)
include h

theorem sum_nonneg : 0 ≤ s.sum := h.sum_eq ▸ List.sum_nonneg h.nonneg

theorem near_le_edge : s.near ≤ s.edge := by
  rcases eq_or_lt_of_le' (h.sum_nonneg.trans h.sum_le) with hzero | hpos
  · rw [edge_eq_far hzero]
    exact h.high
  · have hdepth : 0 ≤ (s.far - s.near) * s.sum / s.remaining :=
      div_nonneg (mul_nonneg (sub_nonneg.mpr h.high) h.sum_nonneg) (le_of_lt hpos)
    have := depth_eq hpos
    linarith

theorem edge_le_far : s.edge ≤ s.far := by
  rcases eq_or_lt_of_le' (h.sum_nonneg.trans h.sum_le) with hzero | hpos
  · exact le_of_eq (edge_eq_far hzero)
  · have hdepth : (s.far - s.near) * s.sum / s.remaining ≤ s.far - s.near := by
      rw [div_le_iff₀ hpos]
      exact mul_le_mul_of_nonneg_left h.sum_le (sub_nonneg.mpr h.high)
    have := depth_eq hpos
    linarith

theorem edge_of_all (hall : s.remaining - s.sum = 0) : s.edge = s.far := by
  rcases eq_or_lt_of_le' (h.sum_nonneg.trans h.sum_le) with hzero | hpos
  · exact edge_eq_far hzero
  · rw [edge_eq hpos, ← sub_eq_zero.mp hall, mul_div_cancel_right₀ _ (ne_of_gt hpos)]
    ring

theorem unit_nonneg : 0 ≤ s.unit := by
  rcases eq_or_lt_of_le' h.sum_nonneg with hzero | hpos
  · rw [unit_eq_zero hzero]
  · rw [unit_eq hpos]
    exact div_nonneg (sub_nonneg.mpr h.wide) (le_of_lt hpos)

/-- Where the items have any weight, they fill the strip from end to end. -/
theorem stop_eq (hpos : 0 < s.sum) : s.start + s.weights.sum * s.unit = s.stop := by
  rw [unit_eq hpos, ← h.sum_eq, mul_div_cancel₀ _ (ne_of_gt hpos)]
  ring

theorem share {w : Rat} (hw : w ∈ s.weights) : w * s.unit * (s.edge - s.near) = density * w := by
  rcases eq_or_lt_of_le' h.sum_nonneg with hzero | hpos
  · have hw0 : w = 0 := by
      refine le_antisymm ?_ (h.nonneg w hw)
      rw [← hzero, h.sum_eq]
      exact List.single_le_sum h.nonneg w hw
    rw [hw0, zero_mul, zero_mul, mul_zero]
  · have hrem : 0 < s.remaining := hpos.trans_le h.sum_le
    calc
      w * s.unit * (s.edge - s.near)
        = w * ((s.stop - s.start) * (s.far - s.near)) / s.remaining := by
          rw [unit_eq hpos, depth_eq hrem]
          field_simp
      _ = density * w := by
          rw [h.area]
          field_simp

/-- What is behind the strip has the same area for each unit of the weight that remains. -/
theorem area_behind : (s.stop - s.start) * (s.far - s.edge) = density * (s.remaining - s.sum) := by
  rcases eq_or_lt_of_le' (h.sum_nonneg.trans h.sum_le) with hzero | hpos
  · have hsum : s.sum = 0 := le_antisymm (hzero ▸ h.sum_le) h.sum_nonneg
    rw [edge_eq_far hzero, hzero, hsum]
    ring
  · have hfactor : s.far - s.edge = (s.far - s.near) * (s.remaining - s.sum) / s.remaining := by
      rw [edge_eq hpos]
      field_simp
      ring
    calc
      (s.stop - s.start) * (s.far - s.edge)
        = (s.stop - s.start) * (s.far - s.near) * (s.remaining - s.sum) / s.remaining := by
          rw [hfactor]
          ring
      _ = density * (s.remaining - s.sum) := by
          rw [h.area]
          field_simp

/-- Items that lie one after another tile the part of the strip that they reach. -/
theorem tilesFrom (a : Rat) {ws : List Rat} (hws : ∀ w ∈ ws, w ∈ s.weights) :
    Tiles (laid s.flat a (a + ws.sum * s.unit) s.near s.edge) density ws (s.tilesFrom a ws) := by
  induction ws generalizing a with
  | nil => exact .nil ..
  | cons w ws ih =>
    have hw : w ∈ s.weights := hws w List.mem_cons_self
    have hrest (x : Rat) (hx : x ∈ ws) : x ∈ s.weights := hws x (List.mem_cons_of_mem w hx)
    have hsum : 0 ≤ ws.sum := List.sum_nonneg fun x hx => h.nonneg x (hrest x hx)
    have hlen : 0 ≤ w * s.unit := mul_nonneg (h.nonneg w hw) h.unit_nonneg
    have hlen' : 0 ≤ ws.sum * s.unit := mul_nonneg hsum h.unit_nonneg
    have hsplit : a + (w :: ws).sum * s.unit = a + w * s.unit + ws.sum * s.unit := by
      rw [List.sum_cons]
      ring
    have hshare := h.share hw
    have hfirst : Tiles (laid s.flat a (a + w * s.unit) s.near s.edge) density [w]
        [laid s.flat a (a + w * s.unit) s.near s.edge] :=
      .single (by linarith) h.near_le_edge (by rw [add_sub_cancel_left, hshare])
    rw [tilesFrom_cons, hsplit]
    refine Tiles.beside (by linarith) (by linarith) h.near_le_edge hfirst (ih _ hrest) ?_ hsum ?_ ?_
    · simpa using h.nonneg w hw
    · intro hzero _
      rw [List.sum_singleton] at hzero
      rw [hzero, zero_mul, add_zero]
    · intro hzero
      rw [hzero, zero_mul, add_zero]

theorem tiles : Tiles (laid s.flat s.start s.stop s.near s.edge) density s.weights s.tiles := by
  have hfrom : Tiles (laid s.flat s.start (s.start + s.weights.sum * s.unit) s.near s.edge) density
      s.weights s.tiles := h.tilesFrom s.start fun _ hw => hw
  rcases eq_or_lt_of_le' h.sum_nonneg with hzero | hpos
  · -- a strip without weight: its tiles all stand at its beginning
    rw [unit_eq_zero hzero, mul_zero, add_zero] at hfrom
    refine ⟨hfrom.areas, fun r hr => ?_, hfrom.apart, fun hpos => ?_⟩
    · exact (hfrom.inside r hr).trans
        (Rect.laid_inside le_rfl h.near_le_edge le_rfl h.wide le_rfl le_rfl)
    · rw [← h.sum_eq, hzero] at hpos
      exact absurd hpos (lt_irrefl 0)
  · rwa [h.stop_eq hpos] at hfrom

end Fair

end Strip

/-! ## Strips of any rows -/

/-- The strips that lay the given rows of items into a region, one after another. -/
def layRows (region : Rect Rat) (remaining : Rat) : List (List Rat) → List (Strip Rat)
  | [] => []
  | row :: rows =>
    let strip : Strip Rat := ⟨region, remaining, row, row.sum⟩
    strip :: layRows strip.behind (remaining - row.sum) rows

section Rows

variable {region : Rect Rat} {remaining density : Rat}

theorem Strip.fair_of_region {row : List Rat} (hup : region.Upright) (hnonneg : ∀ w ∈ row, 0 ≤ w)
    (hle : row.sum ≤ remaining) (harea : region.area = density * remaining) :
    (⟨region, remaining, row, row.sum⟩ : Strip Rat).Fair density := by
  let s : Strip Rat := ⟨region, remaining, row, row.sum⟩
  have hregion : region = laid s.flat s.start s.stop s.near s.far := s.region_eq
  rw [hregion, Rect.laid_upright] at hup
  rw [hregion, Rect.area_laid hup.1 hup.2] at harea
  exact ⟨hup.1, hup.2, hnonneg, rfl, hle, harea⟩

/-- Whatever rows are laid, their tiles fill the region. -/
theorem layRows_tiles {rows : List (List Rat)} (hup : region.Upright)
    (hnonneg : ∀ w ∈ rows.flatten, 0 ≤ w) (hsum : rows.flatten.sum = remaining)
    (harea : region.area = density * remaining) :
    Tiles region density rows.flatten ((layRows region remaining rows).flatMap Strip.tiles) := by
  induction rows generalizing region remaining with
  | nil => exact .nil ..
  | cons row rows ih =>
    rw [List.flatten_cons] at hnonneg hsum ⊢
    rw [List.sum_append] at hsum
    have hrow (w : Rat) (hw : w ∈ row) : 0 ≤ w := hnonneg w (List.mem_append_left _ hw)
    have hrows (w : Rat) (hw : w ∈ rows.flatten) : 0 ≤ w := hnonneg w (List.mem_append_right _ hw)
    have hrest : rows.flatten.sum = remaining - row.sum := by linarith
    have hrest₀ : 0 ≤ rows.flatten.sum := List.sum_nonneg hrows
    let s : Strip Rat := ⟨region, remaining, row, row.sum⟩
    have hs : s.Fair density := Strip.fair_of_region hup hrow (by linarith) harea
    -- across the strip, the strip and what is behind it lie side by side
    have hstrip : Tiles (laid (!s.flat) s.near s.edge s.start s.stop) density row s.tiles := by
      rw [Rect.laid_not]
      exact hs.tiles
    have hbehind : Tiles (laid (!s.flat) s.edge s.far s.start s.stop) density rows.flatten
        ((layRows s.behind (remaining - row.sum) rows).flatMap Strip.tiles) := by
      rw [Rect.laid_not, ← s.behind_eq]
      refine ih ?_ hrows hrest ?_
      · rw [s.behind_eq, Rect.laid_upright]
        exact ⟨hs.wide, hs.edge_le_far⟩
      · rw [s.behind_eq, Rect.area_laid hs.wide hs.edge_le_far]
        exact hs.area_behind
    have hall : Tiles (laid (!s.flat) s.near s.far s.start s.stop) density (row ++ rows.flatten)
        (s.tiles ++ (layRows s.behind (remaining - row.sum) rows).flatMap Strip.tiles) := by
      refine hstrip.beside hs.near_le_edge hs.edge_le_far hs.wide hbehind hs.sum_nonneg hrest₀ ?_ ?_
      · intro hzero hpos
        exact Strip.edge_eq_near hzero (by linarith : 0 < remaining)
      · intro hzero
        exact hs.edge_of_all (by linarith : remaining - row.sum = 0)
    rw [Rect.laid_not, ← s.region_eq] at hall
    exact hall

end Rows

/-! ## The rows that are chosen -/

namespace Row

variable {ws : List Rat}

/-- The items that open a strip weigh as much as the last of them: the others have no weight. -/
theorem lead_sum (hws : ∀ w ∈ ws, 0 ≤ w) : (lead ws).sum = (lead ws).weights.sum := by
  fun_induction lead ws with
  | case1 => exact Scalar.zero_eq
  | case2 w => exact (List.sum_singleton).symm
  | case3 w v ws hpos => exact (List.sum_singleton).symm
  | case4 w v ws hnone row ih =>
    have hw : w = 0 := by
      rw [Scalar.zero_eq, Scalar.less_iff] at hnone
      exact le_antisymm (not_lt.mp hnone) (hws w List.mem_cons_self)
    have hrow : row.sum = row.weights.sum := ih fun x hx => hws x (List.mem_cons_of_mem w hx)
    rw [List.sum_cons, hw, zero_add, ← hrow]

/-- An item that is taken back leaves the sum as it was. -/
theorem extend_sum (alpha sum least greatest best : Rat) (ws : List Rat) :
    (extend alpha sum least greatest best ws).sum =
      sum + (extend alpha sum least greatest best ws).weights.sum := by
  induction ws generalizing sum least greatest best with
  | nil => simp [extend]
  | cons w ws ih =>
    rw [extend]
    split
    · simp
    · simp only [List.sum_cons, ih]
      ring

theorem take_sum (region : Rect Rat) (remaining : Rat) (hws : ∀ w ∈ ws, 0 ≤ w) :
    (take region remaining ws).sum = (take region remaining ws).weights.sum := by
  rw [take]
  simp only [extend_sum, lead_sum hws, List.sum_append]

end Row

theorem strips_eq_layRows (region : Rect Rat) (remaining : Rat) {ws : List Rat}
    (hws : ∀ w ∈ ws, 0 ≤ w) :
    strips region remaining ws =
      layRows region remaining ((strips region remaining ws).map Strip.weights) := by
  fun_induction strips region remaining ws with
  | case1 => rfl
  | case2 region remaining ws hne row strip ih =>
    have hrest (w : Rat) (hw : w ∈ row.rest) : 0 ≤ w :=
      hws w (Row.take_append region remaining ws ▸ List.mem_append_right _ hw)
    have hsum : row.sum = row.weights.sum := Row.take_sum region remaining hws
    have hstrip : strip = ⟨region, remaining, row.weights, row.weights.sum⟩ :=
      congrArg (Strip.mk region remaining row.weights) hsum
    rw [List.map_cons, layRows, ← hstrip, ← hsum, ← ih hrest]

/-! ## Items without weight -/

/-- Items that weigh nothing in all give tiles without area, one strip after another at the edge. -/
theorem layRows_weightless {region : Rect Rat} {rows : List (List Rat)} (hup : region.Upright)
    (hzero : ∀ w ∈ rows.flatten, w = 0) {r : Rect Rat}
    (hr : r ∈ (layRows region 0 rows).flatMap Strip.tiles) :
    r.Inside region ∧ (r.width = 0 ∨ r.height = 0) := by
  induction rows generalizing region with
  | nil => cases hr
  | cons row rows ih =>
    rw [List.flatten_cons] at hzero
    have hrow (w : Rat) (hw : w ∈ row) : w = 0 := hzero w (List.mem_append_left _ hw)
    have hsum : row.sum = 0 := List.sum_eq_zero hrow
    let s : Strip Rat := ⟨region, 0, row, 0⟩
    have hlay : layRows region 0 (row :: rows) = s :: layRows s.behind 0 rows := by
      rw [layRows, hsum, sub_zero]
    have hup' : s.start ≤ s.stop ∧ s.near ≤ s.far := by
      rwa [← Rect.laid_upright, ← s.region_eq]
    have hedge : s.edge = s.far := Strip.edge_eq_far rfl
    have hunit : s.unit = 0 := Strip.unit_eq_zero rfl
    rw [hlay, List.flatMap_cons, List.mem_append] at hr
    rcases hr with hr | hr
    · have htiles (ws : List Rat) (ht : r ∈ s.tilesFrom s.start ws) :
          r = laid s.flat s.start s.start s.near s.far := by
        induction ws with
        | nil => cases ht
        | cons w ws ihws =>
          rw [Strip.tilesFrom_cons, hunit, mul_zero, add_zero, hedge, List.mem_cons] at ht
          exact ht.elim id ihws
      rw [htiles row hr]
      refine ⟨?_, ?_⟩
      · show Rect.Inside _ s.region
        rw [s.region_eq]
        exact Rect.laid_inside le_rfl hup'.2 le_rfl hup'.1 le_rfl le_rfl
      · cases s.flat with
        | true => exact .inl (sub_self _)
        | false => exact .inr (sub_self _)
    · have hbehind : s.behind.Inside region := by
        show Rect.Inside _ s.region
        rw [s.behind_eq, hedge, s.region_eq]
        exact Rect.laid_inside hup'.1 le_rfl le_rfl le_rfl hup'.2 le_rfl
      obtain ⟨hinside, hthin⟩ :=
        ih hbehind.upright (fun w hw => hzero w (List.mem_append_right _ hw)) hr
      exact ⟨hinside.trans hbehind, hthin⟩

/-! ## The bounds -/

section Bounds

variable {bounds : Rect Rat}

theorem nonneg_of_mem_weights {values : List Rat} {w : Rat} (hw : w ∈ values.map (max · 0)) :
    0 ≤ w := by
  obtain ⟨v, -, rfl⟩ := List.mem_map.mp hw
  exact le_max_right v 0

/-- The rows that the aspect ratios choose are rows of the items. -/
theorem squarify_eq_layRows (values : List Rat) (bounds : Rect Rat) :
    ∃ rows : List (List Rat), rows.flatten = values.map (max · 0) ∧
      squarify values bounds =
        (layRows bounds (values.map (max · 0)).sum rows).flatMap Strip.tiles := by
  have hweights : values.map Scalar.positivePart = values.map (max · 0) :=
    List.map_congr_left fun v _ => Scalar.positivePart_eq v
  have hnonneg (w : Rat) (hw : w ∈ values.map (max · 0)) : 0 ≤ w := nonneg_of_mem_weights hw
  refine ⟨(strips bounds (values.map (max · 0)).sum (values.map (max · 0))).map Strip.weights,
    ?_, ?_⟩
  · rw [← List.flatMap_def, strips_weights]
  · rw [← strips_eq_layRows bounds _ hnonneg, squarify, hweights, Scalar.zero_eq,
      ← List.sum_eq_foldl]

/-- Whatever the values, no tile leaves the bounds, and no two overlap. -/
theorem squarify_inside (values : List Rat) (hup : bounds.Upright) :
    (∀ r ∈ squarify values bounds, r.Inside bounds) ∧
      (squarify values bounds).Pairwise Rect.Apart := by
  obtain ⟨rows, hflat, hsquarify⟩ := squarify_eq_layRows values bounds
  have hnonneg (w : Rat) (hw : w ∈ rows.flatten) : 0 ≤ w := nonneg_of_mem_weights (hflat ▸ hw)
  rw [hsquarify, ← hflat]
  rcases eq_or_lt_of_le' (List.sum_nonneg hnonneg) with hzero | hpos
  · have hweights (w : Rat) (hw : w ∈ rows.flatten) : w = 0 :=
      le_antisymm (hzero ▸ List.single_le_sum hnonneg w hw) (hnonneg w hw)
    rw [hzero]
    refine ⟨fun r hr => (layRows_weightless hup hweights hr).1, ?_⟩
    refine List.pairwise_of_forall_mem_list fun r hr t _ p hp => ?_
    -- a tile without extent in some direction has no inner point
    exfalso
    rcases (layRows_weightless hup hweights hr).2 with hthin | hthin
    · exact lt_irrefl _ ((hp.1.trans hp.2.1).trans_eq (sub_eq_zero.mp hthin))
    · exact lt_irrefl _ ((hp.2.2.1.trans hp.2.2.2).trans_eq (sub_eq_zero.mp hthin))
  · have harea : bounds.area = bounds.area / rows.flatten.sum * rows.flatten.sum :=
      (div_mul_cancel₀ _ (ne_of_gt hpos)).symm
    have htiles := layRows_tiles hup hnonneg rfl harea
    exact ⟨htiles.inside, htiles.apart⟩

/-- For items of any positive weight in all, the tiles fill the bounds: one for each value in order,
with the share of the area that the value has of the weight. The rows decide the shapes and nothing
else: any other rows of the same items fill the bounds as well. -/
theorem squarify_tiles {values : List Rat} (hwidth : 0 < bounds.width) (hheight : 0 < bounds.height)
    (htotal : 0 < (values.map (max · 0)).sum) :
    let weights := values.map (max · 0)
    let density := bounds.area / weights.sum
    Tiles bounds density weights (squarify values bounds) ∧
      ∀ rows : List (List Rat), rows.flatten = weights →
        Tiles bounds density weights ((layRows bounds weights.sum rows).flatMap Strip.tiles) := by
  intro weights density
  have hnonneg (w : Rat) (hw : w ∈ weights) : 0 ≤ w := nonneg_of_mem_weights hw
  have hup : bounds.Upright := ⟨le_of_lt (sub_pos.mp hwidth), le_of_lt (sub_pos.mp hheight)⟩
  have harea : bounds.area = density * weights.sum := (div_mul_cancel₀ _ (ne_of_gt htotal)).symm
  have hrows (rows : List (List Rat)) (hflat : rows.flatten = weights) :
      Tiles bounds density weights ((layRows bounds weights.sum rows).flatMap Strip.tiles) := by
    rw [← hflat] at hnonneg harea ⊢
    exact layRows_tiles hup hnonneg rfl harea
  obtain ⟨rows, hflat, hsquarify⟩ := squarify_eq_layRows values bounds
  rw [hsquarify]
  exact ⟨hrows rows hflat, hrows⟩

theorem squarify_tiles_gaps :
    let bounds : Rect Rat := ⟨10, 10, 110, 60⟩
    0 < bounds.width ∧ 0 < bounds.height ∧
      Tiles bounds (bounds.area / 6) [0, 3, 0, 1, 2, 0] (squarify [0, 3, -1, 1, 2, 0] bounds) ∧
      Tiles bounds (bounds.area / 6) [0, 3, 0, 1, 2, 0]
        ((layRows bounds 6 [[0, 3, 0], [], [1, 2], [0]]).flatMap Strip.tiles) := by
  intro bounds
  have hwidth : 0 < bounds.width := by norm_num [bounds, Rect.width]
  have hheight : 0 < bounds.height := by norm_num [bounds, Rect.height]
  have hweights : [0, 3, -1, 1, 2, 0].map (max · 0) = ([0, 3, 0, 1, 2, 0] : List Rat) := by norm_num
  have hsum : ([0, 3, 0, 1, 2, 0] : List Rat).sum = 6 := by norm_num
  have htotal : 0 < (([0, 3, -1, 1, 2, 0] : List Rat).map (max · 0)).sum := by
    rw [hweights, hsum]
    norm_num
  obtain ⟨hchosen, hrows⟩ := squarify_tiles hwidth hheight htotal
  rw [hweights, hsum] at hchosen hrows
  exact ⟨hwidth, hheight, hchosen, hrows _ rfl⟩

end Bounds

end SourceAtlas.Layout
