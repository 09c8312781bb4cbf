import Mathlib.Data.List.Chain
import SourceAtlas.Proofs.Layout.Squarify

/-! # Tiling in place

The strips of a tiling take their items off the front of a list. Here the same tiling is laid in
place: one cursor stands at the first item of the row that is being laid, another one runs ahead to
the first item behind it, and weights are read and tiles written by their index. An index outside
the list ends the run without a result, and so does a row beyond a given number of rows. Neither
happens, whatever the comparisons of numbers say: each row moves the cursor on by an item at least,
and what a row writes is decided by the two cursors alone. No law of numbers is used, so all of this
holds of doubles with their undefined values as well. -/

namespace SourceAtlas

/-- The two coordinates of a rectangle along a row; a flat row lies along `x`. -/
def Rect.along {α : Type} (flat : Bool) (r : Rect α) : α × α :=
  if flat then (r.x0, r.x1) else (r.y0, r.y1)

/-- The two coordinates of a rectangle across a row. -/
def Rect.across {α : Type} (flat : Bool) (r : Rect α) : α × α := r.along (!flat)

namespace Layout

variable {α : Type} [Scalar α]

/-! ## One row -/

/-- Runs over the items that open a row, from index `i` on: the last weight that is read, and the
index behind it. The end of the list is only looked for behind an item that has been read. -/
def openRow? (weights : List α) (i : Nat) : Option (α × Nat) :=
  if _ : i < weights.length then
    if Scalar.less 0.0 weights[i] || weights.length ≤ i + 1 then some (weights[i], i + 1)
    else openRow? weights (i + 1)
  else none
termination_by weights.length - i

/-- Runs over further items, up to the end of the list, while the worst aspect ratio does not grow
above `best`: the sum of the row, and the index behind it. -/
def extendRow (weights : List α) (alpha sum least greatest best : α) (i : Nat) : α × Nat :=
  if _ : i < weights.length then
    let w := weights[i]
    let more := sum + w
    let least := Scalar.smaller least w
    let greatest := Scalar.larger greatest w
    let ratio := worstRatio alpha more least greatest
    if Scalar.less best ratio then (more - w, i)
    else extendRow weights alpha more least greatest ratio (i + 1)
  else (sum, i)
termination_by weights.length - i

/-- The sum of the row that begins at an index, and the index behind the row. -/
def rowAt? (weights : List α) (region : Rect α) (remaining : α) (first : Nat) :
    Option (α × Nat) := do
  let dx := region.width
  let dy := region.height
  let (opening, i) ← openRow? weights first
  let alpha := Scalar.larger (dy / dx) (dx / dy) / (remaining * goldenRatio)
  let best := worstRatio alpha opening opening opening
  return extendRow weights alpha opening opening opening best i

namespace Strip

def origin (s : Strip α) : α := if s.flat then s.region.x0 else s.region.y0

def tile (s : Strip α) (start stop : α) : Rect α :=
  if s.flat then ⟨start, s.region.y0, stop, s.edge⟩ else ⟨s.region.x0, start, s.edge, stop⟩

/-- Writes the tiles of `count` items from index `i` on, the first of them from `start` on: the
indices that are written, and what all tiles are then. -/
def write? (s : Strip α) (weights : List α) :
    (start : α) → (i count : Nat) → List (Rect α) → Option (List Nat × List (Rect α))
  | _, _, 0, tiles => some ([], tiles)
  | start, i, count + 1, tiles =>
    if _ : i < weights.length then
      if i < tiles.length then
        let stop := start + weights[i] * s.unit
        (s.write? weights stop (i + 1) count (tiles.set i (s.tile start stop))).map
          fun (written, tiles) => (i :: written, tiles)
      else none
    else none

end Strip

/-- A row that has been laid: the items from `first` up to the one before `stop`. -/
structure LaidRow (α : Type) where
  first : Nat
  stop : Nat
  strip : Strip α
  /-- The indices that the row has written, in order. -/
  written : List Nat

def LaidRow.part {β : Type} (r : LaidRow α) (l : List β) : List β := (l.take r.stop).drop r.first

/-! ## Row after row -/

/-- How far the tiling has come between two rows. -/
structure Board (α : Type) where
  /-- What is left of the bounds. -/
  region : Rect α
  /-- The weight still to be placed. -/
  remaining : α
  /-- The first item that has no row yet. -/
  next : Nat
  rows : List (LaidRow α)
  tiles : List (Rect α)

namespace Board

def start (weights : List α) (bounds : Rect α) : Board α where
  region := bounds
  remaining := weights.foldl (· + ·) 0.0
  next := 0
  rows := []
  tiles := List.replicate weights.length ⟨bounds.x0, bounds.y0, bounds.x0, bounds.y0⟩

def layRow? (weights : List α) (b : Board α) : Option (Board α) := do
  let (sum, stop) ← rowAt? weights b.region b.remaining b.next
  let strip : Strip α := ⟨b.region, b.remaining, (weights.take stop).drop b.next, sum⟩
  let (written, tiles) ← strip.write? weights strip.origin b.next (stop - b.next) b.tiles
  return ⟨strip.behind, b.remaining - sum, stop, b.rows ++ [⟨b.next, stop, strip, written⟩], tiles⟩

/-- Lays rows until every item has one; nothing when `limit` rows are too few. -/
def run? (weights : List α) : (limit : Nat) → Board α → Option (Board α)
  | 0, b => if b.next < weights.length then none else some b
  | limit + 1, b =>
    if b.next < weights.length then (b.layRow? weights).bind (run? weights limit) else some b

end Board

/-- Tiles the bounds in place, with at most `limit` rows. -/
def squarifyInPlace? (limit : Nat) (values : List α) (bounds : Rect α) : Option (Board α) :=
  let weights := values.map Scalar.positivePart
  (Board.start weights bounds).run? weights limit

/-! ## The cursors follow the list -/

section Cursors

variable {weights ws : List α} {w : α} {i : Nat}

omit [Scalar α] in
/-- What stands at a cursor, and what stands behind it. -/
theorem read_of_drop (h : weights.drop i = w :: ws) :
    ∃ hi : i < weights.length, weights[i] = w ∧ weights.drop (i + 1) = ws := by
  have hget : weights[i]? = some w := by
    rw [← List.head?_drop, h]
    rfl
  obtain ⟨hi, hw⟩ := List.getElem?_eq_some_iff.mp hget
  refine ⟨hi, hw, ?_⟩
  rw [← List.drop_drop, h]
  rfl

omit [Scalar α] in
/-- Behind the items that are taken off the front of the rest stand the others. -/
theorem drop_of_append {taken rest : List α} (h : taken ++ rest = weights.drop i) :
    weights.drop (i + taken.length) = rest := by
  rw [← List.drop_drop, ← h, List.drop_left]

theorem openRow?_eq (h : weights.drop i = ws) (hne : ws ≠ []) :
    openRow? weights i = some ((Row.lead ws).sum, i + (Row.lead ws).weights.length) := by
  induction ws generalizing i with
  | nil => exact absurd rfl hne
  | cons w ws ih =>
    obtain ⟨hi, rfl, hnext⟩ := read_of_drop h
    rw [openRow?, dif_pos hi]
    cases ws with
    | nil =>
      -- the last item ends the opening of the row whatever it weighs
      have hlast : weights.length ≤ i + 1 := List.drop_eq_nil_iff.mp hnext
      rw [if_pos (by simp [hlast])]
      rfl
    | cons v ws =>
      obtain ⟨hlt, -, -⟩ := read_of_drop hnext
      rw [Row.lead, decide_eq_false (Nat.not_le.mpr hlt), Bool.or_false]
      split
      · rfl
      · rw [ih hnext (List.cons_ne_nil v ws), List.length_cons, Nat.add_assoc, Nat.add_comm 1]

theorem extendRow_eq (alpha sum least greatest best : α) (h : weights.drop i = ws) :
    extendRow weights alpha sum least greatest best i =
      ((Row.extend alpha sum least greatest best ws).sum,
        i + (Row.extend alpha sum least greatest best ws).weights.length) := by
  induction ws generalizing i sum least greatest best with
  | nil =>
    have hend : ¬ i < weights.length := Nat.not_lt.mpr (List.drop_eq_nil_iff.mp h)
    rw [extendRow, dif_neg hend]
    rfl
  | cons w ws ih =>
    obtain ⟨hi, rfl, hnext⟩ := read_of_drop h
    rw [extendRow, dif_pos hi, Row.extend]
    dsimp only
    split
    · rfl
    · rw [ih _ _ _ _ hnext, List.length_cons, Nat.add_assoc, Nat.add_comm 1]

/-- The cursors find the row that is taken off the front of the rest of the list. -/
theorem rowAt?_eq (region : Rect α) (remaining : α) (h : weights.drop i = ws) (hne : ws ≠ []) :
    rowAt? weights region remaining i = some ((Row.take region remaining ws).sum,
      i + (Row.take region remaining ws).weights.length) := by
  have hrest : weights.drop (i + (Row.lead ws).weights.length) = (Row.lead ws).rest :=
    drop_of_append ((Row.lead_append ws).trans h.symm)
  unfold rowAt? Row.take
  rw [openRow?_eq h hne]
  simp only [Option.bind_eq_bind, Option.bind_some, extendRow_eq _ _ _ _ _ hrest]
  rw [List.length_append, Nat.add_assoc]
  rfl

namespace Strip

variable (s : Strip α) {tiles : List (Rect α)} {start : α} {count : Nat}

theorem tilesFrom_tile (start w : α) (ws : List α) : s.tilesFrom start (w :: ws) =
    s.tile start (start + w * s.unit) :: s.tilesFrom (start + w * s.unit) ws := rfl

theorem write?_succ (hi : i < weights.length) (hroom : i < tiles.length) :
    let stop := start + weights[i] * s.unit
    s.write? weights start i (count + 1) tiles =
      (s.write? weights stop (i + 1) count (tiles.set i (s.tile start stop))).map
        fun (written, tiles) => (i :: written, tiles) := by
  intro stop
  rw [write?, dif_pos hi, if_pos hroom]

/-- What the writing of a row leaves: the tiles before the row and those behind it as they were, and
between them the tiles of the strip. -/
theorem write?_eq (hweights : i + count ≤ weights.length) (htiles : tiles.length = weights.length) :
    s.write? weights start i count tiles = some (List.range' i count,
      tiles.take i ++ s.tilesFrom start ((weights.drop i).take count) ++
        tiles.drop (i + count)) := by
  induction count generalizing tiles start i with
  | zero => simp [write?, tilesFrom]
  | succ count ih =>
    have hi : i < weights.length := by omega
    have hroom : i < tiles.length := by omega
    let stop := start + weights[i] * s.unit
    let more := tiles.set i (s.tile start stop)
    have hmore : s.write? weights stop (i + 1) count more = some (List.range' (i + 1) count,
        more.take (i + 1) ++ s.tilesFrom stop ((weights.drop (i + 1)).take count) ++
          more.drop (i + 1 + count)) := ih (by omega) (by simpa [more] using htiles)
    have hbefore : more.take (i + 1) = tiles.take i ++ [s.tile start stop] := by
      rw [List.take_add_one, List.take_set_of_le (Nat.le_refl i), List.getElem?_set_self hroom]
      rfl
    have hbehind : more.drop (i + 1 + count) = tiles.drop (i + (count + 1)) := by
      rw [List.drop_set_of_lt (by omega), Nat.add_assoc, Nat.add_comm 1]
    rw [s.write?_succ hi hroom, hmore, hbefore, hbehind, List.append_assoc (tiles.take i),
      List.singleton_append, List.drop_eq_getElem_cons hi, List.take_succ_cons, tilesFrom_tile,
      List.range'_succ]
    rfl

end Strip

end Cursors

/-! ## The next row -/

namespace Board

/-- The strip of the row that is taken off the front of the items without a row. -/
def strip (weights : List α) (b : Board α) : Strip α :=
  let row := Row.take b.region b.remaining (weights.drop b.next)
  ⟨b.region, b.remaining, row.weights, row.sum⟩

def stop (weights : List α) (b : Board α) : Nat := b.next + (b.strip weights).weights.length

def grown (weights : List α) (b : Board α) : Board α where
  region := (b.strip weights).behind
  remaining := b.remaining - (b.strip weights).sum
  next := b.stop weights
  rows := b.rows ++ [⟨b.next, b.stop weights, b.strip weights,
    List.range' b.next (b.strip weights).weights.length⟩]
  tiles := b.tiles.take b.next ++ (b.strip weights).tiles ++ b.tiles.drop (b.stop weights)

variable {weights : List α} {b : Board α}

theorem front_weights :
    (weights.drop b.next).take (b.strip weights).weights.length = (b.strip weights).weights := by
  have happend : (b.strip weights).weights ++ _ = weights.drop b.next := Row.take_append ..
  rw [← happend, List.take_left]

/-- The items of the row stand between the cursors. -/
theorem part_weights : (weights.take (b.stop weights)).drop b.next = (b.strip weights).weights := by
  rw [stop, List.drop_take, Nat.add_sub_cancel_left, front_weights]

section Next

variable (h : b.next < weights.length)
include h

omit [Scalar α] in
theorem rest_ne_nil : weights.drop b.next ≠ [] := by
  rw [Ne, List.drop_eq_nil_iff]
  omega

theorem next_lt_stop : b.next < b.stop weights := by
  have hlength : (b.strip weights).weights.length + _ = _ := Row.take_length ..
  have hlt := Row.take_rest_lt b.region b.remaining (rest_ne_nil h)
  unfold stop
  omega

theorem stop_le : b.stop weights ≤ weights.length := by
  have hlength : (b.strip weights).weights.length + _ = _ := Row.take_length ..
  rw [List.length_drop] at hlength
  unfold stop
  omega

/-- The row is the first one of those that are still to be laid. -/
theorem strips_next : strips b.region b.remaining (weights.drop b.next) =
    b.strip weights :: strips (b.grown weights).region (b.grown weights).remaining
      (weights.drop (b.grown weights).next) := by
  have hrest : weights.drop (b.stop weights) = _ := drop_of_append (Row.take_append ..)
  rw [strips, dif_neg (rest_ne_nil h)]
  exact congrArg (_ :: strips _ _ ·) hrest.symm

/-- The cursors find the row and write it. -/
theorem layRow?_eq (htiles : b.tiles.length = weights.length) :
    b.layRow? weights = some (b.grown weights) := by
  have hrow : rowAt? weights b.region b.remaining b.next =
      some ((b.strip weights).sum, b.stop weights) := rowAt?_eq _ _ rfl (rest_ne_nil h)
  have hstrip : (⟨b.region, b.remaining, (weights.take (b.stop weights)).drop b.next,
      (b.strip weights).sum⟩ : Strip α) = b.strip weights := by
    rw [part_weights]
    rfl
  have hwrite : (b.strip weights).write? weights (b.strip weights).origin b.next
      (b.stop weights - b.next) b.tiles =
        some (List.range' b.next (b.strip weights).weights.length, (b.grown weights).tiles) := by
    rw [stop, Nat.add_sub_cancel_left, (b.strip weights).write?_eq (stop_le h) htiles,
      front_weights]
    rfl
  unfold layRow?
  rw [hrow]
  simp only [Option.bind_eq_bind, Option.bind_some, hstrip, hwrite]
  rfl

end Next

end Board

/-! ## Boards -/

omit [Scalar α] in
theorem LaidRow.part_congr {β : Type} {r : LaidRow α} {n : Nat} {l m : List β} (hr : r.stop ≤ n)
    (h : l.take n = m.take n) : r.part l = r.part m := by
  have hstop : l.take r.stop = m.take r.stop := by
    rw [← Nat.min_eq_left hr, ← List.take_take, h, List.take_take]
  rw [part, hstop, part]

/-- The row has written each of its items once, and what it has written is still there. -/
structure LaidRow.Kept (weights : List α) (b : Board α) (r : LaidRow α) : Prop where
  lt : r.first < r.stop
  le : r.stop ≤ b.next
  weights_eq : r.strip.weights = r.part weights
  written_eq : r.written = List.range' r.first (r.stop - r.first)
  tiles_eq : r.part b.tiles = r.strip.tiles

/-- What is written behind the row leaves it as it is. -/
theorem LaidRow.Kept.later {r : LaidRow α} {weights : List α} {b b' : Board α}
    (h : r.Kept weights b) (hnext : b.next ≤ b'.next)
    (hfront : b'.tiles.take b.next = b.tiles.take b.next) : r.Kept weights b' where
  lt := h.lt
  le := Nat.le_trans h.le hnext
  weights_eq := h.weights_eq
  written_eq := h.written_eq
  tiles_eq := (part_congr h.le hfront).trans h.tiles_eq

namespace Board

/-- The rows that have been laid part the items before the next one, their tiles stand in front, and
the strips of the whole tiling are theirs and those of what is left. -/
structure Sound (weights : List α) (whole : List (Strip α)) (b : Board α) : Prop where
  next_le : b.next ≤ weights.length
  length_eq : b.tiles.length = weights.length
  few : b.rows.length ≤ b.next
  kept : ∀ r ∈ b.rows, r.Kept weights b
  written : b.rows.flatMap LaidRow.written = List.range b.next
  tiles : b.tiles.take b.next = b.rows.flatMap (·.strip.tiles)
  strips : b.rows.map LaidRow.strip ++ strips b.region b.remaining (weights.drop b.next) = whole

variable {weights : List α} {whole : List (Strip α)} {b : Board α}

theorem start_sound (weights : List α) (bounds : Rect α) :
    (start weights bounds).Sound weights (strips bounds (weights.foldl (· + ·) 0.0) weights) where
  next_le := Nat.zero_le _
  length_eq := List.length_replicate
  few := Nat.le_refl 0
  kept := nofun
  written := rfl
  tiles := rfl
  strips := rfl

namespace Sound

variable (h : b.Sound weights whole)
include h

theorem length_front : (b.tiles.take b.next).length = b.next := by
  rw [List.length_take, h.length_eq, Nat.min_eq_left h.next_le]

/-- The tiles before the row stay as they are. -/
theorem front_grown : (b.grown weights).tiles.take b.next = b.tiles.take b.next := by
  rw [grown, List.append_assoc, List.take_left' h.length_front]

theorem tiles_grown : (b.grown weights).tiles.take (b.stop weights) =
    b.tiles.take b.next ++ (b.strip weights).tiles := by
  refine List.take_left' ?_
  rw [List.length_append, h.length_front, Strip.tiles_length, stop]

theorem grown (hlt : b.next < weights.length) : (b.grown weights).Sound weights whole where
  next_le := stop_le hlt
  length_eq := by
    have hle := stop_le hlt
    have htiles := h.length_eq
    simp only [Board.grown, List.length_append, h.length_front, Strip.tiles_length,
      List.length_drop]
    unfold stop at *
    omega
  few := by
    have hfew := h.few
    have hnext := next_lt_stop hlt
    simp only [Board.grown, List.length_append, List.length_singleton]
    omega
  kept r hr := by
    obtain hr | hr := List.mem_append.mp hr
    · exact (h.kept r hr).later (Nat.le_of_lt (next_lt_stop hlt)) h.front_grown
    · obtain rfl := List.mem_singleton.mp hr
      refine ⟨next_lt_stop hlt, Nat.le_refl _, part_weights.symm, ?_, ?_⟩
      · rw [stop, Nat.add_sub_cancel_left]
      · rw [LaidRow.part, h.tiles_grown, List.drop_left' h.length_front]
  written := by
    have hrange : List.range' 0 b.next ++ List.range' b.next (b.strip weights).weights.length =
        List.range' 0 (b.stop weights) := by
      rw [stop, ← List.range'_append_1, Nat.zero_add]
    simp only [Board.grown, List.flatMap_append, h.written, List.flatMap_singleton,
      List.range_eq_range', hrange]
  tiles := by
    simp only [Board.grown, List.flatMap_append, List.flatMap_singleton, ← h.tiles]
    exact h.tiles_grown
  strips := by
    rw [Board.grown, List.map_append, List.append_assoc, ← h.strips, strips_next hlt]
    rfl

end Sound

/-- Rows are laid until every item has one, within as many rows as there are items without one. -/
theorem Sound.run {limit : Nat} (h : b.Sound weights whole)
    (hlimit : weights.length ≤ b.next + limit) :
    ∃ b', b.run? weights limit = some b' ∧ b'.next = weights.length ∧ b'.Sound weights whole := by
  induction limit generalizing b with
  | zero =>
    have hnext : b.next = weights.length := Nat.le_antisymm h.next_le hlimit
    refine ⟨b, ?_, hnext, h⟩
    rw [run?, if_neg (by omega)]
  | succ limit ih =>
    rw [run?]
    split
    · next hlt =>
      have hgrow : b.next < (b.grown weights).next := next_lt_stop hlt
      rw [layRow?_eq hlt h.length_eq, Option.bind_some]
      exact ih (h.grown hlt) (by omega)
    · next hend =>
      exact ⟨b, rfl, Nat.le_antisymm h.next_le (Nat.not_lt.mp hend), h⟩

end Board

/-! ## Tiles in line -/

/-- Rectangles side by side: all have the same two coordinates across the row, and each begins along
it where the one before it ends. -/
structure InLine (flat : Bool) (tiles : List (Rect α)) : Prop where
  across : ∃ edges, ∀ t ∈ tiles, t.across flat = edges
  along : tiles.IsChain fun t u => (t.along flat).2 = (u.along flat).1

namespace Strip

variable (s : Strip α)

theorem tile_along (start stop : α) : (s.tile start stop).along s.flat = (start, stop) := by
  unfold tile Rect.along
  cases s.flat <;> rfl

theorem tile_across (start stop start' stop' : α) :
    (s.tile start stop).across s.flat = (s.tile start' stop').across s.flat := by
  unfold tile Rect.across Rect.along
  cases s.flat <;> rfl

theorem across_tilesFrom (start : α) {ws : List α} {t : Rect α} (ht : t ∈ s.tilesFrom start ws) :
    t.across s.flat = (s.tile start start).across s.flat := by
  induction ws generalizing start with
  | nil => cases ht
  | cons w ws ih =>
    rw [tilesFrom_tile, List.mem_cons] at ht
    obtain rfl | ht := ht
    · exact s.tile_across ..
    · exact (ih _ ht).trans (s.tile_across ..)

theorem along_tilesFrom (start : α) (ws : List α) : (s.tilesFrom start ws).IsChain
    fun t u => (t.along s.flat).2 = (u.along s.flat).1 := by
  induction ws generalizing start with
  | nil => exact .nil
  | cons w ws ih =>
    rw [tilesFrom_tile, List.isChain_cons]
    refine ⟨?_, ih _⟩
    intro u hu
    cases ws with
    | nil => cases hu
    | cons v ws =>
      rw [tilesFrom_tile, List.head?_cons, Option.mem_some_iff] at hu
      rw [← hu, tile_along, tile_along]

theorem tiles_inLine : InLine s.flat s.tiles where
  across := ⟨_, fun _ ht => s.across_tilesFrom _ ht⟩
  along := s.along_tilesFrom _ _

end Strip

/-- Tiling in place ends within as many rows as there are items, leaves no index outside the list,
and gives the tiling. The rows part the items: each of them has items, and one after another they
have written every index once. What a row has written are the tiles of its own items, which stand in
line. -/
theorem squarify_inPlace (values : List α) (bounds : Rect α) :
    ∃ b : Board α, squarifyInPlace? values.length values bounds = some b ∧
      b.tiles = squarify values bounds ∧ b.tiles.length = values.length ∧
      b.rows.length ≤ values.length ∧
      b.rows.flatMap LaidRow.written = List.range values.length ∧
      ∀ r ∈ b.rows, r.first < r.stop ∧ r.written = List.range' r.first (r.stop - r.first) ∧
        r.strip.weights = r.part (values.map Scalar.positivePart) ∧
        r.part b.tiles = r.strip.tiles ∧ InLine r.strip.flat (r.part b.tiles) := by
  have hlength : (values.map Scalar.positivePart).length = values.length := List.length_map _
  have hlimit : (values.map Scalar.positivePart).length ≤ 0 + values.length := by omega
  obtain ⟨b, hrun, hnext, h⟩ :=
    (Board.start_sound (values.map Scalar.positivePart) bounds).run hlimit
  refine ⟨b, hrun, ?_, ?_, ?_, ?_, ?_⟩
  · -- no item is left, so the strips are those of the rows, and their tiles fill the list
    have hwhole := h.strips
    rw [hnext, List.drop_length, strips, dif_pos rfl, List.append_nil] at hwhole
    rw [squarify, ← hwhole, List.flatMap_map, ← h.tiles, hnext, ← h.length_eq, List.take_length]
  · rw [h.length_eq, hlength]
  · rw [← hlength, ← hnext]
    exact h.few
  · rw [h.written, hnext, hlength]
  · intro r hr
    have hkept := h.kept r hr
    refine ⟨hkept.lt, hkept.written_eq, hkept.weights_eq, hkept.tiles_eq, ?_⟩
    rw [hkept.tiles_eq]
    exact r.strip.tiles_inLine

end Layout

end SourceAtlas
