import SourceAtlas.Geometry.Rect

/-! Tiling a rectangle with areas proportional to given weights. The rectangle is filled strip by
strip; a strip lies along the shorter side of what is left and takes further items as long as the
worst of its aspect ratios does not grow. Which items a strip takes depends on comparisons, but
every strip takes at least one, so the strips always part the list of items. -/

namespace SourceAtlas.Layout

variable {α : Type} [Scalar α]

/-- The items that a strip takes from the front of a list, their sum, and the items left over. -/
structure Row (α : Type) where
  weights : List α
  sum : α
  rest : List α

/-- The items that open a strip: those of no weight, and the first that has some. -/
def Row.lead : List α → Row α
  | [] => ⟨[], 0.0, []⟩
  | [w] => ⟨[w], w, []⟩
  | w :: v :: ws =>
    if Scalar.less 0.0 w then ⟨[w], w, v :: ws⟩
    else
      let row := lead (v :: ws)
      ⟨w :: row.weights, row.sum, row.rest⟩

/-- The worst aspect ratio of a strip with the given sum, least and greatest weight. -/
def worstRatio (alpha sum least greatest : α) : α :=
  let beta := sum * sum * alpha
  Scalar.larger (greatest / beta) (beta / least)

/-- Takes further items while the worst aspect ratio does not grow above `best`. -/
def Row.extend (alpha : α) : (sum least greatest best : α) → List α → Row α
  | sum, _, _, _, [] => ⟨[], sum, []⟩
  | sum, least, greatest, best, w :: ws =>
    let more := sum + w
    let least := Scalar.smaller least w
    let greatest := Scalar.larger greatest w
    let ratio := worstRatio alpha more least greatest
    if Scalar.less best ratio then ⟨[], more - w, w :: ws⟩
    else
      let row := extend alpha more least greatest ratio ws
      ⟨w :: row.weights, row.sum, row.rest⟩

/-- The aspect ratio that the tiling aims for. -/
def goldenRatio : α := 1.618033988749895

/-- The items of the next strip of a region, `remaining` being the weight still to be placed. -/
def Row.take (region : Rect α) (remaining : α) (weights : List α) : Row α :=
  let dx := region.width
  let dy := region.height
  let opening := Row.lead weights
  let alpha := Scalar.larger (dy / dx) (dx / dy) / (remaining * goldenRatio)
  let best := worstRatio alpha opening.sum opening.sum opening.sum
  let more := Row.extend alpha opening.sum opening.sum opening.sum best opening.rest
  ⟨opening.weights ++ more.weights, more.sum, more.rest⟩

theorem Row.lead_length (ws : List α) :
    (Row.lead ws).weights.length + (Row.lead ws).rest.length = ws.length := by
  fun_induction Row.lead ws with
  | case1 => rfl
  | case2 => rfl
  | case3 => simp; omega
  | case4 w v ws _ row ih =>
    change row.weights.length + 1 + row.rest.length = ws.length + 1 + 1
    have ih : row.weights.length + row.rest.length = ws.length + 1 := ih
    omega

theorem Row.lead_weights_pos {ws : List α} (h : ws ≠ []) :
    0 < (Row.lead ws).weights.length := by
  fun_cases Row.lead ws <;> simp_all

theorem Row.extend_length (alpha sum least greatest best : α) (ws : List α) :
    (Row.extend alpha sum least greatest best ws).weights.length
      + (Row.extend alpha sum least greatest best ws).rest.length = ws.length := by
  induction ws generalizing sum least greatest best with
  | nil => rfl
  | cons w ws ih =>
    rw [Row.extend]
    split
    · simp
    · simp only [List.length_cons]
      have := ih (sum + w) (Scalar.smaller least w) (Scalar.larger greatest w)
        (worstRatio alpha (sum + w) (Scalar.smaller least w) (Scalar.larger greatest w))
      omega

theorem Row.take_length (region : Rect α) (remaining : α) (ws : List α) :
    (Row.take region remaining ws).weights.length
      + (Row.take region remaining ws).rest.length = ws.length := by
  simp only [Row.take, List.length_append]
  have h := Row.lead_length ws
  have h' := fun alpha best => Row.extend_length alpha (Row.lead ws).sum (Row.lead ws).sum
    (Row.lead ws).sum best (Row.lead ws).rest
  simp only [Nat.add_assoc, h', h]

/-- A strip leaves fewer items than it found. -/
theorem Row.take_rest_lt (region : Rect α) (remaining : α) {ws : List α} (h : ws ≠ []) :
    (Row.take region remaining ws).rest.length < ws.length := by
  have h1 := Row.take_length region remaining ws
  have h2 := Row.lead_weights_pos h
  have h3 : 0 < (Row.take region remaining ws).weights.length := by
    simp only [Row.take, List.length_append]; omega
  omega

structure Strip (α : Type) where
  /-- What was left of the bounds when the strip was laid. -/
  region : Rect α
  /-- The weight still to be placed then. -/
  remaining : α
  weights : List α
  sum : α

namespace Strip

/-- Whether the strip lies at the top of the region, its items side by side. -/
def flat (s : Strip α) : Bool := Scalar.less s.region.width s.region.height

def edge (s : Strip α) : α :=
  if s.flat then
    if Scalar.less 0.0 s.remaining then
      s.region.y0 + s.region.height * s.sum / s.remaining
    else s.region.y1
  else
    if Scalar.less 0.0 s.remaining then
      s.region.x0 + s.region.width * s.sum / s.remaining
    else s.region.x1

/-- The extent along the strip for each unit of weight. -/
def unit (s : Strip α) : α :=
  if Scalar.less 0.0 s.sum then
    (if s.flat then s.region.width else s.region.height) / s.sum
  else 0.0

def behind (s : Strip α) : Rect α :=
  if s.flat then { s.region with y0 := s.edge } else { s.region with x0 := s.edge }

/-- The tiles of items that lie one after another from a starting point along the strip. -/
def tilesFrom (s : Strip α) : (start : α) → List α → List (Rect α)
  | _, [] => []
  | start, w :: ws =>
    let stop := start + w * s.unit
    let tile : Rect α :=
      if s.flat then ⟨start, s.region.y0, stop, s.edge⟩ else ⟨s.region.x0, start, s.edge, stop⟩
    tile :: s.tilesFrom stop ws

def tiles (s : Strip α) : List (Rect α) :=
  s.tilesFrom (if s.flat then s.region.x0 else s.region.y0) s.weights

end Strip

/-- The strips that tile a region with items of the given weights. -/
def strips (region : Rect α) (remaining : α) (weights : List α) : List (Strip α) :=
  if _ : weights = [] then []
  else
    let row := Row.take region remaining weights
    let strip : Strip α := ⟨region, remaining, row.weights, row.sum⟩
    strip :: strips strip.behind (remaining - row.sum) row.rest
termination_by weights.length
decreasing_by exact Row.take_rest_lt region remaining (by assumption)

/-- Tiles the bounds, one rectangle for each value in order. A value that is not positive has no
area. -/
def squarify (values : List α) (bounds : Rect α) : List (Rect α) :=
  let weights := values.map Scalar.positivePart
  (strips bounds (weights.foldl (· + ·) 0.0) weights).flatMap Strip.tiles

end SourceAtlas.Layout
