import SourceAtlas.Layout.Squarify

/-! # The strips part the items

Which items a strip takes hangs on comparisons of numbers that may be undefined. Whatever they say,
a strip takes a beginning of what is left, so that together the strips take every item once and in
order, and each item gets one tile. -/

namespace SourceAtlas.Layout

variable {α : Type} [Scalar α]

namespace Row

theorem lead_append (ws : List α) : (lead ws).weights ++ (lead ws).rest = ws := by
  fun_induction lead ws with
  | case1 => rfl
  | case2 => rfl
  | case3 => rfl
  | case4 w v ws _ row ih => exact congrArg (w :: ·) ih

theorem extend_append (alpha sum least greatest best : α) (ws : List α) :
    (extend alpha sum least greatest best ws).weights ++
      (extend alpha sum least greatest best ws).rest = ws := by
  induction ws generalizing sum least greatest best with
  | nil => rfl
  | cons w ws ih =>
    rw [extend]
    split
    · rfl
    · exact congrArg (w :: ·) (ih _ _ _ _)

theorem take_append (region : Rect α) (remaining : α) (ws : List α) :
    (take region remaining ws).weights ++ (take region remaining ws).rest = ws := by
  rw [take, List.append_assoc, extend_append, lead_append]

end Row

theorem Strip.tilesFrom_length (s : Strip α) (start : α) (ws : List α) :
    (s.tilesFrom start ws).length = ws.length := by
  induction ws generalizing start with
  | nil => rfl
  | cons w ws ih => rw [tilesFrom, List.length_cons, ih, List.length_cons]

theorem Strip.tiles_length (s : Strip α) : s.tiles.length = s.weights.length :=
  s.tilesFrom_length _ _

/-- Together the strips take every item once, in order. -/
theorem strips_weights (region : Rect α) (remaining : α) (ws : List α) :
    (strips region remaining ws).flatMap Strip.weights = ws := by
  fun_induction strips region remaining ws with
  | case1 => rfl
  | case2 region remaining ws _ row strip ih =>
    rw [List.flatMap_cons, ih]
    exact Row.take_append region remaining ws

theorem squarify_length (values : List α) (bounds : Rect α) :
    (squarify values bounds).length = values.length := by
  have h (l : List (Strip α)) :
      (l.flatMap Strip.tiles).length = (l.flatMap Strip.weights).length := by
    simp only [List.length_flatMap, Strip.tiles_length]
  rw [squarify, h, strips_weights, List.length_map]

end SourceAtlas.Layout
