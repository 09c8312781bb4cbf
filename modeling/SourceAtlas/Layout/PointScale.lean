import SourceAtlas.Geometry.Scalar

/-! Evenly spaced positions on a line. -/

namespace SourceAtlas.Layout

/-- Positions for `count` items from `start` to `stop`; a single item stands in the middle. -/
def pointScale {α : Type} [Scalar α] (count : Nat) (start stop : α) : List α :=
  match count with
  | 0 => []
  | 1 => [(start + stop) / 2.0]
  | count =>
    let step := (stop - start) / Scalar.ofCount (count - 1)
    (List.range count).map fun i => start + step * Scalar.ofCount i

end SourceAtlas.Layout
