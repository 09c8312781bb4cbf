import SourceAtlas.Decimal.Binary

/-! Decimals with a fixed number of places. The exact value is rounded once, to the nearest
multiple of the last place, a half going to the even digit. -/

namespace SourceAtlas.Decimal

def padLeft (width : Nat) (digits : String) : String :=
  String.ofList (List.replicate (width - digits.length) '0') ++ digits

/-- The numeral of `units / 10 ^ places`, written with exactly that many places. -/
def placed (places units : Nat) : String :=
  let whole := toString (units / Nat.pow 10 places)
  if places = 0 then whole
  else whole ++ "." ++ padLeft places (toString (units % Nat.pow 10 places))

/-- How many units of the last place a magnitude comes to. -/
def Binary.units (places : Nat) (b : Binary) : Nat :=
  roundDiv (b.fraction.1 * Nat.pow 10 places) b.fraction.2

/-- A double with exactly `places` decimals; the sign bit shows even on zero. -/
def fixed (places : Nat) (bits : UInt64) : String :=
  let sign := if isNegative bits then "-" else ""
  match magnitude bits with
  | .finite b => sign ++ placed places (b.units places)
  | .infinite => sign ++ "inf"
  | .undefined => "NaN"

end SourceAtlas.Decimal
