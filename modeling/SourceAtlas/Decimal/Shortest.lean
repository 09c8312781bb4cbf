import SourceAtlas.Decimal.Binary

/-! The shortest decimal that reads back as the same double. A double owns the interval of reals
that round to it; the wanted decimal has the fewest digits of all decimals in that interval and,
among those, is the nearest to the value. On a given grid of decimals only the two neighbours of
the value can be the nearest, so one to seventeen digits are tried in turn. -/

namespace SourceAtlas.Decimal

/-- The decimal `digits * 10 ^ exponent`. -/
structure Scientific where
  digits : Nat
  exponent : Int
  deriving DecidableEq, Repr

/-- The reals that round to a double, in units of a quarter of its last place, as numerators over a
common denominator; the ends belong to it iff the mantissa is even. -/
structure Interval where
  low : Nat
  value : Nat
  high : Nat
  den : Nat
  closed : Bool

/-- The interval of a double. Below a power of two the doubles lie twice as close. -/
def Interval.ofBinary (b : Binary) : Interval :=
  let narrow := b.mantissa = 0x10000000000000 ∧ b.exponent ≠ -1074
  let unit : Nat × Nat := (Binary.mk 1 (b.exponent - 2)).fraction
  { low := (4 * b.mantissa - (if narrow then 1 else 2)) * unit.1
    value := 4 * b.mantissa * unit.1
    high := (4 * b.mantissa + 2) * unit.1
    den := unit.2
    closed := b.mantissa % 2 == 0 }

/-- Measures the interval in multiples of `10 ^ exponent`. -/
def Interval.onGrid (i : Interval) (exponent : Int) : Interval :=
  match exponent with
  | .ofNat e => { i with den := i.den * Nat.pow 10 e }
  | .negSucc e =>
    let scale := Nat.pow 10 (e + 1)
    { i with low := i.low * scale, value := i.value * scale, high := i.high * scale }

def Interval.holds (i : Interval) (n : Nat) : Bool :=
  if i.closed then i.low ≤ n * i.den && n * i.den ≤ i.high
  else i.low < n * i.den && n * i.den < i.high

/-- The grid point in the interval that is nearest to the value, if there is one. -/
def Interval.nearest? (i : Interval) : Option Nat :=
  let below := i.value / i.den
  let above := below + 1
  let toBelow := i.value - below * i.den
  let toAbove := above * i.den - i.value
  match i.holds below, i.holds above with
  | true, true =>
    if toBelow < toAbove then some below
    else if toAbove < toBelow then some above
    else some (if below % 2 = 0 then below else above)
  | true, false => some below
  | false, true => some above
  | false, false => none

def digitCount (n : Nat) : Nat := (Nat.toDigits 10 n).length

def leadingExponent (num den : Nat) : Int :=
  if den ≤ num then (digitCount (num / den) : Int) - 1
  else
    let c := digitCount (den / num)
    if den ≤ num * Nat.pow 10 (c - 1) then -((c : Int) - 1) else -(c : Int)

/-- Tries grids of one, two, … digits; the last grid stands for the value when none is left. -/
def Interval.search (i : Interval) (leading : Int) : (more digits : Nat) → Scientific
  | 0, n =>
    let e := leading - (n : Int) + 1
    let g := i.onGrid e
    ⟨g.value / g.den, e⟩
  | more + 1, n =>
    let e := leading - (n : Int) + 1
    match (i.onGrid e).nearest? with
    | some d => ⟨d, e⟩
    | none => i.search leading more (n + 1)

/-- Moves trailing zeros of the digits into the exponent; `fuel` bounds their number. -/
def Scientific.trim (fuel : Nat) (s : Scientific) : Scientific :=
  match fuel with
  | 0 => s
  | fuel + 1 =>
    if s.digits ≠ 0 ∧ s.digits % 10 = 0 then Scientific.trim fuel ⟨s.digits / 10, s.exponent + 1⟩
    else s

/-- The shortest decimal that reads back as the given positive double. -/
def shortest (b : Binary) : Scientific :=
  let i := Interval.ofBinary b
  (i.search (leadingExponent i.value i.den) 17 1).trim 17

end SourceAtlas.Decimal
