import SourceAtlas.Json.Basic

/-! Numerals of JSON text. A numeral is first read by the grammar, then valued. An integer that fits
64 bits is kept exactly; anything else becomes a double, computed from the leading digits that fit
64 bits and one power of ten, with one rounding for each step. -/

namespace SourceAtlas.Json

/-- The parts of a numeral as they stand in the text, digits as numbers. -/
structure Numeral where
  negative : Bool
  whole : List Nat
  fraction : Option (List Nat)
  exponent : Option (Bool × List Nat)

def digit? (c : Char) : Option Nat :=
  if '0' ≤ c ∧ c ≤ '9' then some (c.toNat - '0'.toNat) else none

def readDigits : List Char → List Nat × List Char
  | [] => ([], [])
  | c :: cs =>
    match digit? c with
    | some d => let (ds, rest) := readDigits cs; (d :: ds, rest)
    | none => ([], c :: cs)

def readFraction : List Char → Option (Option (List Nat) × List Char)
  | '.' :: cs =>
    match readDigits cs with
    | ([], _) => none
    | (ds, rest) => some (some ds, rest)
  | cs => some (none, cs)

/-- The exponent after `e` or `E`, its flag telling that it is negative. -/
def readExponent : List Char → Option (Option (Bool × List Nat) × List Char)
  | c :: cs =>
    if c = 'e' ∨ c = 'E' then
      let (negative, cs) : Bool × List Char := match cs with
        | '+' :: cs => (false, cs)
        | '-' :: cs => (true, cs)
        | cs => (false, cs)
      match readDigits cs with
      | ([], _) => none
      | (ds, rest) => some (some (negative, ds), rest)
    else some (none, c :: cs)
  | [] => some (none, [])

/-- The digits before the point: one digit, or more of which the first is not zero. -/
def readWhole (cs : List Char) : Option (List Nat × List Char) :=
  match readDigits cs with
  | ([], _) => none
  | (0 :: _ :: _, _) => none
  | (ds, rest) => some (ds, rest)

/-- Whether a minus sign stands at the front of a text, and what follows it. -/
def readSign : List Char → Bool × List Char
  | '-' :: cs => (true, cs)
  | cs => (false, cs)

def readNumeral (cs : List Char) : Option (Numeral × List Char) := do
  let (negative, cs) := readSign cs
  let (whole, cs) ← readWhole cs
  let (fraction, cs) ← readFraction cs
  let (exponent, cs) ← readExponent cs
  return (⟨negative, whole, fraction, exponent⟩, cs)

def ofDigits (ds : List Nat) : Nat := ds.foldl (fun n d => n * 10 + d) 0

def maxWord : Nat := UInt64.size - 1

/-- Appends digits to a significand as long as it fits 64 bits; the count of those taken comes
with it. -/
def absorb (significand : Nat) : List Nat → Nat × Nat
  | [] => (significand, 0)
  | d :: ds =>
    if maxWord < significand * 10 + d then (significand, 0)
    else let (s, n) := absorb (significand * 10 + d) ds; (s, n + 1)

/-- A power of ten as a double, for exponents up to 308. -/
def powerOfTen (e : Nat) : Float := Float.ofScientific 1 false e

def scaleDown (f : Float) (e : Nat) : Float :=
  if e ≤ 308 then f / powerOfTen e
  else if f == 0 then f
  else scaleDown (f / powerOfTen 308) (e - 308)
termination_by e

/-- The double nearest to `significand * 10 ^ exponent` by those steps; nothing when it is too
large. -/
def scaled? (significand : Nat) (exponent : Int) : Option Float :=
  let f := significand.toUInt64.toFloat
  match exponent with
  | .ofNat e =>
    if e ≤ 308 then
      let g := f * powerOfTen e
      if g.isInf then none else some g
    else if f == 0 then some f else none
  | .negSucc e => some (scaleDown f (e + 1))

def Numeral.double? (n : Numeral) : Option Float := do
  let (s, taken) := absorb 0 n.whole
  let (s, places) := absorb s (n.fraction.getD [])
  let written : Int := match n.exponent with
    | some (true, ds) => -(ofDigits ds : Int)
    | some (false, ds) => ofDigits ds
    | none => 0
  let f ← scaled? s ((n.whole.length : Int) - taken - places + written)
  return if n.negative then -f else f

/-- The number that a numeral stands for; nothing when it is too large for a double. -/
def Numeral.number? (n : Numeral) : Option Number :=
  let w := ofDigits n.whole
  let exact := n.fraction.isNone && n.exponent.isNone
  if exact && !n.negative && w ≤ maxWord then some (.int w)
  else if exact && n.negative && 0 < w && w ≤ 0x8000000000000000 then some (.int (-(w : Int)))
  else n.double?.map fun f => .double f.toBits

end SourceAtlas.Json
