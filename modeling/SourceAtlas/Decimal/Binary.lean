/-! Doubles as exact numbers. A finite double is `±m · 2^q`; every decimal text in this library is
computed from that fraction in natural-number arithmetic, so no digit depends on rounding. -/

namespace SourceAtlas.Decimal

/-- The magnitude of a finite double, `mantissa * 2 ^ exponent`. -/
structure Binary where
  mantissa : Nat
  exponent : Int
  deriving DecidableEq, Repr

inductive Magnitude where
  | finite (value : Binary)
  | infinite
  | undefined
  deriving DecidableEq, Repr

def isNegative (bits : UInt64) : Bool := bits >>> 63 == 1

def biasedExponent (bits : UInt64) : Nat := ((bits >>> 52) &&& 0x7FF).toNat

def fractionBits (bits : UInt64) : Nat := (bits &&& 0xFFFFFFFFFFFFF).toNat

def magnitude (bits : UInt64) : Magnitude :=
  let e := biasedExponent bits
  let f := fractionBits bits
  if e = 0x7FF then (if f = 0 then .infinite else .undefined)
  else if e = 0 then .finite ⟨f, -1074⟩
  else .finite ⟨f + 0x10000000000000, (e : Int) - 1075⟩

/-- The value as a fraction of natural numbers; the denominator is a power of two. -/
def Binary.fraction (b : Binary) : Nat × Nat :=
  match b.exponent with
  | .ofNat e => (b.mantissa * Nat.pow 2 e, 1)
  | .negSucc e => (b.mantissa, Nat.pow 2 (e + 1))

/-- The quotient rounded to the nearest natural number, a half going to the even neighbour. -/
def roundDiv (num den : Nat) : Nat :=
  let q := num / den
  let r := num % den
  if 2 * r < den then q
  else if den < 2 * r then q + 1
  else if q % 2 = 0 then q else q + 1

end SourceAtlas.Decimal
