import SourceAtlas.Toml.Basic
import SourceAtlas.Toml.Quoted
import SourceAtlas.Text.Pieces

/-! Numbers, truth values, dates and times of TOML. Each is a word without blanks, apart from the
one blank that may part a date from a time. -/

namespace SourceAtlas.Toml

def inScalar (c : Char) : Bool := c.isAlphanum || "+-_.:".toList.contains c

/-- Digits with single underscores between them; the digits alone are the result. -/
def digits? (isDigit : Char → Bool) (cs : List Char) : Option (List Char) :=
  let groups := Text.splitAt '_' cs
  if groups.all fun g => !g.isEmpty && g.all isDigit then some groups.flatten else none

/-- The number of digits in a base. -/
def valueIn (base : Nat) (ds : List Char) : Nat :=
  ds.foldl (fun n c => n * base + (Json.hexDigit? c).getD 0) 0

/-- A sign at the front: whether it is a minus, and what follows. -/
def sign : List Char → Bool × List Char
  | '-' :: cs => (true, cs)
  | '+' :: cs => (false, cs)
  | cs => (false, cs)

/-- Decimal digits of a whole number: no zero at the front of a longer one. -/
def whole? (cs : List Char) : Option (List Char) :=
  match digits? Char.isDigit cs with
  | some ('0' :: _ :: _) => none
  | ds => ds

/-- An integer in decimal with a sign, or in another base without. It may not be larger than 128
bits can hold. -/
def integer? (cs : List Char) : Option Int :=
  let based (base : Nat) (isDigit : Char → Bool) (cs : List Char) : Option Int :=
    (digits? isDigit cs).map fun ds => (valueIn base ds : Int)
  let value := match cs with
    | '0' :: 'x' :: cs => based 16 (fun c => (Json.hexDigit? c).isSome) cs
    | '0' :: 'o' :: cs => based 8 (fun c => '0' ≤ c && c ≤ '7') cs
    | '0' :: 'b' :: cs => based 2 (fun c => c == '0' || c == '1') cs
    | cs =>
      let (negative, cs) := sign cs
      (whole? cs).map fun ds =>
        let n : Int := valueIn 10 ds
        if negative then -n else n
  value.filter fun n => -(1 <<< 127 : Nat) ≤ n && n < (1 <<< 128 : Nat)

/-- The double nearest to `digits * 10 ^ exponent`; nothing when it is too large. -/
def double? (digits : Nat) (exponent : Int) : Option Float :=
  let leading := (Nat.toDigits 10 digits).length + exponent
  if digits = 0 ∨ leading < -400 then some 0.0
  else if 400 < leading then none
  else
    let f := Float.ofScientific digits (exponent < 0) exponent.natAbs
    if f.isInf then none else some f

/-- The exponent of a float, with its sign. -/
def exponent? (cs : List Char) : Option Int :=
  let (negative, cs) := sign cs
  (digits? Char.isDigit cs).map fun ds =>
    let n : Int := valueIn 10 ds
    if negative then -n else n

/-- A float: a whole number with a fraction or an exponent or both, or one of the special values. -/
def float? (cs : List Char) : Option Float := do
  let (negative, cs) := sign cs
  let magnitude ← match String.ofList cs with
    | "inf" => some (1.0 / 0.0)
    | "nan" => some (0.0 / 0.0)
    | _ =>
      let isMark (c : Char) : Bool := c == 'e' || c == 'E'
      let mantissa := cs.takeWhile fun c => !isMark c
      let power := cs.dropWhile fun c => !isMark c
      let whole ← whole? (mantissa.takeWhile (· ≠ '.'))
      let fraction ← match mantissa.dropWhile (· ≠ '.') with
        | [] => if power.isEmpty then none else some []
        | _ :: ds => digits? Char.isDigit ds
      let exponent ← match power with
        | [] => some 0
        | _ :: ds => exponent? ds
      double? (valueIn 10 (whole ++ fraction)) (exponent - fraction.length)
  return if negative then -magnitude else magnitude

def fixedDigits? (count : Nat) (cs : List Char) : Option Nat :=
  if cs.length = count ∧ cs.all Char.isDigit then some (valueIn 10 cs) else none

def daysIn (year month : Nat) : Nat :=
  if month = 2 then
    if year % 4 = 0 ∧ (year % 100 ≠ 0 ∨ year % 400 = 0) then 29 else 28
  else if [4, 6, 9, 11].contains month then 30 else 31

def isDate (cs : List Char) : Bool :=
  match Text.splitAt '-' cs with
  | [y, m, d] =>
    match fixedDigits? 4 y, fixedDigits? 2 m, fixedDigits? 2 d with
    | some y, some m, some d => 1 ≤ m && m ≤ 12 && 1 ≤ d && d ≤ daysIn y m
    | _, _, _ => false
  | _ => false

/-- Whether a word is the time of a day, with a fraction of the second at most. -/
def isTime (cs : List Char) : Bool :=
  match Text.splitAt ':' cs with
  | [h, m, s] =>
    let second := s.takeWhile (· ≠ '.')
    let fraction := match s.dropWhile (· ≠ '.') with
      | [] => true
      | _ :: ds => !ds.isEmpty && ds.all Char.isDigit
    match fixedDigits? 2 h, fixedDigits? 2 m, fixedDigits? 2 second with
    | some h, some m, some s => h ≤ 23 && m ≤ 59 && s ≤ 60 && fraction
    | _, _, _ => false
  | _ => false

def isOffset (cs : List Char) : Bool :=
  match cs with
  | ['Z'] | ['z'] => true
  | mark :: cs =>
    match Text.splitAt ':' cs with
    | [h, m] =>
      match fixedDigits? 2 h, fixedDigits? 2 m with
      | some h, some m => (mark == '+' || mark == '-') && h ≤ 23 && m ≤ 59
      | _, _ => false
    | _ => false
  | [] => false

def isOffsetTime (cs : List Char) : Bool :=
  let time := cs.takeWhile fun c => c.isDigit || c == ':' || c == '.'
  isTime time && (time.length == cs.length || isOffset (cs.drop time.length))

def isDateTime (cs : List Char) : Bool :=
  isDate (cs.take 10) && ((cs.drop 10).head?.any fun c => c == 'T' || c == 't' || c == ' ')
    && isOffsetTime (cs.drop 11)

def wordValue? (cs : List Char) : Option Toml :=
  match String.ofList cs with
  | "true" => some (.boolean true)
  | "false" => some (.boolean false)
  | _ =>
    ((integer? cs).map Toml.integer)
      <|> ((float? cs).map fun f => Toml.float f.toBits)
      <|> (if isDate cs || isTime cs || isDateTime cs then some .moment else none)

def readWord (cs : List Char) : Option (Toml × List Char) :=
  let word := cs.takeWhile inScalar
  let rest := cs.dropWhile inScalar
  match rest with
  | ' ' :: more =>
    let time := more.takeWhile inScalar
    if isDate word && more.head?.any Char.isDigit then
      if isDateTime (word ++ ' ' :: time) then some (.moment, more.dropWhile inScalar) else none
    else (wordValue? word).map fun v => (v, rest)
  | _ => (wordValue? word).map fun v => (v, rest)

end SourceAtlas.Toml
