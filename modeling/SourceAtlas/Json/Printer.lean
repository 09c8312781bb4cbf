import SourceAtlas.Json.Basic
import SourceAtlas.Decimal.Shortest

/-! Writing JSON text, either compactly or with one item a line. Strings escape only what has to be
escaped; numbers that are no integers have the fewest digits that read back. -/

namespace SourceAtlas.Json

def hexChar (n : Nat) : Char :=
  if n < 10 then Char.ofNat ('0'.toNat + n) else Char.ofNat ('a'.toNat + (n - 10))

def escapeChar (c : Char) : List Char :=
  if c = '"' then ['\\', '"']
  else if c = '\\' then ['\\', '\\']
  else if c = '\x08' then ['\\', 'b']
  else if c = '\t' then ['\\', 't']
  else if c = '\n' then ['\\', 'n']
  else if c = '\x0c' then ['\\', 'f']
  else if c = '\r' then ['\\', 'r']
  else if c.toNat < 0x20 then
    ['\\', 'u', '0', '0', hexChar (c.toNat / 16), hexChar (c.toNat % 16)]
  else [c]

def quoted (s : String) : List Char :=
  '"' :: (s.toList.flatMap escapeChar ++ ['"'])

/-- Which exponents of the leading digit are written without an exponent. -/
def positional (leading : Int) : Bool := -5 ≤ leading && leading ≤ 15

/-- A positive decimal: positional with at least one place, or with a signed exponent. -/
def decimalText (s : Decimal.Scientific) : List Char :=
  let digits := Nat.toDigits 10 s.digits
  let leading : Int := s.exponent + (digits.length : Int) - 1
  if positional leading then
    if 0 ≤ s.exponent then digits ++ List.replicate s.exponent.toNat '0' ++ ['.', '0']
    else if 0 ≤ leading then
      let cut := leading.toNat + 1
      digits.take cut ++ '.' :: digits.drop cut
    else '0' :: '.' :: (List.replicate (-leading - 1).toNat '0' ++ digits)
  else
    let mantissa := match digits with
      | [] => []
      | [d] => [d]
      | d :: ds => d :: '.' :: ds
    let sign := if leading < 0 then '-' else '+'
    mantissa ++ 'e' :: sign :: Nat.toDigits 10 leading.natAbs

/-- A number: integers as they are, doubles with the fewest digits that read back. -/
def numberText : Number → List Char
  | .int i => (toString i).toList
  | .double bits =>
    let sign := if Decimal.isNegative bits then ['-'] else []
    match Decimal.magnitude bits with
    | .finite b =>
      sign ++ (if b.mantissa = 0 then ['0', '.', '0'] else decimalText (Decimal.shortest b))
    | _ => ['n', 'u', 'l', 'l']

mutual
def compactChars : Json → List Char
  | .null => ['n', 'u', 'l', 'l']
  | .bool true => ['t', 'r', 'u', 'e']
  | .bool false => ['f', 'a', 'l', 's', 'e']
  | .num n => numberText n
  | .str s => quoted s
  | .arr items => '[' :: (compactItems items ++ [']'])
  | .obj members => '\x7b' :: (compactMembers members ++ ['\x7d'])

def compactItems : List Json → List Char
  | [] => []
  | [v] => compactChars v
  | v :: vs => compactChars v ++ ',' :: compactItems vs

def compactMembers : List (String × Json) → List Char
  | [] => []
  | [(k, v)] => quoted k ++ ':' :: compactChars v
  | (k, v) :: ms => quoted k ++ ':' :: (compactChars v ++ ',' :: compactMembers ms)
end

/-- A line break and two spaces for each level. -/
def newline (level : Nat) : List Char := '\n' :: List.replicate (2 * level) ' '

mutual
/-- A value with one item a line, indented by two spaces for each level. -/
def prettyChars (level : Nat) : Json → List Char
  | .null => ['n', 'u', 'l', 'l']
  | .bool true => ['t', 'r', 'u', 'e']
  | .bool false => ['f', 'a', 'l', 's', 'e']
  | .num n => numberText n
  | .str s => quoted s
  | .arr [] => ['[', ']']
  | .arr (v :: vs) =>
    '[' :: (newline (level + 1) ++ prettyChars (level + 1) v ++ prettyItems (level + 1) vs
      ++ newline level ++ [']'])
  | .obj [] => ['\x7b', '\x7d']
  | .obj ((k, v) :: ms) =>
    '\x7b' :: (newline (level + 1) ++ quoted k ++ ':' :: ' ' :: prettyChars (level + 1) v
      ++ prettyMembers (level + 1) ms ++ newline level ++ ['\x7d'])

/-- The items after the first, each after a comma on a line of its own. -/
def prettyItems (level : Nat) : List Json → List Char
  | [] => []
  | v :: vs => ',' :: (newline level ++ prettyChars level v ++ prettyItems level vs)

/-- The members after the first, each after a comma on a line of its own. -/
def prettyMembers (level : Nat) : List (String × Json) → List Char
  | [] => []
  | (k, v) :: ms =>
    ',' :: (newline level ++ quoted k ++ ':' :: ' ' :: prettyChars level v
      ++ prettyMembers level ms)
end

def compact (v : Json) : String := String.ofList (compactChars v)

def pretty (v : Json) : String := String.ofList (prettyChars 0 v)

end SourceAtlas.Json
