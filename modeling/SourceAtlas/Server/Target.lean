import SourceAtlas.Text.Percent

/-! The target of a request: a path and a query. A fragment is dropped. -/

namespace SourceAtlas.Server

structure Target where
  path : String
  query : String
  deriving DecidableEq, Repr

/-- A character that may stand in the path: no blanks, controls, angle brackets or grave accents. -/
def inPath (c : Char) : Bool :=
  0x21 ≤ c.toNat && c ≠ '<' && c ≠ '>' && c ≠ '\x60'

/-- A character that may stand in the query: no blanks, controls, angle brackets or double
quotes. -/
def inQuery (c : Char) : Bool :=
  0x21 ≤ c.toNat && c ≠ '<' && c ≠ '>' && c ≠ '"'

/-- The target that a text writes; it has to start with a slash. -/
def Target.parse? (text : String) : Option Target :=
  let cs := text.toList.takeWhile (· ≠ '#')
  let path := cs.takeWhile (· ≠ '?')
  let query := (cs.dropWhile (· ≠ '?')).drop 1
  if path.head? = some '/' ∧ path.all inPath ∧ query.all inQuery then
    some ⟨String.ofList path, String.ofList query⟩
  else none

/-- An unsigned integer of 64 bits in decimal digits, with a plus sign at most. -/
def unsigned? (s : String) : Option Nat :=
  let digits := match s.toList with
    | '+' :: ds => ds
    | ds => ds
  if digits.isEmpty || !digits.all Char.isDigit then none
  else
    let n := Json.ofDigits (digits.map fun c => c.toNat - '0'.toNat)
    if n < UInt64.size then some n else none

end SourceAtlas.Server
