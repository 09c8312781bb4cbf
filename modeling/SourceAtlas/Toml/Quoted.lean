import SourceAtlas.Json.Reader

/-! Quoted texts of TOML: basic ones with escapes and literal ones without, on one line or on
several. -/

namespace SourceAtlas.Toml

open Json (hexDigit?)

/-- A character that may stand in a quoted text or a comment as it is: no control but the tab. -/
def isPlain (c : Char) : Bool := c == '\t' || (0x20 ≤ c.toNat && c.toNat ≠ 0x7F)

def isGap (c : Char) : Bool := c == ' ' || c == '\t'

/-- The character with a code point written in hexadecimal digits, if it is one. -/
def scalar? (digits : List Char) : Option Char := do
  let ds ← digits.mapM hexDigit?
  let n := ds.foldl (fun n d => n * 16 + d) 0
  if n < 0xD800 ∨ (0xE000 ≤ n ∧ n < 0x110000) then some (Char.ofNat n) else none

def readScalar (count : Nat) (cs : List Char) : Option (Char × List Char) :=
  if cs.length < count then none
  else (scalar? (cs.take count)).map fun c => (c, cs.drop count)

/-- The character of an escape, the backslash being already read. -/
def readEscape : List Char → Option (Char × List Char)
  | 'b' :: cs => some ('\x08', cs)
  | 't' :: cs => some ('\t', cs)
  | 'n' :: cs => some ('\n', cs)
  | 'f' :: cs => some ('\x0c', cs)
  | 'r' :: cs => some ('\r', cs)
  | '"' :: cs => some ('"', cs)
  | '\\' :: cs => some ('\\', cs)
  | 'u' :: cs => readScalar 4 cs
  | 'U' :: cs => readScalar 8 cs
  | _ => none

def lineBreak? : List Char → Option (List Char)
  | '\n' :: cs => some cs
  | '\r' :: '\n' :: cs => some cs
  | _ => none

def readBasic : (fuel : Nat) → List Char → Option (List Char × List Char)
  | 0, _ => none
  | _ + 1, [] => none
  | fuel + 1, c :: cs =>
    if c = '"' then some ([], cs)
    else if c = '\\' then do
      let (d, cs) ← readEscape cs
      let (ds, rest) ← readBasic fuel cs
      return (d :: ds, rest)
    else if isPlain c then do
      let (ds, rest) ← readBasic fuel cs
      return (c :: ds, rest)
    else none

def readLiteral : List Char → Option (List Char × List Char)
  | [] => none
  | c :: cs =>
    if c = '\'' then some ([], cs)
    else if isPlain c then do
      let (ds, rest) ← readLiteral cs
      return (c :: ds, rest)
    else none

/-- How many of the quotes at the front belong to the text when three of them close it: up to two
may stand right before the closing ones. Nothing when fewer than three stand there. -/
def closing? (quote : Char) (cs : List Char) : Option Nat :=
  let run := (cs.takeWhile (· == quote)).length
  if run < 3 then none else some (min run 5 - 3)

/-- Drops blanks and line breaks at the front. -/
def skipLines (cs : List Char) : List Char :=
  cs.dropWhile fun c => isGap c || c == '\n' || c == '\r'

/-- A text on several lines up to its closing quotes; escapes count only in a basic one. -/
def readLines (quote : Char) (escapes : Bool) :
    (fuel : Nat) → List Char → Option (List Char × List Char)
  | 0, _ => none
  | _ + 1, [] => none
  | fuel + 1, c :: cs =>
    match closing? quote (c :: cs) with
    | some own => some (List.replicate own quote, (c :: cs).drop (own + 3))
    | none =>
      match lineBreak? (c :: cs) with
      | some rest => do
        let (ds, rest) ← readLines quote escapes fuel rest
        return ('\n' :: ds, rest)
      | none =>
        if c = '\\' && escapes then
          match lineBreak? (cs.dropWhile isGap) with
          | some rest => readLines quote escapes fuel (skipLines rest)
          | none => do
            let (d, cs) ← readEscape cs
            let (ds, rest) ← readLines quote escapes fuel cs
            return (d :: ds, rest)
        else if isPlain c then do
          let (ds, rest) ← readLines quote escapes fuel cs
          return (c :: ds, rest)
        else none

def readQuotedLine : List Char → Option (String × List Char)
  | '"' :: cs => do
    let (ds, rest) ← readBasic (cs.length + 1) cs
    return (String.ofList ds, rest)
  | '\'' :: cs => do
    let (ds, rest) ← readLiteral cs
    return (String.ofList ds, rest)
  | _ => none

/-- A quoted text; a line break right behind three opening quotes does not count. -/
def readQuoted (cs : List Char) : Option (String × List Char) :=
  let lines (quote : Char) (rest : List Char) : Option (String × List Char) := do
    let rest := (lineBreak? rest).getD rest
    let (ds, rest) ← readLines quote (quote == '"') (rest.length + 1) rest
    return (String.ofList ds, rest)
  match cs with
  | '"' :: '"' :: '"' :: rest => lines '"' rest
  | '\'' :: '\'' :: '\'' :: rest => lines '\'' rest
  | cs => readQuotedLine cs

end SourceAtlas.Toml
