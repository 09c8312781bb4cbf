import SourceAtlas.Toml.Scalar
import SourceAtlas.Toml.Table

/-! Reading TOML text. A document is a list of lines; a line sets a key or opens a table. Every
recursive call consumes fuel, and a text never needs more than twice its length. -/

namespace SourceAtlas.Toml

def skipGap (cs : List Char) : List Char := cs.dropWhile isGap

def inBareKey (c : Char) : Bool := c.isAlphanum || c == '_' || c == '-'

def readKeyStep (cs : List Char) : Option (String × List Char) :=
  match cs with
  | '"' :: _ | '\'' :: _ => readQuotedLine cs
  | cs =>
    let key := cs.takeWhile inBareKey
    if key.isEmpty then none else some (String.ofList key, cs.dropWhile inBareKey)

/-- A dotted key: the steps before the last one, and the last one. -/
def readKey : (fuel : Nat) → List Char → Option (List String × String × List Char)
  | 0, _ => none
  | fuel + 1, cs => do
    let (step, rest) ← readKeyStep cs
    match skipGap rest with
    | '.' :: more =>
      let (path, key, rest) ← readKey fuel (skipGap more)
      return (step :: path, key, rest)
    | _ => return ([], step, rest)

/-- What follows a comment, if one stands at the front; a comment may not hold controls. -/
def skipComment? (cs : List Char) : Option (List Char) :=
  match cs with
  | '#' :: cs =>
    let rest := cs.dropWhile isPlain
    if rest.isEmpty || (lineBreak? rest).isSome then some rest else none
  | cs => some cs

/-- Drops blanks, line breaks and comments between the items of an array. -/
def skipSpace : (fuel : Nat) → List Char → Option (List Char)
  | 0, _ => none
  | fuel + 1, cs => do
    let rest ← skipComment? (skipGap cs)
    match lineBreak? rest with
    | some rest => skipSpace fuel rest
    | none => return rest

mutual
def readValue : (fuel : Nat) → List Char → Option (Toml × List Char)
  | 0, _ => none
  | fuel + 1, cs =>
    match cs with
    | '"' :: _ | '\'' :: _ => (readQuoted cs).map fun (s, rest) => (.string s, rest)
    | '[' :: rest => (readItems fuel rest).map fun (vs, rest) => (.array vs, rest)
    | '\x7b' :: rest =>
      match skipGap rest with
      | '\x7d' :: rest => some (.table .inline [], rest)
      | rest => (readEntries fuel [] rest).map fun (es, rest) => (.table .inline es, rest)
    | cs => readWord cs

/-- The items of an array up to its closing bracket; a comma may stand behind the last one. -/
def readItems : (fuel : Nat) → List Char → Option (List Toml × List Char)
  | 0, _ => none
  | fuel + 1, cs => do
    match ← skipSpace (cs.length + 1) cs with
    | ']' :: rest => return ([], rest)
    | cs =>
      let (v, rest) ← readValue fuel cs
      match ← skipSpace (rest.length + 1) rest with
      | ']' :: rest => return ([v], rest)
      | ',' :: rest =>
        let (vs, rest) ← readItems fuel rest
        return (v :: vs, rest)
      | _ => none

/-- The entries of an inline table up to its closing brace, at least one. -/
def readEntries : (fuel : Nat) → Entries → List Char → Option (Entries × List Char)
  | 0, _, _ => none
  | fuel + 1, es, cs => do
    let cs := skipGap cs
    let (path, key, rest) ← readKey (cs.length + 1) cs
    match skipGap rest with
    | '=' :: rest =>
      let (v, rest) ← readValue fuel (skipGap rest)
      let es ← es.assign path key v .inline
      match skipGap rest with
      | '\x7d' :: rest => return (es, rest)
      | ',' :: rest => readEntries fuel es rest
      | _ => none
    | _ => none
end

/-- What follows the end of a line; blanks and a comment may stand before it. -/
def endLine? (cs : List Char) : Option (List Char) := do
  let rest ← skipComment? (skipGap cs)
  if rest.isEmpty then some [] else lineBreak? rest

def readAssign (cs : List Char) : Option (Statement × List Char) := do
  let (path, key, rest) ← readKey (cs.length + 1) cs
  match skipGap rest with
  | '=' :: rest =>
    let (v, rest) ← readValue (2 * rest.length + 2) (skipGap rest)
    return (.assign path key v, rest)
  | _ => none

/-- The statement that a line begins with. -/
def readStatement (cs : List Char) : Option (Statement × List Char) :=
  match cs with
  | '[' :: '[' :: rest => do
    let rest := skipGap rest
    let (path, key, rest) ← readKey (rest.length + 1) rest
    match skipGap rest with
    | ']' :: ']' :: rest => return (.item path key, rest)
    | _ => none
  | '[' :: rest => do
    let rest := skipGap rest
    let (path, key, rest) ← readKey (rest.length + 1) rest
    match skipGap rest with
    | ']' :: rest => return (.header path key, rest)
    | _ => none
  | cs => readAssign cs

def readStatements : (fuel : Nat) → List Char → Option (List Statement)
  | 0, _ => none
  | fuel + 1, cs =>
    if cs.isEmpty then some []
    else match endLine? cs with
      | some rest => readStatements fuel rest
      | none => do
        let (statement, rest) ← readStatement (skipGap cs)
        let rest ← endLine? rest
        let statements ← readStatements fuel rest
        return statement :: statements

/-- The entries of a TOML document; nothing when the text is not well formed. A byte order mark at
its front does not count. -/
def parse? (text : String) : Option Entries := do
  let cs := match text.toList with
    | '\ufeff' :: cs => cs
    | cs => cs
  build? (← readStatements (cs.length + 1) cs)

end SourceAtlas.Toml
