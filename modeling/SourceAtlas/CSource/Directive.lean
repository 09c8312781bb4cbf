import SourceAtlas.CSource.Phrase

/-! Lines for the preprocessor: definitions of names, and included files. -/

namespace SourceAtlas.CSource

open Text

structure Define where
  name : String
  value : String
  line : Nat
  deriving DecidableEq, Repr

/-- The definition on a line. Some text has to follow the name and one blank, be it blank itself. -/
def define? (cs : List Char) (line : Nat) : Option Define := do
  let cs ← after? "#define" cs
  let gap := cs.takeWhile isBlank
  let cs := cs.dropWhile isBlank
  let name := cs.takeWhile isWord
  let rest := cs.dropWhile isWord
  let blanks := rest.takeWhile isBlank
  let value := rest.dropWhile isBlank
  if gap.isEmpty || name.isEmpty || blanks.isEmpty || (value.isEmpty && blanks.length < 2) then none
  else some ⟨String.ofList name, String.ofList (trim value), line⟩

def defines (text : List Char) : List Define :=
  ((lines text).zipIdx 1).filterMap fun (cs, line) => define? cs line

def isFileMark (c : Char) : Bool := c == '"' || c == '<' || c == '>'

/-- The file included at the front of a text: at least one character of the name's line, up to the
next closing mark. The length of the directive comes with it. -/
def includeAt? (cs : List Char) : Option (List Char × Nat) := do
  let rest ← after? "#include" cs
  let gap := rest.takeWhile isBlank
  if gap.isEmpty then none
  else match rest.dropWhile isBlank with
    | opening :: first :: rest =>
      let more := rest.takeWhile fun c => c ≠ '>' && c ≠ '"' && c ≠ '\n'
      match rest.dropWhile fun c => c ≠ '>' && c ≠ '"' && c ≠ '\n' with
      | closing :: _ =>
        if (opening = '<' || opening = '"') && first ≠ '\n' && closing ≠ '\n' then
          some (first :: more, "#include".length + gap.length + more.length + 3)
        else none
      | [] => none
    | _ => none

def stripMarks (cs : List Char) : List Char :=
  ((cs.dropWhile isFileMark).reverse.dropWhile isFileMark).reverse

/-- The distinct files that a text includes, in order. -/
def includes (text : List Char) : List String :=
  sortedSet ((allMatches includeAt? 0 0 text).map fun (_, name, _) =>
    String.ofList (stripMarks name))

end SourceAtlas.CSource
