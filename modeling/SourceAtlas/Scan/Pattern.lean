import SourceAtlas.Text.Pieces

/-! Patterns that name files to be left out. A pattern is matched against a path step by step: a
step of the pattern matches one name, and two stars alone match any number of steps. -/

namespace SourceAtlas.Scan

inductive Glyph where
  /-- The character itself. -/
  | literal (c : Char)
  /-- Any character. -/
  | any
  /-- Any text. -/
  | star
  /-- A character in one of the ranges, or in none of them. -/
  | oneOf (negated : Bool) (ranges : List (Char × Char))
  deriving DecidableEq, Repr

inductive Step where
  /-- One name. -/
  | name (glyphs : List Glyph)
  /-- Any number of names. -/
  | deep
  deriving DecidableEq, Repr

/-- A pattern: it leaves out what it matches or, with `keeps`, takes it back in. -/
structure Pattern where
  steps : List Step
  keeps : Bool := false
  directoriesOnly : Bool := false
  deriving DecidableEq, Repr

def suffixes {α : Type} : List α → List (List α)
  | [] => [[]]
  | a :: rest => (a :: rest) :: suffixes rest

def inOneOf (c : Char) (ranges : List (Char × Char)) : Bool :=
  ranges.any fun (low, high) => low ≤ c && c ≤ high

def matchesText : List Glyph → List Char → Bool
  | [], cs => cs.isEmpty
  | .star :: gs, cs => (suffixes cs).any (matchesText gs)
  | _ :: _, [] => false
  | .literal x :: gs, c :: cs => x == c && matchesText gs cs
  | .any :: gs, _ :: cs => matchesText gs cs
  | .oneOf negated ranges :: gs, c :: cs => (inOneOf c ranges != negated) && matchesText gs cs

def matchesPath : List Step → List String → Bool
  | [], path => path.isEmpty
  | .deep :: steps, path => (suffixes path).any (matchesPath steps)
  | .name _ :: _, [] => false
  | .name gs :: steps, name :: path => matchesText gs name.toList && matchesPath steps path

/-- Whether a pattern speaks of a path; some speak of directories only. -/
def Pattern.covers (p : Pattern) (path : List String) (isDirectory : Bool) : Bool :=
  matchesPath p.steps path && (isDirectory || !p.directoriesOnly)

inductive Reading where
  | outside
  /-- After a backslash. -/
  | escaped
  /-- After an opening bracket. -/
  | opened
  /-- Between brackets; `ranges` is in reverse, and `first` says that nothing has been read yet. -/
  | inside (negated first between : Bool) (ranges : List (Char × Char))

/-- What follows once a character between brackets has been read; nothing for a range that runs
backwards. -/
def Reading.extend (negated first between : Bool) (ranges : List (Char × Char)) (c : Char) :
    Option Reading :=
  if c = '-' && !first && !between then some (.inside negated false true ranges)
  else match between, ranges with
    | true, (low, _) :: rest =>
      if low ≤ c then some (.inside negated false false ((low, c) :: rest)) else none
    | _, _ => some (.inside negated false false ((c, c) :: ranges))

/-- Reads the pattern for a name; nothing when a bracket stays open or a backslash stands last. -/
def readGlyphs (reading : Reading) : List Char → Option (List Glyph)
  | [] => match reading with
    | .outside => some []
    | _ => none
  | c :: cs =>
    match reading with
    | .escaped => (readGlyphs .outside cs).map (.literal c :: ·)
    | .outside =>
      if c = '\\' then readGlyphs .escaped cs
      else if c = '[' then readGlyphs .opened cs
      else (readGlyphs .outside cs).map fun gs =>
        (if c = '*' then Glyph.star else if c = '?' then .any else .literal c) :: gs
    | .opened =>
      if c = '!' || c = '^' then readGlyphs (.inside true true false []) cs
      else (Reading.extend false true false [] c).bind fun r => readGlyphs r cs
    | .inside negated first between ranges =>
      if c = ']' && !first then
        let ranges := if between then ('-', '-') :: ranges else ranges
        (readGlyphs .outside cs).map (.oneOf negated ranges.reverse :: ·)
      else (Reading.extend negated first between ranges c).bind fun r => readGlyphs r cs

def readStep (cs : List Char) : Option Step :=
  if cs = ['*', '*'] then some .deep else (readGlyphs .outside cs).map .name

/-- A line without the white space at its end, unless that is escaped. -/
def withoutTail (line : List Char) : List Char :=
  if [' ', '\\'].isPrefixOf line.reverse then line
  else (line.reverse.dropWhile Text.isBlank).reverse

/-- Reads a line of a list of patterns. Empty lines and remarks are no patterns. A pattern with a
slash starts at the directory of the list, one without applies at any depth; two stars at the end
stand for what is inside a directory, not for the directory. -/
def Pattern.parse? (line : List Char) : Option Pattern :=
  if line.head? = some '#' then none
  else
    let line := withoutTail line
    if line.isEmpty then none
    else
      let escaped := ['\\', '!'].isPrefixOf line || ['\\', '#'].isPrefixOf line
      let keeps := !escaped && line.head? == some '!'
      let line := if escaped || keeps then line.drop 1 else line
      let anchored := line.head? == some '/'
      let line := if anchored && !escaped then line.drop 1 else line
      let directoriesOnly := line.getLast? == some '/'
      let line := if directoriesOnly then line.dropLast else line
      let line := if directoriesOnly && line.getLast? == some '\\' then line.dropLast else line
      match (Text.splitAt '/' line).mapM readStep with
      | none => none
      | some steps =>
        let steps := if anchored || line.contains '/' || steps == [.deep]
          then steps else .deep :: steps
        let steps := if 1 < steps.length && steps.getLast? == some .deep
          then steps ++ [.name [.star]] else steps
        some { steps, keeps, directoriesOnly }

end SourceAtlas.Scan
