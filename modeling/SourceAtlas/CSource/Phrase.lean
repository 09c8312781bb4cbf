import SourceAtlas.Text.Pieces
import SourceAtlas.Text.Word

/-! Words and phrases of C text. A phrase is a run of words and white space that starts with a word;
whatever follows a phrase is neither, so a phrase can be cut off a text in one way only. The shapes
`type name` of declarations and function headers are phrases of at least two words, of which the
last is the name. -/

namespace SourceAtlas.CSource

open Text

def inPhrase (c : Char) : Bool := isWord c || isBlank c

/-- What a phrase of two or more words declares: the last word is the name, and all before it, as
written, is the type. -/
structure Typed where
  type : List Char
  name : List Char
  deriving DecidableEq

def trimEnd (cs : List Char) : List Char := (cs.reverse.dropWhile isBlank).reverse

/-- Reads a phrase that ends with a word as a type and a name. -/
def typed? (phrase : List Char) : Option Typed :=
  let back := phrase.reverse
  let name := (back.takeWhile isWord).reverse
  let type := ((back.dropWhile isWord).dropWhile isBlank).reverse
  if name.isEmpty || type.isEmpty then none else some ⟨type, name⟩

/-- The maximal words of a text, each with the text that follows it. `inside` tells that the text
goes on with a word that has begun before. -/
def wordsFrom (inside : Bool) : List Char → List (List Char × List Char)
  | [] => []
  | c :: cs =>
    if isWord c then
      if inside then wordsFrom true cs
      else ((c :: cs).takeWhile isWord, (c :: cs).dropWhile isWord) :: wordsFrom true cs
    else wordsFrom false cs

def words (cs : List Char) : List (List Char × List Char) := wordsFrom false cs

/-- The text behind a given beginning. -/
def after? (start : String) (cs : List Char) : Option (List Char) :=
  if start.toList.isPrefixOf cs then some (cs.drop start.length) else none

/-- Finds matches from left to right, each behind the one before. `at?` gives the match at the front
of a text and its length; `skip` characters at the front belong to an earlier match. The results
come with their positions, the first character having position `pos`. -/
def allMatches {α : Type} (at? : List Char → Option (α × Nat)) :
    (skip pos : Nat) → List Char → List (Nat × α × Nat)
  | _, _, [] => []
  | skip + 1, pos, _ :: cs => allMatches at? skip (pos + 1) cs
  | 0, pos, c :: cs =>
    match at? (c :: cs) with
    | some (found, length) => (pos, found, length) :: allMatches at? (length - 1) (pos + 1) cs
    | none => allMatches at? 0 (pos + 1) cs

end SourceAtlas.CSource
