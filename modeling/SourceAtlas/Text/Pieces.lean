import SourceAtlas.Text.Blank

/-! Cutting a text into pieces and joining pieces again. Joining is the left inverse of cutting at a
separator, so a cut loses nothing. -/

namespace SourceAtlas.Text

/-- The pieces of a text between characters of a kind; a single piece when there is none. -/
def cut (isCut : Char → Bool) : List Char → List (List Char)
  | [] => [[]]
  | c :: cs =>
    if isCut c then [] :: cut isCut cs
    else match cut isCut cs with
      | [] => [[c]]
      | piece :: pieces => (c :: piece) :: pieces

def splitAt (sep : Char) (cs : List Char) : List (List Char) := cut (· == sep) cs

/-- The lines of a text; a line break at the end opens one more, empty, line. -/
def lines (cs : List Char) : List (List Char) := splitAt '\n' cs

def fields (cs : List Char) : List (List Char) := (cut isBlank cs).filter fun f => !f.isEmpty

def joinWith (sep : List Char) : List (List Char) → List Char
  | [] => []
  | [piece] => piece
  | piece :: pieces => piece ++ sep ++ joinWith sep pieces

theorem cut_ne_nil (isCut : Char → Bool) (cs : List Char) : cut isCut cs ≠ [] := by
  cases cs with
  | nil => simp [cut]
  | cons c cs =>
    rw [cut]
    split
    · simp
    · split <;> simp

/-- Splitting loses nothing: joining the pieces with the separator gives the text back. -/
theorem joinWith_splitAt (sep : Char) (cs : List Char) :
    joinWith [sep] (splitAt sep cs) = cs := by
  unfold splitAt
  induction cs with
  | nil => rfl
  | cons c cs ih =>
    rw [cut]
    cases hs : cut (· == sep) cs with
    | nil => exact absurd hs (cut_ne_nil _ cs)
    | cons p ps =>
      rw [hs] at ih
      split
      · next h =>
        have h : c = sep := by simpa using h
        simp [joinWith, ih, h]
      · cases ps <;> simpa [joinWith] using ih

def insertSorted (s : String) : List String → List String
  | [] => [s]
  | t :: rest =>
    if s < t then s :: t :: rest
    else if s = t then t :: rest
    else t :: insertSorted s rest

def sortedSet (xs : List String) : List String := xs.foldl (fun acc s => insertSorted s acc) []

end SourceAtlas.Text
