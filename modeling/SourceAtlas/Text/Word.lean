import SourceAtlas.Text.Blank
import SourceAtlas.Text.WordTable

/-! Word characters and words. ASCII is decided without the table. -/

namespace SourceAtlas.Text

def isWord (c : Char) : Bool :=
  if c.toNat < 128 then c.isAlphanum || c == '_' else inRanges wordRanges c.toNat

/-- A decimal digit of any script. -/
def isDecimal (c : Char) : Bool :=
  if c.toNat < 128 then c.isDigit else inRanges decimalRanges c.toNat

/-- Lower case for the letters A to Z only. -/
def lowerAscii (s : String) : String := String.ofList (s.toList.map Char.toLower)

/-- The letter that two characters share when case is ignored, for comparison with names made of
ASCII letters: besides A to Z, the long s and the Kelvin sign are cases of such letters. -/
def foldCase (c : Char) : Char :=
  if c = 'ſ' then 's' else if c = '\u212a' then 'k' else c.toLower

end SourceAtlas.Text
