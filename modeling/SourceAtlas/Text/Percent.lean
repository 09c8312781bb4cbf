import SourceAtlas.Text.Utf8
import SourceAtlas.Text.Pieces
import SourceAtlas.Json.Reader

/-! Percent-encoded text, as it stands in the address of a request. An escape that is not followed
by two hexadecimal digits stands for itself. -/

namespace SourceAtlas.Text.Percent

def decodeOctets : List UInt8 → List UInt8
  | [] => []
  | b :: rest =>
    if b = 0x25 then
      match rest with
      | h :: l :: after =>
        match Json.hexDigit? (Char.ofNat h.toNat), Json.hexDigit? (Char.ofNat l.toNat) with
        | some h, some l => UInt8.ofNat (h * 16 + l) :: decodeOctets after
        | _, _ => b :: decodeOctets (h :: l :: after)
      | rest => b :: decodeOctets rest
    else b :: decodeOctets rest

def decode? (s : String) : Option String := Utf8.decode? (decodeOctets (Utf8.encode s))

/-- A name or value of a form: a plus sign stands for a blank, and faulty octets are replaced. -/
def decodeForm (cs : List Char) : String :=
  let spaced := cs.map fun c => if c = '+' then ' ' else c
  Utf8.decodeLossy (decodeOctets (Utf8.encode (String.ofList spaced)))

/-- The names and values of a form, in order. Empty pieces do not count, and a piece without an
equals sign is a name with an empty value. -/
def formPairs (s : String) : List (String × String) :=
  (splitAt '&' s.toList).filterMap fun piece =>
    if piece.isEmpty then none
    else some (decodeForm (piece.takeWhile (· ≠ '=')),
      decodeForm ((piece.dropWhile (· ≠ '=')).drop 1))

end SourceAtlas.Text.Percent
