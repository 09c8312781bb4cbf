/-! Decoding UTF-8. The decoder takes octet by octet; where no character can be completed any more,
the octets read so far are one fault, and decoding goes on with the octet that did not fit. -/

namespace SourceAtlas.Text.Utf8

/-- A character that has begun: its bits so far, how many octets are still to come, and the bounds
of the next one. -/
structure Pending where
  bits : Nat
  owed : Nat
  low : Nat
  high : Nat

/-- What the first octet of a character tells. -/
inductive Lead where
  | whole (c : Char)
  | begun (p : Pending)
  | fault

/-- Reads the first octet of a character. Overlong forms, surrogates and values beyond the last code
point are shut out by the bounds of the second octet. -/
def lead (b : Nat) : Lead :=
  if b < 0x80 then .whole (Char.ofNat b)
  else if 0xC2 ≤ b ∧ b ≤ 0xDF then .begun ⟨b - 0xC0, 1, 0x80, 0xBF⟩
  else if b = 0xE0 then .begun ⟨0, 2, 0xA0, 0xBF⟩
  else if b = 0xED then .begun ⟨0xD, 2, 0x80, 0x9F⟩
  else if 0xE1 ≤ b ∧ b ≤ 0xEF then .begun ⟨b - 0xE0, 2, 0x80, 0xBF⟩
  else if b = 0xF0 then .begun ⟨0, 3, 0x90, 0xBF⟩
  else if 0xF1 ≤ b ∧ b ≤ 0xF3 then .begun ⟨b - 0xF0, 3, 0x80, 0xBF⟩
  else if b = 0xF4 then .begun ⟨4, 3, 0x80, 0x8F⟩
  else .fault

/-- Adds an octet to a character that has begun; nothing when it does not fit. -/
def Pending.add (p : Pending) (b : Nat) : Option Lead :=
  if p.low ≤ b ∧ b ≤ p.high then
    let bits := p.bits * 64 + (b - 0x80)
    if p.owed ≤ 1 then some (.whole (Char.ofNat bits))
    else some (.begun ⟨bits, p.owed - 1, 0x80, 0xBF⟩)
  else none

/-- The characters of an octet sequence, `none` standing for a fault. -/
def scan (pending : Option Pending) : List UInt8 → List (Option Char)
  | [] => if pending.isSome then [none] else []
  | b :: rest =>
    let next (l : Lead) : List (Option Char) := match l with
      | .whole c => some c :: scan none rest
      | .begun p => scan (some p) rest
      | .fault => none :: scan none rest
    match pending with
    | none => next (lead b.toNat)
    | some p =>
      match p.add b.toNat with
      | some l => next l
      | none => none :: next (lead b.toNat)

/-- The text of an octet sequence, a replacement character standing for each fault. -/
def decodeLossy (bytes : List UInt8) : String :=
  String.ofList ((scan none bytes).map (·.getD '\ufffd'))

def decode? (bytes : List UInt8) : Option String :=
  ((scan none bytes).mapM id).map String.ofList

def encode (s : String) : List UInt8 := s.toUTF8.toList

end SourceAtlas.Text.Utf8
