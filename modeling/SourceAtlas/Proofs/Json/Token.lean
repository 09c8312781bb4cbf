import Mathlib.Data.List.Basic
import SourceAtlas.Json.Reader
import SourceAtlas.Json.Printer

/-! # Written strings and integers read back

A written string ends at its own closing quote whatever follows it. An integer has no end mark: what
follows must not extend it, which is what `Ends` says. -/

namespace SourceAtlas.Json

/-! ## Strings -/

theorem hexDigit?_hexChar : ∀ n, n < 16 → hexDigit? (hexChar n) = some n := by decide

theorem readHex4_escaped {n : Nat} (h : n < 0x20) (rest : List Char) :
    readHex4 ('0' :: '0' :: hexChar (n / 16) :: hexChar (n % 16) :: rest) = some (n, rest) := by
  have hz : hexDigit? '0' = some 0 := by decide
  have hhi := hexDigit?_hexChar (n / 16) (by omega)
  have hlo := hexDigit?_hexChar (n % 16) (by omega)
  have hn : ((0 * 16 + 0) * 16 + n / 16) * 16 + n % 16 = n := by omega
  simp only [readHex4, hz, hhi, hlo, Option.bind_eq_bind, Option.bind_some, hn]
  rfl

theorem readUnicode_escaped {c : Char} (h : c.toNat < 0x20) (rest : List Char) :
    readUnicode ('0' :: '0' :: hexChar (c.toNat / 16) :: hexChar (c.toNat % 16) :: rest) =
      some (c, rest) := by
  have hlow : ¬(0xDC00 ≤ c.toNat ∧ c.toNat ≤ 0xDFFF) := by omega
  have hhigh : ¬(0xD800 ≤ c.toNat ∧ c.toNat ≤ 0xDBFF) := by omega
  simp only [readUnicode, readHex4_escaped h, Option.bind_eq_bind, Option.bind_some,
    if_neg hlow, if_neg hhigh, Char.ofNat_toNat]
  rfl

/-- A written character is read as itself, and the reader goes on after it. -/
theorem readChars_escapeChar (fuel : Nat) (c : Char) (cs : List Char) :
    readChars (fuel + 1) (escapeChar c ++ cs) =
      (readChars fuel cs).bind fun p => some (c :: p.1, p.2) := by
  have short (x d : Char) (he : readEscape (x :: cs) = some (d, cs)) :
      readChars (fuel + 1) ('\\' :: x :: cs) =
        (readChars fuel cs).bind fun p => some (d :: p.1, p.2) := by
    rw [readChars, if_neg (by decide), if_pos rfl, he]
    rfl
  unfold escapeChar
  split
  · next h => subst h; exact short _ _ rfl
  split
  · next h => subst h; exact short _ _ rfl
  split
  · next h => subst h; exact short _ _ rfl
  split
  · next h => subst h; exact short _ _ rfl
  split
  · next h => subst h; exact short _ _ rfl
  split
  · next h => subst h; exact short _ _ rfl
  split
  · next h => subst h; exact short _ _ rfl
  split
  · next h =>
    simp only [List.cons_append, List.nil_append]
    rw [readChars, if_neg (by decide), if_pos rfl, readEscape, readUnicode_escaped h]
    rfl
  · next hquote hslash _ _ _ _ _ hlow =>
    rw [List.singleton_append, readChars, if_neg hquote, if_neg hslash, if_neg hlow]
    rfl

theorem escapeChar_length_pos (c : Char) : 0 < (escapeChar c).length := by
  unfold escapeChar
  repeat' split
  all_goals simp

theorem readChars_written (ds : List Char) : ∀ {fuel : Nat} (rest : List Char),
    (ds.flatMap escapeChar).length < fuel →
      readChars fuel (ds.flatMap escapeChar ++ '"' :: rest) = some (ds, rest) := by
  induction ds with
  | nil =>
    intro fuel rest h
    cases fuel with
    | zero => simp at h
    | succ fuel => simp [readChars]
  | cons d ds ih =>
    intro fuel rest h
    cases fuel with
    | zero => simp at h
    | succ fuel =>
      have hd := escapeChar_length_pos d
      rw [List.flatMap_cons, List.length_append] at h
      rw [List.flatMap_cons, List.append_assoc, readChars_escapeChar, ih rest (by omega)]
      rfl

theorem readString_written (s : String) (rest : List Char) :
    readString (s.toList.flatMap escapeChar ++ '"' :: rest) = some (s, rest) := by
  have hlen : (s.toList.flatMap escapeChar).length <
      (s.toList.flatMap escapeChar ++ '"' :: rest).length + 1 := by
    rw [List.length_append]
    omega
  rw [readString, readChars_written s.toList rest hlen]
  simp

/-! ## Integers -/

/-- What may follow a number without becoming a part of it. -/
def Ends (rest : List Char) : Prop :=
  ∀ c cs, rest = c :: cs → digit? c = none ∧ c ≠ '.' ∧ c ≠ 'e' ∧ c ≠ 'E'

theorem ends_nil : Ends [] := by
  intro c cs h
  cases h

theorem digit?_digitChar : ∀ d, d < 10 → digit? (Nat.digitChar d) = some d := by decide

theorem readDigits_written {ds : List Nat} {rest : List Char} (hd : ∀ d ∈ ds, d < 10)
    (hr : Ends rest) : readDigits (ds.map Nat.digitChar ++ rest) = (ds, rest) := by
  induction ds with
  | nil =>
    cases rest with
    | nil => rfl
    | cons c cs => simp [readDigits, (hr c cs rfl).1]
  | cons d ds ih =>
    have h := digit?_digitChar d (hd d (by simp))
    simp [readDigits, h, ih fun x hx => hd x (by simp [hx])]

theorem ofDigits_concat (ds : List Nat) (d : Nat) :
    ofDigits (ds ++ [d]) = ofDigits ds * 10 + d := by
  simp [ofDigits]

/-- The digits of a number: none of them leads with a zero that could be left out. -/
theorem toDigits_spec (n : Nat) : ∃ ds : List Nat, Nat.toDigits 10 n = ds.map Nat.digitChar ∧
    (∀ d ∈ ds, d < 10) ∧ ofDigits ds = n ∧ ds ≠ [] ∧ (0 < n → ds.head? ≠ some 0) ∧
    (n = 0 → ds = [0]) := by
  induction n using Nat.strongRecOn with
  | _ n ih =>
    by_cases hn : n < 10
    · refine ⟨[n], by simp [Nat.toDigits_of_lt_base hn], by simpa using hn, by simp [ofDigits],
        by simp, ?_, by simp⟩
      intro hpos
      simp
      omega
    · obtain ⟨ds, he, hd, hv, hne, hlead, _⟩ := ih (n / 10) (by omega)
      refine ⟨ds ++ [n % 10], ?_, ?_, ?_, by simp, ?_, by omega⟩
      · rw [Nat.toDigits_of_base_le (by decide) (by omega), he]
        simp
      · intro d h
        rcases List.mem_append.mp h with h | h
        · exact hd d h
        · rw [List.mem_singleton.mp h]
          omega
      · rw [ofDigits_concat, hv]
        omega
      · intro _
        rw [List.head?_append_of_ne_nil _ hne]
        exact hlead (by omega)

/-- A numeral made of digits alone is read up to its end. -/
theorem readWhole_written (n : Nat) {rest : List Char} (hr : Ends rest) :
    ∃ ds, readWhole (Nat.toDigits 10 n ++ rest) = some (ds, rest) ∧ ofDigits ds = n := by
  obtain ⟨ds, he, hd, hv, hne, hlead, hzero⟩ := toDigits_spec n
  refine ⟨ds, ?_, hv⟩
  rw [readWhole, he, readDigits_written hd hr]
  match ds with
  | [] => exact absurd rfl hne
  | 0 :: [] => rfl
  | (d + 1) :: ds => rfl
  | 0 :: d :: ds =>
    by_cases hn : n = 0
    · exact absurd (hzero hn) (by simp)
    · exact absurd rfl (hlead (by omega))

theorem readFraction_ends {rest : List Char} (hr : Ends rest) :
    readFraction rest = some (none, rest) := by
  unfold readFraction
  split
  · next cs => exact absurd rfl (hr _ cs rfl).2.1
  · rfl

theorem readExponent_ends {rest : List Char} (hr : Ends rest) :
    readExponent rest = some (none, rest) := by
  cases rest with
  | nil => rfl
  | cons c cs =>
    obtain ⟨_, _, he, hE⟩ := hr c cs rfl
    simp [readExponent, he, hE]

/-- What a numeral is once its sign is read. -/
theorem readNumeral_signed {cs : List Char} {negative : Bool} {n : Nat} {rest : List Char}
    (hs : readSign cs = (negative, Nat.toDigits 10 n ++ rest)) (hr : Ends rest) :
    ∃ ds, readNumeral cs = some (⟨negative, ds, none, none⟩, rest) ∧ ofDigits ds = n := by
  obtain ⟨ds, hw, hv⟩ := readWhole_written n hr
  refine ⟨ds, ?_, hv⟩
  simp only [readNumeral, hs, hw, readFraction_ends hr, readExponent_ends hr, Option.bind_eq_bind,
    Option.bind_some]
  rfl

/-- A digit is no sign. -/
theorem readSign_written (n : Nat) (rest : List Char) :
    readSign (Nat.toDigits 10 n ++ rest) = (false, Nat.toDigits 10 n ++ rest) := by
  obtain ⟨ds, he, hd, _, hne, _⟩ := toDigits_spec n
  obtain ⟨d, ds, rfl⟩ := List.exists_cons_of_ne_nil hne
  have hminus : ∀ d, d < 10 → Nat.digitChar d ≠ '-' := by decide
  rw [he, List.map_cons, List.cons_append]
  unfold readSign
  split
  · next h => exact absurd (List.cons.inj h).1 (hminus d (hd d (by simp)))
  · rfl

/-- The numbers that are kept exactly: the integers from `-2 ^ 63` up to `2 ^ 64 - 1`. -/
def Number.IsWord : Number → Prop
  | .int i => -0x8000000000000000 ≤ i ∧ i < 0x10000000000000000
  | .double _ => False

/-- A written integer is read back and kept exactly. -/
theorem readNumeral_written {i : Int} (hi : (Number.int i).IsWord) {rest : List Char}
    (hr : Ends rest) :
    ∃ n, readNumeral ((toString i).toList ++ rest) = some (n, rest) ∧
      n.number? = some (.int i) := by
  obtain ⟨hlow, hhigh⟩ := hi
  rw [Int.toString_eq_repr, Int.repr_eq_if]
  split
  · next hpos =>
    obtain ⟨ds, hread, hv⟩ := readNumeral_signed (readSign_written i.toNat rest) hr
    have hword : i.toNat ≤ maxWord := by simp only [maxWord, UInt64.size]; omega
    refine ⟨_, by rw [Nat.toList_repr]; exact hread, ?_⟩
    have hback : ((i.toNat : Nat) : Int) = i := by omega
    simp only [Numeral.number?, hv, hword, hback]
    rfl
  · next hneg =>
    have hs : readSign ('-' :: (Nat.toDigits 10 (-i).toNat ++ rest)) =
        (true, Nat.toDigits 10 (-i).toNat ++ rest) := rfl
    obtain ⟨ds, hread, hv⟩ := readNumeral_signed hs hr
    have hpos : 0 < (-i).toNat := by omega
    have hword : (-i).toNat ≤ 0x8000000000000000 := by omega
    have hback : -(((-i).toNat : Nat) : Int) = i := by omega
    refine ⟨_, by rw [String.toList_append, Nat.toList_repr]; exact hread, ?_⟩
    simp only [Numeral.number?, hv, hpos, hword, hback]
    rfl

end SourceAtlas.Json
