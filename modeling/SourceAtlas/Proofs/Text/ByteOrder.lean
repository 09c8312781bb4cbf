import Mathlib.Data.String.Basic
import SourceAtlas.Text.Utf8

/-! # The order of texts by their octets

Texts are compared character by character. The octets of a character never begin those of another
one, and they follow the order of the characters, so that comparing the octets of two texts gives
the same answer. -/

namespace SourceAtlas.Text.Utf8

theorem byteArray_toList_loop (b : ByteArray) (i : Nat) (read : List UInt8) :
    ByteArray.toList.loop b i read = read.reverse ++ b.data.toList.drop i := by
  fun_induction ByteArray.toList.loop b i read with
  | case1 i read hi ih =>
    have hi : i < b.data.toList.length := by simpa using hi
    rw [ih, List.drop_eq_getElem_cons hi]
    have hget : b.get! i = b.data.toList[i] := by
      rw [ByteArray.get!, Array.getElem_toList, getElem!_pos]
    simp [hget]
  | case2 i read hi =>
    have hi : b.data.toList.length ≤ i := by simpa using hi
    rw [List.drop_eq_nil_of_le hi, List.append_nil]

/-- The octets of a text are those of its characters, one after another. -/
theorem encode_eq (s : String) : encode s = s.toList.flatMap String.utf8EncodeChar := by
  rw [encode, String.toUTF8, ← String.utf8Encode_toList, ByteArray.toList, byteArray_toList_loop,
    List.utf8Encode]
  simp

/-- The octets of a character come before those of a greater one, whatever follows on either
side. -/
theorem utf8EncodeChar_append_lt {c d : Char} (h : c < d) (x y : List UInt8) :
    String.utf8EncodeChar c ++ x < String.utf8EncodeChar d ++ y := by
  have hlt : c.val.toNat < d.val.toNat := h
  have hmax : d.val.toNat < 0x110000 := d.valid.elim (by omega) (by omega)
  -- the digits to the base 64, each from the number before
  have hsecond (n : Nat) : n / 4096 = n / 64 / 64 := by omega
  have hthird (n : Nat) : n / 262144 = n / 64 / 64 / 64 := by omega
  unfold String.utf8EncodeChar
  simp only [hsecond, hthird]
  -- the number of octets decides by the first one, and equal numbers are compared digit by digit
  split_ifs <;>
    simp only [List.cons_append, List.nil_append, List.cons_lt_cons_iff, UInt8.lt_iff_toNat_lt,
      ← UInt8.toNat_inj, UInt8.toNat_ofNat'] <;> omega

theorem flatMap_utf8EncodeChar_lt {l r : List Char} (h : l < r) :
    l.flatMap String.utf8EncodeChar < r.flatMap String.utf8EncodeChar := by
  induction h with
  | @nil d r =>
    rw [List.flatMap_nil, List.flatMap_cons]
    cases he : String.utf8EncodeChar d with
    | nil => exact absurd he String.utf8EncodeChar_ne_nil
    | cons b bs => exact List.nil_lt_cons _ _
  | @rel c l d r hcd =>
    rw [List.flatMap_cons, List.flatMap_cons]
    exact utf8EncodeChar_append_lt hcd _ _
  | @cons c l r _ ih =>
    rw [List.flatMap_cons, List.flatMap_cons]
    exact List.append_left_lt ih

/-- A text that comes before another one does so by its octets. -/
theorem encode_lt {s t : String} (h : s < t) : encode s < encode t := by
  rw [encode_eq, encode_eq]
  exact flatMap_utf8EncodeChar_lt (String.lt_iff_toList_lt.mp h)

end SourceAtlas.Text.Utf8
