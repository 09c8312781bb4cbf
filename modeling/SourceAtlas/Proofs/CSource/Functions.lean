import Mathlib.Data.List.Forall2
import SourceAtlas.CSource.Summary
import SourceAtlas.Proofs.CSource.Header

/-! # The table of functions

Matches are looked for from left to right, each behind the one before. So no two of them overlap,
and a place at which one could start lies within one that was found. The functions of a text are
made of the matches for heads, in order. -/

namespace SourceAtlas.CSource

open Text

/-! ## Matches from left to right -/

section Matches

variable {α : Type} {at? : List Char → Option (α × Nat)}

theorem mem_allMatches {skip pos : Nat} {cs : List Char} {m : Nat × α × Nat}
    (h : m ∈ allMatches at? skip pos cs) :
    ∃ i, m.1 = pos + i ∧ skip ≤ i ∧ at? (cs.drop i) = some m.2 := by
  induction cs generalizing skip pos with
  | nil => simp [allMatches] at h
  | cons c cs ih =>
    cases skip with
    | succ skip =>
      rw [allMatches] at h
      obtain ⟨i, hm, hi, hat⟩ := ih h
      exact ⟨i + 1, by omega, by omega, hat⟩
    | zero =>
      rw [allMatches] at h
      split at h
      · next found length hat =>
        obtain rfl | h := List.mem_cons.mp h
        · exact ⟨0, rfl, Nat.le_refl _, hat⟩
        · obtain ⟨i, hm, _, hat⟩ := ih h
          exact ⟨i + 1, by omega, by omega, hat⟩
      · obtain ⟨i, hm, _, hat⟩ := ih h
        exact ⟨i + 1, by omega, by omega, hat⟩

theorem allMatches_disjoint (at? : List Char → Option (α × Nat)) (skip pos : Nat)
    (cs : List Char) : (allMatches at? skip pos cs).Pairwise fun m n => m.1 + m.2.2 ≤ n.1 := by
  induction cs generalizing skip pos with
  | nil => simp [allMatches]
  | cons c cs ih =>
    cases skip with
    | succ skip =>
      rw [allMatches]
      exact ih skip (pos + 1)
    | zero =>
      rw [allMatches]
      split
      · next found length hat =>
        refine List.pairwise_cons.mpr ⟨?_, ih (length - 1) (pos + 1)⟩
        intro n hn
        obtain ⟨i, hi, hskip, _⟩ := mem_allMatches hn
        dsimp only
        omega
      · exact ih 0 (pos + 1)

/-- Where a match could start, one was found that reaches further. -/
theorem allMatches_cover (hpos : ∀ cs m, at? cs = some m → 0 < m.2) {skip i : Nat} (pos : Nat)
    {cs : List Char} (hi : skip ≤ i) (hlt : i < cs.length) {m : α × Nat}
    (h : at? (cs.drop i) = some m) :
    ∃ n ∈ allMatches at? skip pos cs, n.1 ≤ pos + i ∧ pos + i < n.1 + n.2.2 := by
  induction cs generalizing skip pos i with
  | nil => simp at hlt
  | cons c cs ih =>
    -- a later start is one of the rest of the text
    have hrest (skip i : Nat) (hi : skip ≤ i) (hlt : i + 1 < (c :: cs).length)
        (h : at? ((c :: cs).drop (i + 1)) = some m) :
        ∃ n ∈ allMatches at? skip (pos + 1) cs, n.1 ≤ pos + (i + 1) ∧
          pos + (i + 1) < n.1 + n.2.2 := by
      rw [← Nat.add_assoc, Nat.add_right_comm]
      exact ih (pos + 1) hi (by simpa using hlt) h
    cases skip with
    | succ skip =>
      obtain ⟨i, rfl⟩ : ∃ k, i = k + 1 := ⟨i - 1, by omega⟩
      rw [allMatches]
      exact hrest skip i (by omega) hlt h
    | zero =>
      rw [allMatches]
      split
      · next found length hat =>
        have hlength := hpos _ _ hat
        by_cases hin : i < length
        · exact ⟨_, List.mem_cons_self, by dsimp only; omega, by dsimp only; omega⟩
        · obtain ⟨i, rfl⟩ : ∃ k, i = k + 1 := ⟨i - 1, by omega⟩
          obtain ⟨n, hn, hreach⟩ := hrest (length - 1) i (by omega) hlt h
          exact ⟨n, List.mem_cons_of_mem _ hn, hreach⟩
      · next hat =>
        cases i with
        | zero => simp [hat] at h
        | succ i => exact hrest 0 i (Nat.zero_le i) hlt h

end Matches

/-! ## Heads in a text -/

structure Head where
  start : Nat
  signature : Signature

namespace Head

def stop (h : Head) : Nat := h.start + h.signature.text.length

def In (h : Head) (text : List Char) : Prop := h.signature.text <+: text.drop h.start

def function (h : Head) (text : List Char) : Function :=
  functionOf h.signature.header ((text.take h.start).count '\n' + 1) (text.drop h.stop)

theorem headerAt?_drop {h : Head} {text : List Char} (hin : h.In text) :
    headerAt? (text.drop h.start) = some (h.signature.header, h.signature.text.length) := by
  obtain ⟨rest, hrest⟩ := hin
  rw [← hrest]
  exact headerAt?_text h.signature rest

theorem start_lt {h : Head} {text : List Char} (hin : h.In text) : h.start < text.length := by
  have hle := hin.length_le
  rw [List.length_drop, Signature.text_length] at hle
  omega

end Head

theorem headerAt?_pos (cs : List Char) (m : Header × Nat) (h : headerAt? cs = some m) :
    0 < m.2 := by
  obtain ⟨s, _, _, hlength⟩ := headerAt?_signature h
  rw [hlength, Signature.text_length]
  omega

/-- A match for a head is a head of the text. -/
theorem exists_head {text : List Char} {m : Nat × Header × Nat}
    (h : m ∈ allMatches headerAt? 0 0 text) :
    ∃ head : Head, head.In text ∧
      m = (head.start, head.signature.header, head.signature.text.length) := by
  obtain ⟨i, hm, _, hat⟩ := mem_allMatches h
  obtain ⟨pos, header, length⟩ := m
  obtain ⟨s, htext, hheader, hlength⟩ := headerAt?_signature hat
  simp only [Nat.zero_add] at hm
  subst hm hheader hlength
  exact ⟨⟨pos, s⟩, htext, rfl⟩

theorem exists_heads {text : List Char} {l : List (Nat × Header × Nat)}
    (h : ∀ m ∈ l, m ∈ allMatches headerAt? 0 0 text) :
    ∃ heads : List Head, (∀ head ∈ heads, head.In text) ∧
      l = heads.map fun head =>
        (head.start, head.signature.header, head.signature.text.length) := by
  induction l with
  | nil => exact ⟨[], by simp, rfl⟩
  | cons m l ih =>
    obtain ⟨head, hin, rfl⟩ := exists_head (h m List.mem_cons_self)
    obtain ⟨heads, hins, rfl⟩ := ih fun n hn => h n (List.mem_cons_of_mem _ hn)
    exact ⟨head :: heads, by simpa using ⟨hin, hins⟩, rfl⟩

/-- The table holds a function for each of a list of heads. They stand one behind the other, and
where a head can start, one of them stands. -/
theorem functions_eq (text : List Char) : ∃ heads : List Head,
    functions text = heads.map (·.function text) ∧ (∀ head ∈ heads, head.In text) ∧
      heads.Pairwise (fun a b => a.stop ≤ b.start) ∧
      ∀ head : Head, head.In text →
        ∃ found ∈ heads, found.start ≤ head.start ∧ head.start < found.stop := by
  obtain ⟨heads, hin, heq⟩ := exists_heads fun m (hm : m ∈ allMatches headerAt? 0 0 text) => hm
  refine ⟨heads, ?_, hin, ?_, ?_⟩
  · unfold functions
    rw [heq, List.map_map]
    rfl
  · have hdisjoint := allMatches_disjoint headerAt? 0 0 text
    rw [heq, List.pairwise_map] at hdisjoint
    exact hdisjoint
  · intro head hhead
    obtain ⟨m, hm, hle, hlt⟩ := allMatches_cover headerAt?_pos 0 (Nat.zero_le head.start)
      (Head.start_lt hhead) (Head.headerAt?_drop hhead)
    rw [heq] at hm
    obtain ⟨found, hfound, rfl⟩ := List.mem_map.mp hm
    rw [Nat.zero_add] at hle hlt
    exact ⟨found, hfound, hle, hlt⟩

theorem exists_head_of_mem {text : String} {f : Function} (hf : f ∈ (summarize text).functions) :
    ∃ head : Head, head.In text.toList ∧ f = head.function text.toList := by
  obtain ⟨heads, heq, hin, _⟩ := functions_eq text.toList
  have hfunctions : (summarize text).functions = heads.map (·.function text.toList) := heq
  rw [hfunctions] at hf
  obtain ⟨head, hhead, rfl⟩ := List.mem_map.mp hf
  exact ⟨head, hin head hhead, rfl⟩

/-! ## Parameters -/

/-- The parameters that the pieces between commas give: none for white space, else one whose name is
the last stretch of the piece and whose type the stretches before it, joined by single spaces. -/
inductive Lists : List (List Char) → List Parameter → Prop
  | nil : Lists [] []
  | blank {piece : List Char} {pieces : List (List Char)} {ps : List Parameter} :
      Gap piece → Lists pieces ps → Lists (piece :: pieces) ps
  | named {piece name : List Char} {types pieces : List (List Char)} {ps : List Parameter} :
      Stretches piece (types ++ [name]) → Lists pieces ps →
      Lists (piece :: pieces) (⟨String.ofList (joinWith [' '] types), String.ofList name⟩ :: ps)

theorem lists_parameters (pieces : List (List Char)) :
    Lists pieces (pieces.filterMap parameter?) := by
  induction pieces with
  | nil => exact .nil
  | cons piece pieces ih =>
    have hs := stretches_fields piece
    cases hlast : (fields piece).getLast? with
    | none =>
      rw [List.getLast?_eq_none_iff] at hlast
      rw [hlast] at hs
      rw [List.filterMap_cons_none (by simp [parameter?, hlast])]
      cases hs with
      | gap hg => exact .blank hg ih
    | some name =>
      have hsplit : fields piece = (fields piece).dropLast ++ [name] :=
        (List.dropLast_append_getLast? name hlast).symm
      rw [hsplit] at hs
      have hparam : parameter? piece = some ⟨String.ofList (joinWith [' '] (fields piece).dropLast),
          String.ofList name⟩ := by simp [parameter?, hlast]
      rw [List.filterMap_cons_some hparam]
      exact .named hs ih

/-! ## What the table says -/

/-- What the table says of a head: its type and its name as written, its parameters in order, and
the line on which it starts. -/
structure Head.Gives (text : List Char) (h : Head) (f : Function) : Prop where
  name : f.name = String.ofList h.signature.name
  returnType : f.returnType = String.ofList h.signature.type
  parameters : ∃ pieces, pieces ≠ [] ∧ joinWith [','] pieces = h.signature.parameters ∧
    (∀ piece ∈ pieces, ',' ∉ piece) ∧ Lists pieces f.parameters
  startLine : f.startLine = 1 + (text.take h.start).count '\n'

theorem Head.gives (h : Head) (text : List Char) : h.Gives text (h.function text) :=
  ⟨rfl, rfl, ⟨splitAt ',' h.signature.parameters, cut_ne_nil _ _, joinWith_splitAt _ _,
    fun _ hp => not_mem_of_mem_splitAt hp, lists_parameters _⟩, Nat.add_comm ..⟩

/-- The functions of a text are its heads, in order: heads that do not overlap, and of which none is
missing that starts outside the others. -/
theorem functions_heads (text : String) : ∃ heads : List Head,
    List.Forall₂ (Head.Gives text.toList) heads (summarize text).functions ∧
    (∀ head ∈ heads, head.In text.toList) ∧
    heads.Pairwise (fun a b => a.stop ≤ b.start) ∧
    (∀ head : Head, head.In text.toList →
      ∃ found ∈ heads, found.start ≤ head.start ∧ head.start < found.stop) ∧
    (summarize text).functions.Pairwise (fun f g => f.startLine ≤ g.startLine) := by
  obtain ⟨heads, heq, hin, hdisjoint, hcover⟩ := functions_eq text.toList
  have hfunctions : (summarize text).functions = heads.map (·.function text.toList) := heq
  refine ⟨heads, ?_, hin, hdisjoint, hcover, ?_⟩
  · rw [hfunctions, List.forall₂_map_right_iff, List.forall₂_same]
    exact fun h _ => h.gives text.toList
  · rw [hfunctions, List.pairwise_map]
    refine hdisjoint.imp fun {a b} hab => ?_
    -- the text before an earlier head is the front of the text before a later one
    have hle : a.start ≤ b.start := Nat.le_trans (Nat.le_add_right ..) hab
    have hfront : text.toList.take a.start <+: text.toList.take b.start :=
      List.take_prefix_take_left hle
    exact Nat.add_le_add_right (hfront.sublist.count_le '\n') 1

end SourceAtlas.CSource
