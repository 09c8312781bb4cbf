import Mathlib.Data.List.Basic
import Mathlib.Data.List.TakeWhile
import SourceAtlas.CSource.Phrase
import SourceAtlas.Proofs.Text.Pieces

/-! # Words, gaps and phrases

No character belongs both to words and to white space, so a run of words and white space falls into
words and gaps in one way only: it is a phrase exactly when it starts and ends with a word, and its
last word and what stands before that can be cut off from behind. -/

namespace SourceAtlas

namespace Text

structure Word (w : List Char) : Prop where
  ne_nil : w ≠ []
  all : ∀ c ∈ w, isWord c = true

/-! ## Kinds of characters -/

theorem inRanges_iff {ranges : List (Nat × Nat)} {n : Nat} :
    inRanges ranges n = true ↔ n ∈ ranges.flatMap fun r => List.range' r.1 (r.2 + 1 - r.1) := by
  unfold inRanges
  simp only [List.any_eq_true, List.mem_flatMap, List.mem_range'_1, Bool.and_eq_true,
    decide_eq_true_eq]
  constructor
  · intro ⟨r, hr, hlo, hhi⟩
    exact ⟨r, hr, hlo, by omega⟩
  · intro ⟨r, hr, hlo, hhi⟩
    exact ⟨r, hr, hlo, by omega⟩

/-- White space belongs to no word: the tables have no code point in common. -/
theorem not_isWord_of_isBlank {c : Char} (h : isBlank c = true) : isWord c = false := by
  have hall : ∀ n ∈ blankRanges.flatMap fun r => List.range' r.1 (r.2 + 1 - r.1),
      isWord (Char.ofNat n) = false := by decide +kernel
  have hc := hall c.toNat (inRanges_iff.mp h)
  rwa [Char.ofNat_toNat] at hc

theorem not_isBlank_of_isWord {c : Char} (h : isWord c = true) : isBlank c = false := by
  cases hb : isBlank c with
  | false => rfl
  | true => simp [not_isWord_of_isBlank hb] at h

/-! ## Runs at the front of a text -/

/-- A run is cut off where a character of another kind follows. -/
theorem span_append {p : Char → Bool} {run rest : List Char} (hrun : ∀ c ∈ run, p c = true)
    (hrest : rest.head?.any p = false) :
    (run ++ rest).takeWhile p = run ∧ (run ++ rest).dropWhile p = rest := by
  rw [List.takeWhile_append_of_pos hrun, List.dropWhile_append_of_pos hrun]
  cases rest with
  | nil => simp
  | cons c rest =>
    have hc : p c = false := by simpa using hrest
    simp [hc]

theorem head?_dropWhile_any (p : Char → Bool) (cs : List Char) :
    (cs.dropWhile p).head?.any p = false := by
  induction cs with
  | nil => rfl
  | cons c cs ih =>
    by_cases hc : p c = true
    · rwa [List.dropWhile_cons_of_pos hc]
    · rw [List.dropWhile_cons_of_neg hc]
      simpa using hc

/-- Every text falls into a run at its front and a rest that does not go on with it. -/
theorem exists_run (p : Char → Bool) (cs : List Char) : ∃ run rest, cs = run ++ rest ∧
    (∀ c ∈ run, p c = true) ∧ rest.head?.any p = false ∧ cs.takeWhile p = run ∧
      cs.dropWhile p = rest :=
  ⟨_, _, List.takeWhile_append_dropWhile.symm, fun _ hc => List.mem_takeWhile_imp hc,
    head?_dropWhile_any p cs, rfl, rfl⟩

theorem run_ne_nil {p : Char → Bool} {run rest : List Char} (h : (run ++ rest).head?.any p = true)
    (hrest : rest.head?.any p = false) : run ≠ [] := by
  intro hrun
  rw [hrun, List.nil_append, hrest] at h
  cases h

theorem gap_takeWhile (cs : List Char) : Gap (cs.takeWhile isBlank) :=
  fun _ hc => List.mem_takeWhile_imp hc

theorem Gap.reverse {g : List Char} (h : Gap g) : Gap g.reverse :=
  fun c hc => h c (List.mem_reverse.mp hc)

theorem Word.reverse {w : List Char} (h : Word w) : Word w.reverse :=
  ⟨by simpa using h.ne_nil, fun c hc => h.all c (List.mem_reverse.mp hc)⟩

theorem Gap.head?_not_word {g : List Char} (h : Gap g) (hne : g ≠ []) (rest : List Char) :
    (g ++ rest).head?.any isWord = false := by
  obtain ⟨c, g, rfl⟩ := List.exists_cons_of_ne_nil hne
  simpa using not_isWord_of_isBlank (h c List.mem_cons_self)

theorem head?_not_blank {cs : List Char} (h : cs.head?.any isWord = true) :
    cs.head?.any isBlank = false := by
  cases cs with
  | nil => rfl
  | cons c cs => simpa using not_isBlank_of_isWord (by simpa using h)

theorem Word.head? {w : List Char} (h : Word w) (rest : List Char) :
    (w ++ rest).head?.any isWord = true := by
  obtain ⟨c, w, rfl⟩ := List.exists_cons_of_ne_nil h.ne_nil
  simpa using h.all c List.mem_cons_self

end Text

namespace CSource

open Text

inductive Phrase : List Char → Prop
  | word {w : List Char} : Word w → Phrase w
  | more {w g p : List Char} : Word w → Gap g → g ≠ [] → Phrase p → Phrase (w ++ g ++ p)

theorem inPhrase_iff {c : Char} : inPhrase c = true ↔ isWord c = true ∨ isBlank c = true := by
  simp [inPhrase]

/-- A run of phrase characters that does not start with a word starts with white space. -/
theorem head?_blank {cs : List Char} (hall : ∀ c ∈ cs, inPhrase c = true) (hne : cs ≠ [])
    (h : cs.head?.any isWord = false) : cs.head?.any isBlank = true := by
  obtain ⟨c, cs, rfl⟩ := List.exists_cons_of_ne_nil hne
  have hw : isWord c = false := by simpa using h
  have hp := inPhrase_iff.mp (hall c List.mem_cons_self)
  simpa [hw] using hp

theorem head?_word {cs : List Char} (hall : ∀ c ∈ cs, inPhrase c = true) (hne : cs ≠ [])
    (h : cs.head?.any isBlank = false) : cs.head?.any isWord = true := by
  obtain ⟨c, cs, rfl⟩ := List.exists_cons_of_ne_nil hne
  have hb : isBlank c = false := by simpa using h
  have hp := inPhrase_iff.mp (hall c List.mem_cons_self)
  simpa [hb] using hp

/-! ## Phrases -/

namespace Phrase

theorem all {p : List Char} (h : Phrase p) : ∀ c ∈ p, inPhrase c = true := by
  induction h with
  | word hw => exact fun c hc => inPhrase_iff.mpr (.inl (hw.all c hc))
  | more hw hg _ _ ih =>
    intro c hc
    simp only [List.mem_append] at hc
    obtain (hc | hc) | hc := hc
    · exact inPhrase_iff.mpr (.inl (hw.all c hc))
    · exact inPhrase_iff.mpr (.inr (hg c hc))
    · exact ih c hc

theorem head? {p : List Char} (h : Phrase p) : p.head?.any isWord = true := by
  cases h with
  | word hw => simpa using hw.head? []
  | more hw _ _ _ =>
    rw [List.append_assoc]
    exact hw.head? _

theorem getLast? {p : List Char} (h : Phrase p) : p.getLast?.any isWord = true := by
  induction h with
  | word hw =>
    rw [← List.head?_reverse]
    simpa using hw.reverse.head? []
  | @more _ _ p _ _ _ _ ih =>
    rw [List.getLast?_append]
    cases hl : p.getLast? with
    | none => simp [hl] at ih
    | some c => simpa [hl] using ih

/-- A run of words and white space that starts and ends with a word is a phrase. -/
theorem of_ends {p : List Char} (hall : ∀ c ∈ p, inPhrase c = true)
    (hhead : p.head?.any isWord = true) (hlast : p.getLast?.any isWord = true) : Phrase p := by
  induction hn : p.length using Nat.strong_induction_on generalizing p with
  | _ n ih =>
    subst hn
    obtain ⟨w, r, rfl, hall', hstop, -, -⟩ := exists_run isWord p
    have hw : Word w := ⟨run_ne_nil hhead hstop, hall'⟩
    by_cases hr : r = []
    · subst hr
      simpa using Phrase.word hw
    have hrall : ∀ c ∈ r, inPhrase c = true := fun c hc => hall c (List.mem_append_right _ hc)
    rw [List.getLast?_append_of_ne_nil _ hr] at hlast
    -- behind the first word stands white space, and behind that the rest of the phrase
    have hblank := head?_blank hrall hr hstop
    obtain ⟨g, q, rfl, hg, hnext, -, -⟩ := exists_run isBlank r
    have hgap := run_ne_nil hblank hnext
    have hqall : ∀ c ∈ q, inPhrase c = true := fun c hc => hrall c (List.mem_append_right _ hc)
    have hq : q ≠ [] := by
      intro hq
      subst hq
      rw [List.append_nil, ← List.head?_reverse] at hlast
      have hword := Gap.head?_not_word (Gap.reverse hg) (by simpa using hgap) []
      rw [List.append_nil, hlast] at hword
      cases hword
    rw [List.getLast?_append_of_ne_nil _ hq] at hlast
    have hlen : q.length < (w ++ (g ++ q)).length := by
      have := List.length_pos_iff.mpr hw.ne_nil
      simp only [List.length_append]
      omega
    rw [← List.append_assoc]
    exact .more hw hg hgap (ih _ hlen hqall (head?_word hqall hq hnext) hlast rfl)

end Phrase

/-! ## Words of a text -/

/-- A text holds a word, with no word character right before or behind it. -/
def HasWord (cs w : List Char) : Prop := ∃ front back, cs = front ++ w ++ back ∧
  front.getLast?.any isWord = false ∧ back.head?.any isWord = false

theorem HasWord.occurs {cs w : List Char} (h : HasWord cs w) : w <:+: cs := by
  obtain ⟨front, back, rfl, _⟩ := h
  exact ⟨front, back, rfl⟩

theorem HasWord.append_left {cs w : List Char} (h : HasWord cs w) {start : List Char}
    (hstart : start.getLast?.any isWord = false) : HasWord (start ++ cs) w := by
  obtain ⟨front, back, rfl, hfront, hback⟩ := h
  refine ⟨start ++ front, back, by simp, ?_, hback⟩
  by_cases hne : front = []
  · simpa [hne] using hstart
  · rwa [List.getLast?_append_of_ne_nil _ hne]

/-- The front of a text up to a word does not end with a word, nor is it empty inside of one. -/
theorem mem_wordsFrom {inside : Bool} {cs w back : List Char}
    (h : (w, back) ∈ wordsFrom inside cs) :
    ∃ front, cs = front ++ w ++ back ∧ front.getLast?.any isWord = false ∧
      back.head?.any isWord = false ∧ (inside = true → front ≠ []) := by
  induction cs generalizing inside with
  | nil => simp [wordsFrom] at h
  | cons c cs ih =>
    -- a word found further behind, where the text before it may not be empty
    have hlater {within : Bool} (hc : isWord c = within)
        (h : (w, back) ∈ wordsFrom within cs) :
        ∃ front, c :: cs = front ++ w ++ back ∧ front.getLast?.any isWord = false ∧
          back.head?.any isWord = false ∧ (inside = true → front ≠ []) := by
      obtain ⟨front, rfl, hfront, hback, hin⟩ := ih h
      refine ⟨c :: front, rfl, ?_, hback, by simp⟩
      by_cases hne : front = []
      · subst hne
        cases within with
        | false => simpa using hc
        | true => exact absurd rfl (hin rfl)
      · rwa [List.getLast?_cons_of_ne_nil hne]
    rw [wordsFrom] at h
    split at h
    · next hc =>
      split at h
      · exact hlater hc h
      · next hinside =>
        obtain heq | h := List.mem_cons.mp h
        · cases heq
          refine ⟨[], ?_, rfl, head?_dropWhile_any isWord _, fun hin => absurd hin hinside⟩
          rw [List.nil_append, List.takeWhile_append_dropWhile]
        · exact hlater hc h
    · next hc => exact hlater (by simpa using hc) h

theorem hasWord_of_mem_words {cs w back : List Char} (h : (w, back) ∈ words cs) : HasWord cs w := by
  obtain ⟨front, hcs, hfront, hback, _⟩ := mem_wordsFrom h
  exact ⟨front, back, hcs, hfront, hback⟩

/-! ## Types and names -/

/-- A type and a name in a run of phrase characters: the name is the last word, and the type ends
with the last word before it. -/
theorem typed?_parts {p : List Char} (hall : ∀ c ∈ p, inPhrase c = true) {d : Typed}
    (h : typed? p = some d) : ∃ gap, p = d.type ++ gap ++ d.name ∧ Gap gap ∧ gap ≠ [] ∧
      Word d.name ∧ d.type.getLast?.any isWord = true := by
  unfold typed? at h
  dsimp only at h
  obtain ⟨n, r, hback, hname, hstop, htake, hdrop⟩ := exists_run isWord p.reverse
  rw [htake, hdrop] at h
  obtain ⟨g, t, rfl, hgap, hfirst, -, hdrop'⟩ := exists_run isBlank r
  rw [hdrop'] at h
  have hp : p = t.reverse ++ g.reverse ++ n.reverse := by
    rw [← List.reverse_inj, hback]
    simp
  split at h
  · cases h
  · next hne =>
    cases h
    simp only [List.isEmpty_iff, List.reverse_eq_nil_iff, Bool.or_eq_true, not_or] at hne
    have hin : ∀ c ∈ g ++ t, inPhrase c = true := by
      intro c hc
      refine hall c ?_
      rw [hp]
      simp only [List.mem_append, List.mem_reverse] at hc ⊢
      exact .inl hc.symm
    have hrun : g ++ t ≠ [] := by simp [hne.2]
    refine ⟨g.reverse, hp, Gap.reverse hgap, ?_, ⟨by simpa using hne.1, ?_⟩, ?_⟩
    · simpa using run_ne_nil (head?_blank hin hrun hstop) hfirst
    · exact fun c hc => hname c (List.mem_reverse.mp hc)
    · rw [List.getLast?_reverse]
      exact head?_word (fun c hc => hin c (List.mem_append_right _ hc)) hne.2 hfirst

theorem typed?_of_parts {type gap name : List Char} (htype : type.getLast?.any isWord = true)
    (hgap : Gap gap) (hne : gap ≠ []) (hname : Word name) :
    typed? (type ++ gap ++ name) = some ⟨type, name⟩ := by
  have htype' : type.reverse.head?.any isBlank = false :=
    head?_not_blank (by rwa [List.head?_reverse])
  obtain ⟨hn, hr⟩ := span_append hname.reverse.all
    (hgap.reverse.head?_not_word (by simpa using hne) type.reverse)
  obtain ⟨_, ht⟩ := span_append hgap.reverse htype'
  have hempty : type ≠ [] := by
    intro h
    simp [h] at htype
  unfold typed?
  simp only [List.reverse_append, hn, hr, ht, List.reverse_reverse]
  simp [hname.ne_nil, hempty]

/-- White space behind the last word does not count. -/
theorem trimEnd_append {p space : List Char} (hp : p.getLast?.any isWord = true)
    (hspace : Gap space) : trimEnd (p ++ space) = p := by
  have hp' : p.reverse.head?.any isBlank = false := head?_not_blank (by rwa [List.head?_reverse])
  unfold trimEnd
  rw [List.reverse_append, (span_append hspace.reverse hp').2, List.reverse_reverse]

theorem trimEnd_parts (p : List Char) : ∃ space, p = trimEnd p ++ space ∧ Gap space := by
  refine ⟨(p.reverse.takeWhile isBlank).reverse, ?_, (gap_takeWhile _).reverse⟩
  unfold trimEnd
  rw [← List.reverse_append, List.takeWhile_append_dropWhile, List.reverse_reverse]

end CSource
end SourceAtlas
