import SourceAtlas.CSource.Function
import SourceAtlas.Proofs.CSource.Phrase

/-! # The heads of functions

A head reads `type name(parameters) {`, with white space where words need it and wherever else it
may stand. What `headerAt?` finds at the front of a text is such a head, and where the text begins
with one, that one is found: the grammar leaves no choice. -/

namespace SourceAtlas.CSource

open Text

/-- The head of a function as it is written, up to the opening brace. -/
structure Signature where
  type : List Char
  gap : List Char
  name : List Char
  space : List Char
  parameters : List Char
  lead : List Char
  type_phrase : Phrase type
  gap_blank : Gap gap
  gap_ne_nil : gap ≠ []
  name_word : Word name
  space_blank : Gap space
  parameters_open : ')' ∉ parameters
  lead_blank : Gap lead

namespace Signature

/-- The type and the name with what stands between and behind them. -/
def front (s : Signature) : List Char := s.type ++ s.gap ++ s.name ++ s.space

def text (s : Signature) : List Char :=
  s.front ++ '(' :: (s.parameters ++ ')' :: (s.lead ++ ['\x7b']))

def header (s : Signature) : Header := ⟨⟨s.type, s.name⟩, s.parameters⟩

theorem text_length (s : Signature) :
    s.text.length = s.front.length + s.parameters.length + s.lead.length + 3 := by
  simp [text]
  omega

theorem getLast?_text (s : Signature) : s.text.getLast? = some '\x7b' := by
  have hconcat : s.text = s.front ++ '(' :: (s.parameters ++ ')' :: s.lead) ++ ['\x7b'] := by
    simp [text]
  rw [hconcat, List.getLast?_concat]

theorem front_all (s : Signature) : ∀ c ∈ s.front, inPhrase c = true := by
  intro c hc
  simp only [front, List.mem_append] at hc
  obtain ((hc | hc) | hc) | hc := hc
  · exact s.type_phrase.all c hc
  · exact inPhrase_iff.mpr (.inr (s.gap_blank c hc))
  · exact inPhrase_iff.mpr (.inl (s.name_word.all c hc))
  · exact inPhrase_iff.mpr (.inr (s.space_blank c hc))

theorem front_head? (s : Signature) (rest : List Char) :
    (s.front ++ rest).head?.any isWord = true := by
  have h := s.type_phrase.head?
  unfold front
  cases ht : s.type with
  | nil => simp [ht] at h
  | cons c cs => simpa [ht] using h

theorem trimEnd_front (s : Signature) : trimEnd s.front = s.type ++ s.gap ++ s.name := by
  refine trimEnd_append ?_ s.space_blank
  rw [List.getLast?_append_of_ne_nil _ s.name_word.ne_nil, ← List.head?_reverse]
  simpa using s.name_word.reverse.head? []

end Signature

/-- A head at the front of a text is found. -/
theorem headerAt?_text (s : Signature) (rest : List Char) :
    headerAt? (s.text ++ rest) = some (s.header, s.text.length) := by
  have hopen : ∀ c ∈ s.parameters, decide (c ≠ ')') = true := by
    intro c hc
    have hne : c ≠ ')' := fun h => s.parameters_open (h ▸ hc)
    simpa using hne
  have hlead : ('\x7b' :: rest).head?.any isBlank = false := rfl
  have hclose : (')' :: (s.lead ++ '\x7b' :: rest)).head?.any (fun c => decide (c ≠ ')')) = false :=
    rfl
  obtain ⟨hl, hbrace⟩ := span_append s.lead_blank hlead
  obtain ⟨hp, hbehind⟩ := span_append hopen hclose
  have hmark : ('(' :: (s.parameters ++ ')' :: (s.lead ++ '\x7b' :: rest))).head?.any inPhrase =
      false := rfl
  obtain ⟨hf, hparen⟩ := span_append s.front_all hmark
  have htext : s.text ++ rest =
      s.front ++ '(' :: (s.parameters ++ ')' :: (s.lead ++ '\x7b' :: rest)) := by
    simp [Signature.text]
  have htyped := typed?_of_parts s.type_phrase.getLast? s.gap_blank s.gap_ne_nil s.name_word
  rw [htext]
  unfold headerAt?
  simp only [s.front_head?, hf, hparen, s.trimEnd_front, htyped, hp, hbehind, hl, hbrace,
    if_true, Option.bind_eq_bind, Option.bind_some, s.text_length]
  rfl

/-- A run that starts with a word and holds a type and a name is these two, a gap between them, and
white space behind. -/
theorem front_parts {run : List Char} (hall : ∀ c ∈ run, inPhrase c = true)
    (hhead : run.head?.any isWord = true) {d : Typed} (h : typed? (trimEnd run) = some d) :
    ∃ gap space, run = d.type ++ gap ++ d.name ++ space ∧ Phrase d.type ∧ Gap gap ∧ gap ≠ [] ∧
      Word d.name ∧ Gap space := by
  obtain ⟨space, hrun, hspace⟩ := trimEnd_parts run
  have htrim : ∀ c ∈ trimEnd run, inPhrase c = true := by
    intro c hc
    refine hall c ?_
    rw [hrun]
    exact List.mem_append_left _ hc
  obtain ⟨gap, hparts, hgap, hne, hname, hlast⟩ := typed?_parts htrim h
  rw [hparts] at hrun
  refine ⟨gap, space, hrun, Phrase.of_ends ?_ ?_ hlast, hgap, hne, hname, hspace⟩
  · intro c hc
    refine htrim c ?_
    simp [hparts, hc]
  · cases ht : d.type with
    | nil => simp [ht] at hlast
    | cons c cs => simpa [hrun, ht] using hhead

/-- What is read for a head: the run of words and white space at the front, a parenthesis with no
closing one in it, and white space up to the brace. -/
theorem headerAt?_parts {cs : List Char} {header : Header} {length : Nat}
    (h : headerAt? cs = some (header, length)) :
    cs.head?.any isWord = true ∧ typed? (trimEnd (cs.takeWhile inPhrase)) = some header.typed ∧
      ∃ lead rest, cs = cs.takeWhile inPhrase ++
          '(' :: (header.parameters ++ ')' :: (lead ++ '\x7b' :: rest)) ∧
        ')' ∉ header.parameters ∧ Gap lead ∧
        length = (cs.takeWhile inPhrase).length + header.parameters.length + lead.length + 3 := by
  unfold headerAt? at h
  dsimp only at h
  split at h
  · next hhead =>
    obtain ⟨typed, htyped, h⟩ := Option.bind_eq_some_iff.mp h
    split at h
    · next inner hparen =>
      split at h
      · next mark behind hclose =>
        split at h
        · next rest hbrace =>
          cases h
          have hmark : mark = ')' := by
            have hstop := head?_dropWhile_any (fun c => decide (c ≠ ')')) inner
            rw [hclose] at hstop
            simpa using hstop
          refine ⟨hhead, htyped, behind.takeWhile isBlank, rest, ?_, ?_, gap_takeWhile _, rfl⟩
          · calc cs = cs.takeWhile inPhrase ++ cs.dropWhile inPhrase :=
                  List.takeWhile_append_dropWhile.symm
              _ = cs.takeWhile inPhrase ++
                  '(' :: (inner.takeWhile (· ≠ ')') ++ inner.dropWhile (· ≠ ')')) := by
                  rw [hparen, List.takeWhile_append_dropWhile]
              _ = cs.takeWhile inPhrase ++ '(' :: (inner.takeWhile (· ≠ ')') ++
                  ')' :: (behind.takeWhile isBlank ++ behind.dropWhile isBlank)) := by
                  rw [hclose, hmark, List.takeWhile_append_dropWhile]
              _ = _ := by rw [hbrace]
          · intro hc
            simpa using List.mem_takeWhile_imp hc
        · cases h
      · cases h
    · cases h
  · cases h

/-- What is found at the front of a text is a head. -/
theorem headerAt?_signature {cs : List Char} {header : Header} {length : Nat}
    (h : headerAt? cs = some (header, length)) :
    ∃ s : Signature, s.text <+: cs ∧ header = s.header ∧ length = s.text.length := by
  obtain ⟨hhead, htyped, lead, rest, hcs, hopen, hlead, hlength⟩ := headerAt?_parts h
  have hrun : (cs.takeWhile inPhrase).head?.any isWord = true := by
    cases cs with
    | nil => simp at hhead
    | cons c cs =>
      have hc : isWord c = true := by simpa using hhead
      simp [inPhrase, hc]
  obtain ⟨gap, space, hfront, htype, hgap, hne, hname, hspace⟩ :=
    front_parts (fun c hc => List.mem_takeWhile_imp hc) hrun htyped
  let s : Signature := ⟨header.typed.type, gap, header.typed.name, space, header.parameters, lead,
    htype, hgap, hne, hname, hspace, hopen, hlead⟩
  have hs : s.front = cs.takeWhile inPhrase := hfront.symm
  refine ⟨s, ⟨rest, ?_⟩, rfl, ?_⟩
  · rw [Signature.text, hs]
    conv_rhs => rw [hcs]
    simp [s]
  · rw [hlength, Signature.text_length, hs]

end SourceAtlas.CSource
