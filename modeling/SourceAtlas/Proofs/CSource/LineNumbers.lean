import SourceAtlas.Proofs.CSource.Body

/-! # Line numbers

The lines of a body are numbered from the line behind the one on which the head starts, while they
are the lines of the text from the opening brace on. The numbers are those of the text exactly where
the brace stands on the line behind the one on which the head starts; elsewhere all of them are off
by the same amount. -/

namespace SourceAtlas.CSource

open Text

/-- What is shown by the line of a text with a number, the first line being number 1. -/
def OnLine (text : List Char) (n : Nat) (shows : List Char → Prop) : Prop :=
  0 < n ∧ ∃ l, (lines text)[n - 1]? = some l ∧ shows l

/-! ## What is found on a line stands on it -/

theorem call_on_line {cs : List Char} {line : Nat} {c : Call} (h : c ∈ callsIn cs line) :
    c.line = line ∧ c.name.toList <:+: cs := by
  unfold callsIn at h
  obtain ⟨⟨word, back⟩, hword, hc⟩ := List.mem_filterMap.mp h
  dsimp only at hc
  split at hc
  · cases hc
    exact ⟨rfl, by simpa using (hasWord_of_mem_words hword).occurs⟩
  · cases hc

theorem keyword_on_line {cs : List Char} {line : Nat} {b : ControlFlow}
    (h : controlFlow? cs line = some b) : b.line = line ∧ HasWord cs b.keyword.name.toList := by
  unfold controlFlow? at h
  obtain ⟨k, hk, rfl⟩ := Option.map_eq_some_iff.mp h
  have hany := List.find?_some hk
  dsimp only at hany
  obtain ⟨⟨word, back⟩, hword, heq⟩ := List.any_eq_true.mp hany
  obtain rfl : word = k.name.toList := by simpa using heq
  exact ⟨rfl, hasWord_of_mem_words hword⟩

theorem declaration_on_line {cs : List Char} {line : Nat} {d : Declaration}
    (h : declaration? cs line = some d) : d.line = line ∧ d.name.toList <:+: cs := by
  unfold declaration? at h
  obtain ⟨declarator, hd, rfl⟩ := Option.map_eq_some_iff.mp h
  refine ⟨rfl, ?_⟩
  unfold declarator? at hd
  obtain ⟨typed, htyped, hd⟩ := Option.bind_eq_some_iff.mp hd
  obtain ⟨size, _, hd⟩ := Option.bind_eq_some_iff.mp hd
  cases hd
  obtain ⟨gap, hrun, _⟩ := typed?_parts (fun c hc => List.mem_takeWhile_imp hc) htyped
  have hname : typed.name <:+: (cs.dropWhile isBlank).takeWhile inPhrase := by
    rw [hrun]
    exact (List.suffix_append _ _).isInfix
  have hcs : (cs.dropWhile isBlank).takeWhile inPhrase <:+: cs :=
    (List.takeWhile_prefix _).isInfix.trans (List.dropWhile_suffix _).isInfix
  simpa using hname.trans hcs

/-! ## The lines of a body in the text -/

namespace Head

theorem take_stop {h : Head} {text : List Char} (hin : h.In text) :
    text.take h.stop = text.take h.start ++ h.signature.text := by
  unfold stop
  rw [List.take_add, ← List.prefix_iff_eq_take.mp hin]

def braceLine (h : Head) (text : List Char) : Nat := 1 + (text.take h.stop).count '\n'

/-- What stands before the body is no word, since a brace stands there. -/
theorem not_word_before {h : Head} {text : List Char} (hin : h.In text) {start : List Char}
    (hstart : start <:+ text.take h.stop) : start.getLast?.any isWord = false := by
  have hlast : (text.take h.stop).getLast? = some '\x7b' := by
    rw [take_stop hin, List.getLast?_append, Signature.getLast?_text]
    rfl
  by_cases hne : start = []
  · simp [hne]
  · obtain ⟨before, hbefore⟩ := hstart
    rw [← hbefore, List.getLast?_append_of_ne_nil _ hne] at hlast
    rw [hlast]
    rfl

/-- A numbered line of the body is the end of a line of the text. -/
theorem onLine_of_mem {h : Head} {text : List Char} (hin : h.In text) {k line : Nat} {l : List Char}
    (hl : (l, line) ∈ (bodyLines 1 (lines (text.drop h.stop))).zipIdx k) {shows : List Char → Prop}
    (hshows : ∀ start : List Char, start.getLast?.any isWord = false → shows (start ++ l)) :
    ∃ n, n + k = line + h.braceLine text ∧ OnLine text n shows := by
  obtain ⟨hk, hget⟩ := List.mk_mem_zipIdx_iff_le_and_getElem?_sub.mp hl
  obtain ⟨hlt, _⟩ := List.getElem?_eq_some_iff.mp hget
  obtain ⟨more, hmore⟩ := bodyLines_front 1 (lines (text.drop h.stop))
  have hbody : (lines (text.drop h.stop))[line - k]? = some l := by
    rw [← hmore, List.getElem?_append_left hlt, hget]
  obtain ⟨start, hline, hstart, _⟩ := lines_append (text.take h.stop) hbody
  rw [List.take_append_drop] at hline
  refine ⟨(text.take h.stop).count '\n' + (line - k) + 1, ?_, by omega, start ++ l, hline,
    hshows start (not_word_before hin hstart)⟩
  unfold braceLine
  omega

end Head

/-! ## Recorded numbers -/

/-- What the table says of a function stands in the text on the lines that are numbered from `first`
on where the table numbers them from the line behind the start of the head on. -/
structure Function.StandsFrom (f : Function) (text : List Char) (first : Nat) : Prop where
  calls : ∀ c ∈ f.calls, ∃ n, n + (f.startLine + 1) = c.line + first ∧
    OnLine text n (c.name.toList <:+: ·)
  locals : ∀ d ∈ f.locals, ∃ n, n + (f.startLine + 1) = d.line + first ∧
    OnLine text n (d.name.toList <:+: ·)
  controlFlow : ∀ b ∈ f.controlFlow, ∃ n, n + (f.startLine + 1) = b.line + first ∧
    OnLine text n (HasWord · b.keyword.name.toList)
  endLine : f.endLine + first ≤ (lines text).length + (f.startLine + 1)

/-- The numbers that the table gives are those of the lines of the text. -/
structure Function.Numbered (f : Function) (text : List Char) : Prop where
  calls : ∀ c ∈ f.calls, OnLine text c.line (c.name.toList <:+: ·)
  locals : ∀ d ∈ f.locals, OnLine text d.line (d.name.toList <:+: ·)
  controlFlow : ∀ b ∈ f.controlFlow, OnLine text b.line (HasWord · b.keyword.name.toList)
  endLine : f.endLine ≤ (lines text).length

theorem Function.StandsFrom.numbered {f : Function} {text : List Char}
    (h : f.StandsFrom text (f.startLine + 1)) : f.Numbered text := by
  have hsame {k line : Nat} {shows : List Char → Prop}
      (h : ∃ n, n + k = line + k ∧ OnLine text n shows) : OnLine text line shows := by
    obtain ⟨n, hn, hline⟩ := h
    rwa [Nat.add_right_cancel hn] at hline
  exact ⟨fun c hc => hsame (h.calls c hc), fun d hd => hsame (h.locals d hd),
    fun b hb => hsame (h.controlFlow b hb), Nat.le_of_add_le_add_right h.endLine⟩

theorem Head.standsFrom {h : Head} {text : List Char} (hin : h.In text) :
    (h.function text).StandsFrom text (h.braceLine text) := by
  have hcovers := h.covers text
  refine ⟨?_, ?_, ?_, ?_⟩
  · intro c hc
    rw [hcovers.calls] at hc
    obtain ⟨⟨cs, line⟩, hcs, hc⟩ := List.mem_flatMap.mp hc
    obtain ⟨hline, hname⟩ := call_on_line hc
    rw [hline]
    exact onLine_of_mem hin hcs fun start _ => hname.trans (List.suffix_append start cs).isInfix
  · intro d hd
    rw [hcovers.locals] at hd
    obtain ⟨⟨cs, line⟩, hcs, hd⟩ := List.mem_filterMap.mp hd
    obtain ⟨hline, hname⟩ := declaration_on_line hd
    rw [hline]
    exact onLine_of_mem hin hcs fun start _ => hname.trans (List.suffix_append start cs).isInfix
  · intro b hb
    rw [hcovers.controlFlow] at hb
    obtain ⟨⟨cs, line⟩, hcs, hb⟩ := List.mem_filterMap.mp hb
    obtain ⟨hline, hword⟩ := keyword_on_line hb
    rw [hline]
    exact onLine_of_mem hin hcs fun start hstart => hword.append_left hstart
  · have hbody := (bodyLines_front 1 (lines (text.drop h.stop))).length_le
    have hbreaks := breaks_add_drop text h.stop
    rw [lines_length] at hbody
    rw [hcovers.endLine, lines_length]
    unfold braceLine
    omega

/-- Every entry of a function is found in the text, the numbers of its lines being shifted by the
distance of the opening brace from the line behind the start of the head. They are the numbers of
the text where the brace stands on that line. -/
theorem functions_stand (text : String) (f : Function) (hf : f ∈ (summarize text).functions) :
    ∃ head : Head, head.In text.toList ∧ head.Gives text.toList f ∧
      f.StandsFrom text.toList (head.braceLine text.toList) ∧
      (head.braceLine text.toList = f.startLine + 1 → f.Numbered text.toList) := by
  obtain ⟨head, hin, rfl⟩ := exists_head_of_mem hf
  have hstands := head.standsFrom hin
  refine ⟨head, hin, head.gives _, hstands, ?_⟩
  intro hbrace
  rw [hbrace] at hstands
  exact hstands.numbered

/-- A head with its brace on the same line. -/
def braceBeside : String := "void f() \x7b\n    a();\n\x7d"

/-- The function of the text: the call, on line 2, and the end, on line 3, are numbered one too
high. -/
def shifted : Function where
  name := "f"
  returnType := "void"
  parameters := []
  startLine := 1
  endLine := 4
  locals := []
  calls := [⟨"a", 3⟩]
  controlFlow := []
  complexity := 1
  inputs := []
  outputs := []
  dependencies := ["a"]

theorem shifted_mem : shifted ∈ (summarize braceBeside).functions := by decide

/-- The function with its brace on the same line, and one with its brace on the next line. -/
theorem functions_stand_shifted :
    (shifted ∈ (summarize braceBeside).functions ∧
      ∃ head : Head, head.In braceBeside.toList ∧ head.Gives braceBeside.toList shifted ∧
        shifted.StandsFrom braceBeside.toList (head.braceLine braceBeside.toList) ∧
        (head.braceLine braceBeside.toList = shifted.startLine + 1 →
          shifted.Numbered braceBeside.toList)) ∧
    regular ∈ (summarize closedApart).functions ∧ regular.Numbered closedApart.toList := by
  refine ⟨⟨shifted_mem, functions_stand braceBeside shifted shifted_mem⟩, regular_mem, ?_⟩
  obtain ⟨head, hin, hgives, _, hnumbered⟩ := functions_stand closedApart regular regular_mem
  refine hnumbered ?_
  rw [Head.braceLine, stop_of_regular hin hgives]
  decide

/-- The line that is given for the call does not show it. -/
theorem shifted_not_numbered : shifted ∈ (summarize braceBeside).functions ∧
    ¬ OnLine braceBeside.toList 3 ("a".toList <:+: ·) ∧
    (lines braceBeside.toList).length < shifted.endLine ∧
    ¬ shifted.Numbered braceBeside.toList := by
  have hline : (lines braceBeside.toList)[3 - 1]? = some ['\x7d'] := by decide
  have hcall : ¬ OnLine braceBeside.toList 3 ("a".toList <:+: ·) := by
    intro ⟨_, l, hl, ha⟩
    obtain rfl : ['\x7d'] = l := Option.some.inj (hline.symm.trans hl)
    exact absurd (ha.subset (by decide : 'a' ∈ "a".toList)) (by decide)
  exact ⟨shifted_mem, hcall, by decide, fun h => hcall (h.calls ⟨"a", 3⟩ (by decide))⟩

end SourceAtlas.CSource
