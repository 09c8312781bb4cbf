import SourceAtlas.Proofs.CSource.LineNumbers

/-! # Struct definitions

A struct is read line by line, with at most one of them open at a time. What is reported is told by
the lines alone: a line that opens a struct and the next line that opens or closes one, where that
line closes it. So a struct that is opened anew before it is closed leaves no trace, and neither
does one that is never closed. -/

namespace SourceAtlas.CSource

open Text

/-! ## Lines that open and close a struct -/

/-- A line `struct name {`. -/
def OpensStruct (name line : List Char) : Prop :=
  ∃ margin gap space rest,
    line = margin ++ ("struct".toList ++ (gap ++ (name ++ (space ++ '\x7b' :: rest)))) ∧
      Gap margin ∧ Gap gap ∧ gap ≠ [] ∧ Word name ∧ Gap space

/-- A line `};`. -/
def ClosesStruct (line : List Char) : Prop :=
  ∃ margin space rest, line = margin ++ '\x7d' :: (space ++ ';' :: rest) ∧ Gap margin ∧ Gap space

theorem after?_eq_some {start : String} {cs rest : List Char} :
    after? start cs = some rest ↔ cs = start.toList ++ rest := by
  unfold after?
  rw [Option.ite_none_right_eq_some, List.isPrefixOf_iff_prefix, Option.some.injEq,
    ← String.length_toList]
  constructor
  · rintro ⟨⟨back, rfl⟩, h⟩
    rw [← h, List.drop_left]
  · rintro rfl
    exact ⟨List.prefix_append .., List.drop_left⟩

theorem structStart?_eq_some {line name : List Char} :
    structStart? line = some name ↔ OpensStruct name line := by
  constructor
  · intro h
    obtain ⟨margin, text, rfl, hmargin, -, -, htext⟩ := exists_run isBlank line
    unfold structStart? at h
    rw [htext, Option.bind_eq_bind, Option.bind_eq_some_iff] at h
    obtain ⟨back, hback, h⟩ := h
    obtain rfl := after?_eq_some.mp hback
    obtain ⟨gap, back, rfl, hgap, -, hgap', hback'⟩ := exists_run isBlank back
    obtain ⟨word, back, rfl, hword, -, hword', hback''⟩ := exists_run isWord back
    obtain ⟨space, back, rfl, hspace, -, -, hback'''⟩ := exists_run isBlank back
    simp only [hgap', hback', hword', hback'', hback''', Option.ite_none_left_eq_some,
      Option.some.injEq, Bool.or_eq_true, List.isEmpty_iff, decide_eq_true_eq, not_or,
      Decidable.not_not] at h
    obtain ⟨⟨⟨hne, hword₀⟩, hbrace⟩, rfl⟩ := h
    obtain ⟨rest, rfl⟩ := List.head?_eq_some_iff.mp hbrace
    exact ⟨margin, gap, space, rest, rfl, hmargin, hgap, hne, ⟨hword₀, hword⟩, hspace⟩
  · rintro ⟨margin, gap, space, rest, rfl, hmargin, hgap, hne, hname, hspace⟩
    have hletter : ("struct".toList ++ (gap ++ (name ++ (space ++ '\x7b' :: rest)))).head?.any
        isBlank = false := rfl
    have hbrace : ('\x7b' :: rest).head?.any isBlank = false := rfl
    have hend : (space ++ '\x7b' :: rest).head?.any isWord = false := by
      by_cases hs : space = []
      · rw [hs]
        rfl
      · exact hspace.head?_not_word hs _
    have hstart := head?_not_blank (hname.head? (space ++ '\x7b' :: rest))
    obtain ⟨hgap', hname'⟩ := span_append hgap hstart
    obtain ⟨hword', hspace'⟩ := span_append hname.all hend
    unfold structStart?
    rw [(span_append hmargin hletter).2, after?_eq_some.mpr rfl, Option.bind_eq_bind,
      Option.bind_some, hgap', hname']
    simp [hword', hspace', (span_append hspace hbrace).2, hne, hname.ne_nil]

theorem isStructEnd_iff {line : List Char} : isStructEnd line = true ↔ ClosesStruct line := by
  constructor
  · intro h
    obtain ⟨margin, text, rfl, hmargin, -, -, htext⟩ := exists_run isBlank line
    unfold isStructEnd at h
    rw [htext] at h
    split at h
    · next back =>
      obtain ⟨space, back, rfl, hspace, -, -, hback⟩ := exists_run isBlank back
      rw [hback, beq_iff_eq] at h
      obtain ⟨rest, rfl⟩ := List.head?_eq_some_iff.mp h
      exact ⟨margin, space, rest, rfl, hmargin, hspace⟩
    · cases h
  · rintro ⟨margin, space, rest, rfl, hmargin, hspace⟩
    have hbrace : ('\x7d' :: (space ++ ';' :: rest)).head?.any isBlank = false := rfl
    have hmark : (';' :: rest).head?.any isBlank = false := rfl
    unfold isStructEnd
    rw [(span_append hmargin hbrace).2]
    simp only [(span_append hspace hmark).2, List.head?_cons, beq_self_eq_true]

/-- No line does both: behind the margin one starts with a letter, the other with a brace. -/
theorem OpensStruct.not_closes {name line : List Char} (h : OpensStruct name line) :
    ¬ ClosesStruct line := by
  rintro ⟨margin, space, rest, hline, hmargin, -⟩
  obtain ⟨margin', gap, space', rest', hline', hmargin', -⟩ := h
  have hbrace : ('\x7d' :: (space ++ ';' :: rest)).head?.any isBlank = false := rfl
  have hletter : ("struct".toList ++ (gap ++ (name ++ (space' ++ '\x7b' :: rest')))).head?.any
      isBlank = false := rfl
  have hback := (span_append hmargin hbrace).2
  rw [← hline, hline', (span_append hmargin' hletter).2] at hback
  cases hback

/-! ## Lines that declare something -/

def sizeText : Option String → List Char
  | none => []
  | some size => '[' :: (size.toList ++ [']'])

/-- A line that begins with the declaration `type name;` or `type name[12];`. -/
def Declares (line : List Char) (d : Declaration) : Prop :=
  ∃ margin gap rest,
    line = margin ++ (d.type.toList ++ gap ++ d.name.toList ++
      (sizeText d.arraySize ++ ';' :: rest)) ∧
      Gap margin ∧ Phrase d.type.toList ∧ Gap gap ∧ gap ≠ [] ∧ Word d.name.toList ∧
      ∀ size ∈ d.arraySize, size ≠ "" ∧ ∀ c ∈ size.toList, isDecimal c = true

theorem arrayPart?_eq_some {cs : List Char} {size : Option (List Char)} :
    arrayPart? cs = some size ↔ ∃ rest, cs = sizeText (size.map String.ofList) ++ ';' :: rest ∧
      ∀ digits ∈ size, digits ≠ [] ∧ ∀ c ∈ digits, isDecimal c = true := by
  constructor
  · intro h
    unfold arrayPart? at h
    split at h
    · next rest =>
      cases h
      exact ⟨rest, rfl, nofun⟩
    · next back =>
      obtain ⟨digits, back, rfl, hdigits, -, htake, hdrop⟩ := exists_run isDecimal back
      rw [htake, hdrop] at h
      dsimp only at h
      split at h
      · next rest =>
        rw [Option.ite_none_left_eq_some, List.isEmpty_iff, Option.some.injEq] at h
        obtain ⟨hne, rfl⟩ := h
        refine ⟨rest, by simp [sizeText], ?_⟩
        rintro _ ⟨⟩
        exact ⟨hne, hdigits⟩
      · cases h
    · cases h
  · rintro ⟨rest, rfl, hsize⟩
    cases size with
    | none => rfl
    | some digits =>
      obtain ⟨hne, hdigits⟩ := hsize digits rfl
      have hmark : (']' :: ';' :: rest).head?.any isDecimal = false := rfl
      obtain ⟨htake, hdrop⟩ := span_append hdigits hmark
      simp [sizeText, arrayPart?, htake, hdrop, hne]

/-- A declaration is found on a line exactly where the line begins with it. -/
theorem declaration?_eq_some {line : List Char} {n : Nat} {d : Declaration} :
    declaration? line n = some d ↔ d.line = n ∧ Declares line d := by
  constructor
  · intro h
    unfold declaration? at h
    obtain ⟨declarator, hfound, rfl⟩ := Option.map_eq_some_iff.mp h
    refine ⟨rfl, ?_⟩
    obtain ⟨margin, text, rfl, hmargin, hfirst, -, htext⟩ := exists_run isBlank line
    obtain ⟨run, back, rfl, hrun, -, htake, hdrop⟩ := exists_run inPhrase text
    unfold declarator? at hfound
    simp only [htext, htake, hdrop, Option.bind_eq_bind, Option.bind_eq_some_iff] at hfound
    obtain ⟨typed, htyped, size, hsize, hpure⟩ := hfound
    cases hpure
    obtain ⟨rest, rfl, hdigits⟩ := arrayPart?_eq_some.mp hsize
    obtain ⟨gap, rfl, hgap, hne, hname, hlast⟩ := typed?_parts hrun htyped
    refine ⟨margin, gap, rest, by simp, hmargin, ?_, hgap, hne, by simpa using hname, ?_⟩
    · -- the type begins with a word since the margin is cut off
      have hnil : typed.type ≠ [] := by
        intro hnil
        simp [hnil] at hlast
      obtain ⟨c, cs, htype⟩ := List.exists_cons_of_ne_nil hnil
      have hhead : typed.type.head?.any isBlank = false := by simpa [htype] using hfirst
      have hall : ∀ c ∈ typed.type, inPhrase c = true := fun c hc => hrun c (by simp [hc])
      simpa using Phrase.of_ends hall (head?_word hall hnil hhead) hlast
    · intro text htext
      obtain ⟨digits, hmem, rfl⟩ := Option.map_eq_some_iff.mp htext
      simpa using hdigits digits hmem
  · rintro ⟨rfl, margin, gap, rest, rfl, hmargin, htype, hgap, hne, hname, hsize⟩
    have hrun : ∀ c ∈ d.type.toList ++ gap ++ d.name.toList, inPhrase c = true := by
      intro c hc
      simp only [List.mem_append] at hc
      obtain (hc | hc) | hc := hc
      · exact htype.all c hc
      · exact inPhrase_iff.mpr (.inr (hgap c hc))
      · exact inPhrase_iff.mpr (.inl (hname.all c hc))
    have hfirst (back : List Char) :
        (d.type.toList ++ gap ++ d.name.toList ++ back).head?.any isBlank = false := by
      have hhead := head?_not_blank htype.head?
      cases ht : d.type.toList with
      | nil => simpa [ht] using htype.head?
      | cons c cs => simpa [ht] using hhead
    have hmark : (sizeText d.arraySize ++ ';' :: rest).head?.any inPhrase = false := by
      cases d.arraySize <;> rfl
    obtain ⟨htake, hdrop⟩ := span_append hrun hmark
    have hpart : arrayPart? (sizeText d.arraySize ++ ';' :: rest) =
        some (d.arraySize.map String.toList) := by
      refine arrayPart?_eq_some.mpr ⟨rest, ?_, ?_⟩
      · cases d.arraySize <;> simp
      · intro digits hdigits
        obtain ⟨size, hmem, rfl⟩ := Option.map_eq_some_iff.mp hdigits
        simpa using hsize size hmem
    have hfound : declarator? (margin ++ (d.type.toList ++ gap ++ d.name.toList ++
        (sizeText d.arraySize ++ ';' :: rest))) =
          some ⟨⟨d.type.toList, d.name.toList⟩, d.arraySize.map String.toList⟩ := by
      unfold declarator?
      simp only [(span_append hmargin (hfirst _)).2, htake, hdrop, hpart,
        typed?_of_parts htype.getLast? hgap hne hname, Option.bind_eq_bind, Option.bind_some]
      rfl
    unfold declaration?
    rw [hfound]
    simp [Function.comp_def]

/-! ## What the lines say -/

def IsStart (line : List Char) : Prop := ∃ name, OpensStruct name line

/-- A line at which an open struct ends, by being closed or by another one being opened. -/
def IsBoundary (line : List Char) : Prop := IsStart line ∨ ClosesStruct line

/-- Line `s` opens a struct, line `e` closes one, and nothing opens or closes in between. -/
structure Spans (text : List Char) (s e : Nat) : Prop where
  lt : s < e
  opens : OnLine text s IsStart
  closes : OnLine text e ClosesStruct
  between : ∀ {i}, s < i → i < e → ¬ OnLine text i IsBoundary

/-- The declarations that stand on the lines between `s` and `e`, in order. -/
structure DeclaredBetween (text : List Char) (s e : Nat) (ds : List Declaration) : Prop where
  ordered : ds.Pairwise fun a b => a.line < b.line
  mem : ∀ d, d ∈ ds ↔ s < d.line ∧ d.line < e ∧ OnLine text d.line (Declares · d)

/-- What is reported of a struct stands in the text. -/
structure Struct.In (t : Struct) (text : List Char) : Prop where
  span : Spans text t.startLine t.endLine
  name : OnLine text t.startLine (OpensStruct t.name.toList)
  members : DeclaredBetween text t.startLine t.endLine t.members

/-- The struct that line `s` opens is open behind line `n`. -/
structure StillOpen (text : List Char) (n s : Nat) : Prop where
  le : s ≤ n
  opens : OnLine text s IsStart
  since : ∀ {i}, s < i → i ≤ n → ¬ OnLine text i IsBoundary

section Lines

variable {text line : List Char} {n s e : Nat} {shows : List Char → Prop}

theorem onLine_iff (hline : (lines text)[n]? = some line) :
    OnLine text (n + 1) shows ↔ shows line := by
  unfold OnLine
  rw [Nat.add_sub_cancel, hline]
  simp

theorem onLine_le (h : OnLine text n shows) : n ≤ (lines text).length := by
  obtain ⟨hpos, line, hline, -⟩ := h
  have := (List.getElem?_eq_some_iff.mp hline).1
  omega

/-- A struct ends where it is still open and the next line closes it. -/
theorem spans_succ :
    Spans text s (n + 1) ↔ StillOpen text n s ∧ OnLine text (n + 1) ClosesStruct := by
  constructor
  · intro h
    exact ⟨⟨Nat.le_of_lt_succ h.lt, h.opens, fun hs hn => h.between hs (Nat.lt_succ_of_le hn)⟩,
      h.closes⟩
  · rintro ⟨h, hcloses⟩
    exact ⟨Nat.lt_succ_of_le h.le, h.opens, hcloses, fun hs hn => h.since hs (Nat.le_of_lt_succ hn)⟩

/-- At most one struct is open at a time: the later one would have ended the earlier one. -/
theorem StillOpen.unique {s' : Nat} (h : StillOpen text n s) (h' : StillOpen text n s') :
    s = s' := by
  have hbefore {a b : Nat} (ha : StillOpen text n a) (hb : StillOpen text n b) : ¬ a < b := by
    intro hlt
    obtain ⟨hpos, line, hline, hstart⟩ := hb.opens
    exact ha.since hlt hb.le ⟨hpos, line, hline, .inl hstart⟩
  have := hbefore h h'
  have := hbefore h' h
  omega

/-- A struct is open behind the next line if it was before and the line is no boundary, or if the
line opens it. -/
theorem stillOpen_succ (hline : (lines text)[n]? = some line) : StillOpen text (n + 1) s ↔
    (s = n + 1 ∧ IsStart line) ∨ (StillOpen text n s ∧ ¬ IsBoundary line) := by
  constructor
  · intro h
    rcases Nat.lt_or_eq_of_le h.le with hlt | rfl
    · refine .inr ⟨⟨Nat.le_of_lt_succ hlt, h.opens, fun hs hn => h.since hs (by omega)⟩, ?_⟩
      exact mt (onLine_iff hline).mpr (h.since hlt (Nat.le_refl _))
    · exact .inl ⟨rfl, (onLine_iff hline).mp h.opens⟩
  · rintro (⟨rfl, hstart⟩ | ⟨h, hline'⟩)
    · exact ⟨Nat.le_refl _, (onLine_iff hline).mpr hstart, fun hs hn => by omega⟩
    · refine ⟨Nat.le_succ_of_le h.le, h.opens, fun {i} hs hn => ?_⟩
      rcases Nat.lt_or_eq_of_le hn with hlt | rfl
      · exact h.since hs (Nat.le_of_lt_succ hlt)
      · exact mt (onLine_iff hline).mp hline'

theorem DeclaredBetween.nil (text : List Char) (s : Nat) : DeclaredBetween text s (s + 1) [] :=
  ⟨.nil, fun d => ⟨nofun, fun ⟨hs, he, _⟩ => by omega⟩⟩

/-- The next line adds what it declares. -/
theorem DeclaredBetween.snoc {ds : List Declaration} (hline : (lines text)[n]? = some line)
    (hs : s ≤ n) (h : DeclaredBetween text s (n + 1) ds) :
    DeclaredBetween text s (n + 2) (ds ++ (declaration? line (n + 1)).toList) := by
  refine ⟨List.pairwise_append.mpr ⟨h.ordered, ?_, fun a ha b hb => ?_⟩, fun d => ?_⟩
  · cases declaration? line (n + 1) <;> simp
  · rw [Option.mem_toList, declaration?_eq_some] at hb
    have := (h.mem a).mp ha
    omega
  · rw [List.mem_append, h.mem, Option.mem_toList, declaration?_eq_some]
    constructor
    · rintro (⟨hlo, hhi, hd⟩ | ⟨hd, hdeclares⟩)
      · exact ⟨hlo, by omega, hd⟩
      · rw [hd]
        exact ⟨by omega, by omega, (onLine_iff hline).mpr hdeclares⟩
    · rintro ⟨hlo, hhi, hd⟩
      by_cases hn : d.line = n + 1
      · rw [hn, onLine_iff hline] at hd
        exact .inr ⟨hn, hd⟩
      · exact .inl ⟨hlo, by omega, hd⟩

/-- Structs that end on different lines have no line in common. -/
theorem Spans.lt_of_lt {s' e' : Nat} (h : Spans text s e) (h' : Spans text s' e') (hlt : e < e') :
    e < s' := by
  obtain ⟨hpos, line, hline, hcloses⟩ := h.closes
  by_contra hle
  rcases Nat.lt_or_eq_of_le (Nat.le_of_not_lt hle) with hlt' | rfl
  · exact h'.between hlt' hlt ⟨hpos, line, hline, .inr hcloses⟩
  · obtain ⟨-, line', hline', name, hopens⟩ := h'.opens
    cases hline.symm.trans hline'
    exact hopens.not_closes hcloses

end Lines

/-! ## One line after another -/

/-- The struct that is open behind line `n`, as far as it has been read. -/
inductive Pending (text : List Char) (n : Nat) : Option Struct → Prop
  | closed : (∀ s, ¬ StillOpen text n s) → Pending text n none
  | opened {t : Struct} : StillOpen text n t.startLine →
      OnLine text t.startLine (OpensStruct t.name.toList) →
      DeclaredBetween text t.startLine (n + 1) t.members → Pending text n (some t)

/-- The structs that end behind line `n`, in order. -/
structure Found (text : List Char) (n : Nat) (ts : List Struct) : Prop where
  ordered : ts.Pairwise fun a b => a.endLine < b.endLine
  sound : ∀ t ∈ ts, n < t.endLine ∧ t.In text
  complete : ∀ {s e}, n < e → Spans text s e → ∃ t ∈ ts, t.startLine = s ∧ t.endLine = e

section Run

variable {text line : List Char} {n : Nat} {ts : List Struct} {t : Struct}

/-- No struct ends on the next line. -/
theorem Found.skip (h : Found text (n + 1) ts) (hnone : ∀ s, ¬ Spans text s (n + 1)) :
    Found text n ts := by
  refine ⟨h.ordered, fun t ht => ?_, fun {s e} hn hspan => ?_⟩
  · obtain ⟨hlt, hin⟩ := h.sound t ht
    exact ⟨by omega, hin⟩
  · by_cases he : e = n + 1
    · exact absurd (he ▸ hspan) (hnone s)
    · exact h.complete (by omega) hspan

/-- A struct ends on the next line. -/
theorem Found.cons (h : Found text (n + 1) ts) (hend : t.endLine = n + 1) (hin : t.In text) :
    Found text n (t :: ts) := by
  refine ⟨List.pairwise_cons.mpr ⟨fun b hb => ?_, h.ordered⟩, fun b hb => ?_,
    fun {s e} hn hspan => ?_⟩
  · rw [hend]
    exact (h.sound b hb).1
  · rcases List.mem_cons.mp hb with rfl | hb
    · exact ⟨by omega, hin⟩
    · obtain ⟨hlt, hin⟩ := h.sound b hb
      exact ⟨by omega, hin⟩
  · by_cases he : e = n + 1
    · subst he
      -- the struct that ends there is the one that was open
      have hopen := hin.span
      rw [hend] at hopen
      have hstart := (spans_succ.mp hopen).1.unique (spans_succ.mp hspan).1
      exact ⟨t, List.mem_cons_self, hstart, hend⟩
    · obtain ⟨b, hb, hspan⟩ := h.complete (by omega) hspan
      exact ⟨b, List.mem_cons_of_mem _ hb, hspan⟩

/-- One line: it leaves another struct open, or none, and either no struct ends on it or the open
one does, which is then reported. -/
theorem structsFrom_cons {current : Option Struct} (h : Pending text n current)
    (hline : (lines text)[n]? = some line) (rest : List (List Char × Nat)) :
    ∃ next, Pending text (n + 1) next ∧
      ((structsFrom current ((line, n + 1) :: rest) = structsFrom next rest ∧
        ∀ s, ¬ Spans text s (n + 1)) ∨
      ∃ t, structsFrom current ((line, n + 1) :: rest) = t :: structsFrom next rest ∧
        t.endLine = n + 1 ∧ t.In text) := by
  have hcloses {s : Nat} (hspan : Spans text s (n + 1)) : ClosesStruct line :=
    (onLine_iff hline).mp hspan.closes
  cases hstart : structStart? line with
  | some name =>
    -- an open struct is forgotten
    have hopens := structStart?_eq_some.mp hstart
    have hstill := (stillOpen_succ hline).mpr (.inl ⟨rfl, name, hopens⟩)
    refine ⟨some ⟨String.ofList name, [], n + 1, n + 1⟩, .opened hstill ?_ (.nil text _),
      .inl ⟨?_, ?_⟩⟩
    · exact (onLine_iff hline).mpr (by simpa using hopens)
    · simp only [structsFrom, hstart]
    · exact fun s hspan => hopens.not_closes (hcloses hspan)
  | none =>
    have hnot : ¬ IsStart line := by
      rintro ⟨name, hopens⟩
      rw [structStart?_eq_some.mpr hopens] at hstart
      cases hstart
    cases h with
    | closed hnone =>
      refine ⟨none, .closed fun s hs => ?_, .inl ⟨by simp only [structsFrom, hstart], ?_⟩⟩
      · rcases (stillOpen_succ hline).mp hs with ⟨-, hopens⟩ | ⟨hs, -⟩
        · exact hnot hopens
        · exact hnone s hs
      · exact fun s hspan => hnone s (spans_succ.mp hspan).1
    | @opened t hopen hname hmembers =>
      cases hend : isStructEnd line with
      | true =>
        have hclosed := isStructEnd_iff.mp hend
        have hspan := spans_succ.mpr ⟨hopen, (onLine_iff hline).mpr hclosed⟩
        refine ⟨none, .closed fun s hs => ?_,
          .inr ⟨{ t with endLine := n + 1 }, ?_, rfl, ⟨hspan, hname, hmembers⟩⟩⟩
        · rcases (stillOpen_succ hline).mp hs with ⟨-, hopens⟩ | ⟨-, hline'⟩
          · exact hnot hopens
          · exact hline' (.inr hclosed)
        · simp only [structsFrom, hstart, hend, if_true]
      | false =>
        have hopen' : ¬ ClosesStruct line := by
          rw [← isStructEnd_iff, hend]
          exact Bool.false_ne_true
        have hstill := (stillOpen_succ hline).mpr (.inr ⟨hopen, not_or.mpr ⟨hnot, hopen'⟩⟩)
        refine ⟨some { t with members := t.members ++ (declaration? line (n + 1)).toList },
          .opened hstill hname (hmembers.snoc hline hopen.le), .inl ⟨?_, ?_⟩⟩
        · simp only [structsFrom, hstart, hend, Bool.false_eq_true, if_false]
        · exact fun s hspan => hopen' (hcloses hspan)

/-- The lines from line `n + 1` on give the structs that end on them. -/
theorem structsFrom_found {current : Option Struct} (h : Pending text n current)
    {rest : List (List Char)} (hrest : (lines text).drop n = rest) :
    Found text n (structsFrom current (rest.zipIdx (n + 1))) := by
  induction rest generalizing n current with
  | nil =>
    refine ⟨.nil, nofun, fun {s e} hn hspan => ?_⟩
    have := onLine_le hspan.closes
    have := List.drop_eq_nil_iff.mp hrest
    omega
  | cons line rest ih =>
    have hline : (lines text)[n]? = some line := by rw [← List.head?_drop, hrest]; rfl
    have hdrop : (lines text).drop (n + 1) = rest := by rw [← List.drop_drop, hrest]; rfl
    rw [List.zipIdx_cons]
    obtain ⟨next, hnext, ⟨heq, hnone⟩ | ⟨t, heq, hend, hin⟩⟩ :=
      structsFrom_cons h hline (rest.zipIdx (n + 1 + 1))
    · rw [heq]
      exact (ih hnext hdrop).skip hnone
    · rw [heq]
      exact (ih hnext hdrop).cons hend hin

end Run

/-- The structs of a text are the pairs of a line that opens one and the next line that opens or
closes one, where that line closes it. They stand in order and have no line in common. A struct has
the name that its first line gives, and its members are the declarations on the lines in between, in
order and with the numbers of their lines. -/
theorem structs_span (text : String) :
    let found := (summarize text).structs
    (∀ s e, (∃ t ∈ found, t.startLine = s ∧ t.endLine = e) ↔ Spans text.toList s e) ∧
    found.Pairwise (fun a b => a.endLine < b.startLine) ∧
    ∀ t ∈ found, OnLine text.toList t.startLine (OpensStruct t.name.toList) ∧
      DeclaredBetween text.toList t.startLine t.endLine t.members := by
  intro found
  have hnone : Pending text.toList 0 none := by
    refine .closed fun s hs => ?_
    obtain ⟨hpos, _⟩ := hs.opens
    have := hs.le
    omega
  have h : Found text.toList 0 found := structsFrom_found hnone (List.drop_zero ..)
  refine ⟨fun s e => ⟨?_, ?_⟩, ?_, fun t ht => ?_⟩
  · rintro ⟨t, ht, rfl, rfl⟩
    exact (h.sound t ht).2.span
  · intro hspan
    exact h.complete (Nat.zero_lt_of_lt hspan.lt) hspan
  · refine h.ordered.imp_of_mem fun {a b} ha hb hlt => ?_
    exact (h.sound a ha).2.span.lt_of_lt (h.sound b hb).2.span hlt
  · have hin := (h.sound t ht).2
    exact ⟨hin.name, hin.members⟩

/-- The struct `a` is opened but not closed before `b` is, `c` is closed on its first line, and `d`
not at all. -/
example : (summarize ("struct a \x7b\n struct b\x7b\n  int x;\n\tchar s[12];\n\x7d ;\n\x7d;\n" ++
      "struct c \x7b \x7d;\nstruct d \x7b")).structs =
    [⟨"b", [⟨"int", "x", none, 3⟩, ⟨"char", "s", some "12", 4⟩], 2, 5⟩] := by
  decide

end SourceAtlas.CSource
