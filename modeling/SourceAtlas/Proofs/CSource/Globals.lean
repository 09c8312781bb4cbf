import SourceAtlas.CSource.Summary
import SourceAtlas.Proofs.CSource.Structs

/-! # Members among the globals

The line of a member declares a global as well, with the same name and the same size of an array.
The two readings differ in the storage class alone: a keyword at the very front of the line is one
if a whole declaration still stands behind it, and then it is no part of the type. -/

namespace SourceAtlas.CSource

open Text

/-! ## Counting words -/

section Words

variable {w g p rest : List Char}

theorem inPhrase_of_word (hw : Word w) : ∀ c ∈ w, inPhrase c = true :=
  fun c hc => inPhrase_iff.mpr (.inl (hw.all c hc))

theorem inPhrase_of_gap (hg : Gap g) : ∀ c ∈ g, inPhrase c = true :=
  fun c hc => inPhrase_iff.mpr (.inr (hg c hc))

theorem wordsFrom_word (hw : ∀ c ∈ w, isWord c = true) (hrest : rest.head?.any isWord = false) :
    wordsFrom true (w ++ rest) = words rest := by
  induction w with
  | nil =>
    cases rest with
    | nil => rfl
    | cons c rest =>
      have hc : isWord c = false := by simpa using hrest
      simp [words, wordsFrom, hc]
  | cons c w ih =>
    obtain ⟨hc, hw⟩ := List.forall_mem_cons.mp hw
    rw [List.cons_append, wordsFrom, if_pos hc, if_pos rfl, ih hw]

theorem words_word (hw : Word w) (hrest : rest.head?.any isWord = false) :
    words (w ++ rest) = (w, rest) :: words rest := by
  obtain ⟨htake, hdrop⟩ := span_append hw.all hrest
  obtain ⟨c, w, rfl⟩ := List.exists_cons_of_ne_nil hw.ne_nil
  obtain ⟨hc, hall⟩ := List.forall_mem_cons.mp hw.all
  rw [List.cons_append] at htake hdrop ⊢
  rw [words, wordsFrom, if_pos hc, if_neg Bool.false_ne_true, htake, hdrop,
    wordsFrom_word hall hrest]

theorem words_gap (hg : Gap g) : words (g ++ rest) = words rest := by
  induction g with
  | nil => rfl
  | cons c g ih =>
    obtain ⟨hc, hg⟩ := List.forall_mem_cons.mp hg
    rw [List.cons_append, words, wordsFrom, if_neg (by simp [not_isWord_of_isBlank hc])]
    exact ih hg

theorem words_more (hw : Word w) (hg : Gap g) (hne : g ≠ []) :
    words (w ++ g ++ rest) = (w, g ++ rest) :: words rest := by
  rw [List.append_assoc, words_word hw (hg.head?_not_word hne rest), words_gap hg]

theorem words_singleton (hw : Word w) : words w = [(w, [])] := by
  simpa [words, wordsFrom] using @words_word w [] hw rfl

theorem words_ne_nil (h : p.head?.any isWord = true) : words p ≠ [] := by
  cases p with
  | nil => simp at h
  | cons c p =>
    have hc : isWord c = true := by simpa using h
    simp [words, wordsFrom, hc]

theorem Phrase.head?_append (hp : Phrase p) (rest : List Char) :
    (p ++ rest).head?.any isWord = true := by
  have hhead := hp.head?
  cases p with
  | nil => simp at hhead
  | cons c p => simpa using hhead

/-- A phrase and one more word are at least two words. -/
theorem two_le_words (hp : Phrase p) (hg : Gap g) (hne : g ≠ []) (hw : Word w) :
    2 ≤ (words (p ++ g ++ w)).length := by
  cases hp with
  | word hp =>
    rw [words_more hp hg hne, words_singleton hw]
    exact Nat.le_refl _
  | @more v gap p hv hgap hgap' hp =>
    have hrest := words_ne_nil (hp.head?_append (g ++ w))
    rw [show v ++ gap ++ p ++ g ++ w = v ++ gap ++ (p ++ (g ++ w)) by simp,
      words_more hv hgap hgap', List.length_cons]
    exact Nat.succ_le_succ (List.length_pos_iff.mpr hrest)

end Words

/-! ## Behind a keyword at the front -/

/-- A line on which a keyword stands at the very front and at least two words between it and the end
of the declared name. -/
def Stores (keyword : String) (d : Declaration) (line : List Char) : Prop :=
  ∃ front rest, line =
      keyword.toList ++ (front ++ d.name.toList ++ (sizeText d.arraySize ++ ';' :: rest)) ∧
    (∀ c ∈ front, inPhrase c = true) ∧ 2 ≤ (words (front ++ d.name.toList)).length

/-- What is left of a type behind a keyword at its front and the white space that follows. -/
def Behind (keyword type left : String) : Prop :=
  ∃ space, type.toList = keyword.toList ++ space ++ left.toList ∧ Gap space ∧
    left.toList.head?.any isBlank = false

section Behind

variable {keyword : String} {back : List Char} {d : Declaration}

/-- A word at the front of a declaration is the beginning of its type. -/
theorem Declares.front {word : List Char} (hword : Word word) (h : Declares (word ++ back) d) :
    ∃ t gap rest, d.type.toList = word ++ t ∧
      back = t ++ gap ++ d.name.toList ++ (sizeText d.arraySize ++ ';' :: rest) ∧
      Gap gap ∧ gap ≠ [] ∧ (t = [] ∨ ∃ space p, t = space ++ p ∧ Gap space ∧ Phrase p) := by
  obtain ⟨margin, gap, rest, hline, hmargin, htype, hgap, hne, hname, -⟩ := h
  have hfirst := head?_not_blank (hword.head? back)
  obtain rfl : margin = [] := by
    cases margin with
    | nil => rfl
    | cons c margin =>
      rw [hline] at hfirst
      simp [hmargin c List.mem_cons_self] at hfirst
  have hcut : word ++ back =
      d.type.toList ++ (gap ++ d.name.toList ++ (sizeText d.arraySize ++ ';' :: rest)) := by
    simpa using hline
  rcases List.append_eq_append_iff.mp hcut with ⟨t, ht, hback⟩ | ⟨more, hmore, hgap'⟩
  · refine ⟨t, gap, rest, ht, by simpa using hback, hgap, hne, ?_⟩
    obtain ⟨space, p, rfl, hspace, hstop, -, -⟩ := exists_run isBlank t
    have hlast := htype.getLast?
    rw [ht, ← List.append_assoc] at hlast
    by_cases hp : p = []
    · -- the type does not end with white space
      subst hp
      refine .inl (List.append_eq_nil_iff.mpr ⟨?_, rfl⟩)
      by_contra hspace'
      rw [List.append_nil, List.getLast?_append_of_ne_nil _ hspace', ← List.head?_reverse] at hlast
      have hnot := (Gap.reverse hspace).head?_not_word (by simpa using hspace') []
      rw [List.append_nil, hlast] at hnot
      cases hnot
    · have hall : ∀ c ∈ p, inPhrase c = true := fun c hc => htype.all c (by simp [ht, hc])
      rw [List.getLast?_append_of_ne_nil _ hp] at hlast
      exact .inr ⟨space, p, rfl, hspace, Phrase.of_ends hall (head?_word hall hp hstop) hlast⟩
  · -- white space follows the type, so the word does not reach behind it
    obtain rfl : more = [] := by
      cases more with
      | nil => rfl
      | cons c more =>
        obtain ⟨g, gap, rfl⟩ := List.exists_cons_of_ne_nil hne
        obtain ⟨rfl, -⟩ := List.cons_eq_cons.mp hgap'
        have hc := hword.all g (by simp [hmore])
        simp [not_isWord_of_isBlank (hgap g List.mem_cons_self)] at hc
    exact ⟨[], gap, rest, by simpa using hmore.symm, by simpa using hgap'.symm, hgap, hne, .inl rfl⟩

/-- One word alone declares nothing. -/
theorem typed?_word {w : List Char} (hw : Word w) : typed? w = none := by
  cases h : typed? w with
  | none => rfl
  | some d =>
    obtain ⟨gap, hp, hgap, hne, -⟩ := typed?_parts (inPhrase_of_word hw) h
    obtain ⟨c, gap, rfl⟩ := List.exists_cons_of_ne_nil hne
    have hc := hw.all c (by simp [hp])
    simp [not_isWord_of_isBlank (hgap c List.mem_cons_self)] at hc

theorem declaration?_word {gap name rest : List Char} {n : Nat} (size : Option String)
    (hgap : Gap gap) (hname : Word name) :
    declaration? (gap ++ name ++ (sizeText size ++ ';' :: rest)) n = none := by
  have hmark : (sizeText size ++ ';' :: rest).head?.any inPhrase = false := by cases size <;> rfl
  have hstart := head?_not_blank (hname.head? (sizeText size ++ ';' :: rest))
  unfold declaration? declarator?
  simp only [List.append_assoc, (span_append hgap hstart).2,
    (span_append (inPhrase_of_word hname) hmark).1, typed?_word hname]
  rfl

/-- The end of the name is where the first character stands that belongs to no phrase. -/
theorem name_end {front front' name rest rest' : List Char} {size : Option String}
    (hfront : ∀ c ∈ front, inPhrase c = true) (hfront' : ∀ c ∈ front', inPhrase c = true)
    (hname : Word name) (h : front ++ name ++ (sizeText size ++ ';' :: rest) =
      front' ++ name ++ (sizeText size ++ ';' :: rest')) : front = front' := by
  have hrun {front : List Char} (rest : List Char) (hfront : ∀ c ∈ front, inPhrase c = true) :
      (front ++ name ++ (sizeText size ++ ';' :: rest)).takeWhile inPhrase = front ++ name := by
    have hmark : (sizeText size ++ ';' :: rest).head?.any inPhrase = false := by cases size <;> rfl
    exact (span_append (List.forall_mem_append.mpr ⟨hfront, inPhrase_of_word hname⟩) hmark).1
  have htake := congrArg (List.takeWhile inPhrase) h
  rw [hrun rest hfront, hrun rest' hfront'] at htake
  exact List.append_cancel_right htake

/-- Behind a keyword at the front, the line goes on with the rest of the declaration if that has two
words, and with none otherwise. -/
theorem declaration?_behind (hkeyword : Word keyword.toList)
    (h : Declares (keyword.toList ++ back) d) :
    (Stores keyword d (keyword.toList ++ back) ∧
      ∃ left, Behind keyword d.type left ∧
        declaration? back d.line = some { d with type := left }) ∨
    (¬ Stores keyword d (keyword.toList ++ back) ∧ declaration? back d.line = none) := by
  obtain ⟨t, gap, rest, htype, hback, hgap, hne, ht⟩ := h.front hkeyword
  obtain ⟨_, _, _, -, -, -, -, -, hname, hsize⟩ := h
  subst hback
  rcases ht with rfl | ⟨space, p, rfl, hspace, hp⟩
  · refine .inr ⟨?_, declaration?_word d.arraySize hgap hname⟩
    rintro ⟨front, rest', hline, hfront, hcount⟩
    obtain rfl := name_end (inPhrase_of_gap hgap) hfront hname (List.append_cancel_left hline)
    rw [words_gap hgap, words_singleton hname, List.length_singleton] at hcount
    omega
  · have hfront : ∀ c ∈ space ++ p ++ gap, inPhrase c = true := by
      simp only [List.forall_mem_append]
      exact ⟨⟨inPhrase_of_gap hspace, hp.all⟩, inPhrase_of_gap hgap⟩
    refine .inl ⟨⟨space ++ p ++ gap, rest, by simp, hfront, ?_⟩, String.ofList p, ?_, ?_⟩
    · rw [show space ++ p ++ gap ++ d.name.toList = space ++ (p ++ gap ++ d.name.toList) by simp,
        words_gap hspace]
      exact two_le_words hp hgap hne hname
    · exact ⟨space, by simp [htype], hspace, by simpa using head?_not_blank hp.head?⟩
    · refine declaration?_eq_some.mpr ⟨rfl, space, gap, rest, ?_, hspace, ?_, hgap, hne,
        hname, hsize⟩
      · simp
      · simpa using hp

end Behind

/-! ## The global of a line -/

def Declaration.global (d : Declaration) (storageClass : Option String) : Global :=
  ⟨d.name, d.type, storageClass, d.arraySize, d.line⟩

def Declarator.declaration (d : Declarator) (n : Nat) : Declaration :=
  ⟨String.ofList d.typed.type, String.ofList d.typed.name, d.arraySize.map String.ofList, n⟩

/-- The entry for a line that begins with a storage class. -/
def stored? (line : List Char) (n : Nat) (keyword : String) : Option Global :=
  ((after? keyword line).bind (declaration? · n)).map (·.global (some keyword))

def storageClasses : List String := ["extern", "static"]

/-- What the entry for a line tells of the declaration that the line begins with. -/
structure Global.Of (g : Global) (d : Declaration) (line : List Char) : Prop where
  name : g.name = d.name
  arraySize : g.arraySize = d.arraySize
  stored : ∀ keyword ∈ storageClasses, Stores keyword d line →
    g.storageClass = some keyword ∧ Behind keyword d.type g.type
  plain : (∀ keyword ∈ storageClasses, ¬ Stores keyword d line) →
    g.storageClass = none ∧ g.type = d.type

section Line

variable {line : List Char} {d : Declaration} {n : Nat}

/-- Behind its margin, a line that declares something starts with a word. -/
theorem Declares.exists_cons (h : Declares line d) :
    ∃ c cs, line.dropWhile isBlank = c :: cs ∧ isWord c = true := by
  obtain ⟨margin, gap, rest, rfl, hmargin, htype, -⟩ := h
  rw [List.append_assoc, List.append_assoc]
  have hword := htype.head?_append (gap ++ (d.name.toList ++ (sizeText d.arraySize ++ ';' :: rest)))
  rw [(span_append hmargin (head?_not_blank hword)).2]
  cases hback :
    d.type.toList ++ (gap ++ (d.name.toList ++ (sizeText d.arraySize ++ ';' :: rest))) with
  | nil => simp [hback] at hword
  | cons c cs => exact ⟨c, cs, rfl, by simpa [hback] using hword⟩

theorem Declares.not_directive (h : Declares line d) : isDirective line = false := by
  obtain ⟨c, cs, hline, hc⟩ := h.exists_cons
  have hmark : c ≠ '#' := by
    rintro rfl
    exact absurd hc (by decide)
  simpa [isDirective, hline] using hmark

theorem stored?_eq (keyword : String) : stored? line n keyword =
    ((after? keyword line).bind declarator?).map fun d =>
      (d.declaration n).global (some keyword) := by
  unfold stored?
  cases after? keyword line with
  | none => rfl
  | some back => exact Option.map_map ..

/-- A line that begins with a declaration declares a global there, with the first storage class that
leaves a declaration behind it. -/
theorem global?_declares (h : Declares line d) : global? line d.line =
    (stored? line d.line "extern" <|> stored? line d.line "static" <|> some (d.global none)) := by
  obtain ⟨found, hfound, hd⟩ := Option.map_eq_some_iff.mp (declaration?_eq_some.mpr ⟨rfl, h⟩)
  have hplain : d.global none = (found.declaration d.line).global none :=
    congrArg (Declaration.global · none) hd.symm
  obtain ⟨_, _, hcons, -⟩ := h.exists_cons
  cases line with
  | nil => cases hcons
  | cons c cs =>
    unfold global? globalIn? globalAt?
    rw [h.not_directive, if_neg Bool.false_ne_true, stored?_eq, stored?_eq, hfound, hplain]
    dsimp only
    cases (after? "extern" (c :: cs)).bind declarator? with
    | some found => rfl
    | none => cases (after? "static" (c :: cs)).bind declarator? <;> rfl

/-- A keyword at the front is a storage class exactly where two words stand behind it. -/
theorem stored?_cases {keyword : String} (hkeyword : Word keyword.toList) (h : Declares line d) :
    (Stores keyword d line ∧ ∃ left, Behind keyword d.type left ∧
      stored? line d.line keyword = some ({ d with type := left }.global (some keyword))) ∨
    (¬ Stores keyword d line ∧ stored? line d.line keyword = none) := by
  unfold stored?
  cases hafter : after? keyword line with
  | none =>
    refine .inr ⟨?_, rfl⟩
    rintro ⟨front, rest, hline, -⟩
    rw [after?_eq_some.mpr hline] at hafter
    cases hafter
  | some back =>
    obtain rfl := after?_eq_some.mp hafter
    rw [Option.bind_some]
    rcases declaration?_behind hkeyword h with ⟨hstores, left, hleft, heq⟩ | ⟨hstores, heq⟩
    · exact .inl ⟨hstores, left, hleft, by rw [heq]; rfl⟩
    · exact .inr ⟨hstores, by rw [heq]; rfl⟩

theorem word_of_mem {keyword : String} (h : keyword ∈ storageClasses) : Word keyword.toList := by
  have hall : (storageClasses.all fun keyword =>
      !keyword.toList.isEmpty && keyword.toList.all isWord) = true := by decide
  have hkeyword := List.all_eq_true.mp hall keyword h
  rw [Bool.and_eq_true, Bool.not_eq_true', List.isEmpty_eq_false_iff, List.all_eq_true] at hkeyword
  exact ⟨hkeyword.1, hkeyword.2⟩

/-- A line does not begin with both storage classes. -/
theorem Stores.unique {keyword other : String} (hkeyword : keyword ∈ storageClasses)
    (hother : other ∈ storageClasses) (h : Stores keyword d line) (h' : Stores other d line) :
    keyword = other := by
  have hlength : ∀ keyword ∈ storageClasses, keyword.toList.length = 6 := by decide
  obtain ⟨_, _, hline, -⟩ := h
  obtain ⟨_, _, hline', -⟩ := h'
  have hsame := (hlength keyword hkeyword).trans (hlength other hother).symm
  exact String.toList_inj.mp (List.append_inj_left (hline.symm.trans hline') hsame)

theorem of_stored {keyword left : String} (hkeyword : keyword ∈ storageClasses)
    (h : Stores keyword d line) (hleft : Behind keyword d.type left) :
    ({ d with type := left }.global (some keyword)).Of d line := by
  refine ⟨rfl, rfl, fun other hother hstores => ?_, fun hnone => absurd h (hnone keyword hkeyword)⟩
  obtain rfl := h.unique hkeyword hother hstores
  exact ⟨rfl, hleft⟩

/-- The entry for a line that begins with a declaration. -/
theorem exists_global (h : Declares line d) : ∃ g, global? line d.line = some g ∧ g.Of d line := by
  have hextern : "extern" ∈ storageClasses := by decide
  have hstatic : "static" ∈ storageClasses := by decide
  rw [global?_declares h]
  rcases stored?_cases (word_of_mem hextern) h with ⟨hstores, left, hleft, heq⟩ | ⟨hextern', heq⟩
  · rw [heq]
    exact ⟨_, rfl, of_stored hextern hstores hleft⟩
  rcases stored?_cases (word_of_mem hstatic) h with ⟨hstores, left, hleft, heq'⟩ | ⟨hstatic', heq'⟩
  · rw [heq, heq']
    exact ⟨_, rfl, of_stored hstatic hstores hleft⟩
  · rw [heq, heq']
    have hnone : ∀ keyword ∈ storageClasses, ¬ Stores keyword d line := by
      simp [storageClasses, hextern', hstatic']
    exact ⟨_, rfl, rfl, rfl, fun keyword hkeyword h => absurd h (hnone keyword hkeyword),
      fun _ => ⟨rfl, rfl⟩⟩

end Line

/-! ## The globals of a text -/

theorem global?_line {line : List Char} {n : Nat} {g : Global} (h : global? line n = some g) :
    g.line = n := by
  unfold global? at h
  rw [Option.ite_none_left_eq_some] at h
  obtain ⟨⟨storageClass, d⟩, -, rfl⟩ := Option.map_eq_some_iff.mp h.2
  rfl

/-- Where each line gives an entry with its own number or none, one line gives all entries with its
number. -/
theorem filter_line {f : List Char × Nat → Option Global}
    (hf : ∀ {numbered g}, f numbered = some g → g.line = numbered.2) {ls : List (List Char)}
    {line : List Char} {n : Nat} (hline : ls[n]? = some line) :
    ((ls.zipIdx 1).filterMap f).filter (·.line = n + 1) = (f (line, n + 1)).toList := by
  obtain ⟨hn, hget⟩ := List.getElem?_eq_some_iff.mp hline
  have hsplit : ls = ls.take n ++ ([line] ++ ls.drop (n + 1)) := by
    rw [← hget, List.singleton_append, List.getElem_cons_drop, List.take_append_drop]
  have hother {ls : List (List Char)} {k : Nat} (h : k + ls.length ≤ n + 1 ∨ n + 1 < k) :
      ((ls.zipIdx k).filterMap f).filter (·.line = n + 1) = [] := by
    rw [List.filter_eq_nil_iff]
    intro g hg
    obtain ⟨⟨cs, i⟩, hmem, hg⟩ := List.mem_filterMap.mp hg
    have hi := List.mem_zipIdx hmem
    rw [hf hg, decide_eq_true_eq]
    omega
  have hself : (([line].zipIdx (n + 1)).filterMap f).filter (·.line = n + 1) =
      (f (line, n + 1)).toList := by
    cases hg : f (line, n + 1) with
    | none => simp [hg]
    | some g => simp [hg, hf hg]
  have hlength : (ls.take n).length = n := List.length_take_of_le (Nat.le_of_lt hn)
  rw [hsplit, List.zipIdx_append, List.zipIdx_append, hlength, Nat.add_comm 1 n,
    List.filterMap_append, List.filterMap_append, List.filter_append, List.filter_append, hself,
    hother (.inl (by omega)), hother (.inr (by simp)), List.nil_append, List.append_nil]

/-- The entries for a line are the one that the line declares. -/
theorem globals_line {text line : List Char} {n : Nat} (hline : (lines text)[n]? = some line) :
    (globals text).filter (·.line = n + 1) = (global? line (n + 1)).toList :=
  filter_line global?_line hline

theorem structs_found (text : List Char) : Found text 0 (structs text) := by
  refine structsFrom_found (.closed fun s hs => ?_) (List.drop_zero ..)
  obtain ⟨hpos, -⟩ := hs.opens
  have := hs.le
  omega

/-- Every member of a struct is found once more, on its line, among the globals: with its name and
size, and with its type less a storage class at the front of the line. -/
theorem member_among_globals (text : String) {t : Struct} (ht : t ∈ (summarize text).structs)
    {d : Declaration} (hd : d ∈ t.members) : OnLine text.toList d.line fun line =>
      ∃ g, (summarize text).globals.filter (·.line = d.line) = [g] ∧ g.Of d line := by
  have hmember := (((structs_found text.toList).sound t ht).2.members.mem d).mp hd
  obtain ⟨-, -, hpos, line, hline, hdeclares⟩ := hmember
  obtain ⟨g, hg, hof⟩ := exists_global hdeclares
  have hentries := globals_line hline
  rw [Nat.sub_add_cancel hpos, hg] at hentries
  exact ⟨hpos, line, hline, g, hentries, hof⟩

def storedMember : String := "struct s \x7b\nstatic int x;\n\x7d;"

theorem member_among_globals_static :
    ⟨"s", [⟨"static int", "x", none, 2⟩], 1, 3⟩ ∈ (summarize storedMember).structs ∧
    OnLine storedMember.toList 2 fun line =>
      ∃ g, (summarize storedMember).globals.filter (·.line = 2) = [g] ∧
        g.Of ⟨"static int", "x", none, 2⟩ line := by
  have ht : ⟨"s", [⟨"static int", "x", none, 2⟩], 1, 3⟩ ∈ (summarize storedMember).structs := by
    decide
  exact ⟨ht, member_among_globals storedMember ht List.mem_cons_self⟩

/-- A storage class counts at the very front of a line only, with two words behind it, and no white
space needs to follow it. -/
example : (summarize
    "struct s \x7b\nstatic int x;\n static int y;\nstatic z;\nexterned e[2];\n\x7d;").globals =
    [⟨"x", "int", some "static", none, 2⟩, ⟨"y", "static int", none, none, 3⟩,
      ⟨"z", "static", none, none, 4⟩, ⟨"e", "ed", some "extern", some "2", 5⟩] := by
  decide

end SourceAtlas.CSource
