import SourceAtlas.Svg.Drawing
import SourceAtlas.Proofs.Markup.Scanner

/-! # Drawings read back

The steps of a drawing describe figures: groups that hold figures, shapes, and labels with a text.
The document of a drawing, read by a plain scanner, is one element that shows exactly these figures,
with every value and every text as it was given. -/

namespace SourceAtlas.Svg

open Markup (Token Piece Frame IsName isNameChar step scan nest read? flush)

/-! ## What a drawing describes -/

inductive Figure where
  | group (tag : String) (attributes : Attributes) (parts : List Figure)
  | shape (tag : String) (attributes : Attributes)
  | label (tag : String) (attributes : Attributes) (text : String)

/-- The figures when the open groups, the innermost first, are closed. -/
def closeAll : List (Frame Figure) → List Figure → List Figure
  | [], done => done
  | f :: outer, done => closeAll outer (f.before ++ [.group f.tag f.attributes done])

/-- The figures of a drawing; `done` holds those of the innermost open group. -/
def figuresFrom (opened : List (Frame Figure)) (done : List Figure) : Drawing → List Figure
  | [] => closeAll opened done
  | .enter tag attributes :: rest => figuresFrom (⟨tag, attributes, done⟩ :: opened) [] rest
  | .leave :: rest =>
    match opened with
    | [] => figuresFrom [] done rest
    | f :: outer => figuresFrom outer (f.before ++ [.group f.tag f.attributes done]) rest
  | .element tag attributes :: rest => figuresFrom opened (done ++ [.shape tag attributes]) rest
  | .text tag attributes content :: rest =>
    figuresFrom opened (done ++ [.label tag attributes content]) rest

def figures (drawing : Drawing) : List Figure := figuresFrom [] [] drawing

def textPieces (text : String) : List Piece := if text = "" then [] else [.chars text]

/-- Whether a piece is more than white space between elements. -/
def isSolid : Piece → Bool
  | .chars text => !text.toList.all Char.isWhitespace
  | .element _ _ _ => true

/-- A piece that shows a figure: the same tag and attributes, nothing inside a shape, the text
inside a label, and inside a group the parts with only white space between them. -/
inductive Shows : Piece → Figure → Prop
  | shape (tag : String) (attributes : Attributes) :
      Shows (.element tag attributes []) (.shape tag attributes)
  | label (tag : String) (attributes : Attributes) (text : String) :
      Shows (.element tag attributes (textPieces text)) (.label tag attributes text)
  | group (tag : String) (attributes : Attributes) {content : List Piece} {parts : List Figure}
      (inside : List.Forall₂ Shows (content.filter isSolid) parts) :
      Shows (.element tag attributes content) (.group tag attributes parts)

/-- Pieces that show figures one after another, with only white space between them. -/
def ShowsAll (content : List Piece) (parts : List Figure) : Prop :=
  List.Forall₂ Shows (content.filter isSolid) parts

def Step.names : Step → List String
  | .enter tag attributes | .text tag attributes _ | .element tag attributes =>
    tag :: attributes.map Prod.fst
  | .leave => []

def Step.Named (s : Step) : Prop := ∀ name ∈ s.names, IsName name

@[simp] theorem named_enter (tag : String) (attributes : Attributes) :
    (Step.enter tag attributes).Named ↔ IsName tag ∧ ∀ a ∈ attributes, IsName a.1 := by
  rw [Step.Named, Step.names, List.forall_mem_cons, List.forall_mem_map]

@[simp] theorem named_element (tag : String) (attributes : Attributes) :
    (Step.element tag attributes).Named ↔ IsName tag ∧ ∀ a ∈ attributes, IsName a.1 :=
  named_enter tag attributes

@[simp] theorem named_text (tag : String) (attributes : Attributes) (content : String) :
    (Step.text tag attributes content).Named ↔ IsName tag ∧ ∀ a ∈ attributes, IsName a.1 :=
  named_enter tag attributes

@[simp] theorem named_leave : Step.leave.Named := List.forall_mem_nil _

instance (s : Step) : Decidable s.Named := inferInstanceAs (Decidable (∀ name ∈ s.names, _))

/-- A drawing whose names are names of markup and that has no element without a tag, attributes and
content, which would be written as an end tag. -/
def Readable (drawing : Drawing) : Prop := ∀ s ∈ drawing, s.Named ∧ s ≠ .element "" []

instance (drawing : Drawing) : Decidable (Readable drawing) :=
  inferInstanceAs (Decidable (∀ s ∈ drawing, _))

@[simp] theorem readable_nil : Readable [] := List.forall_mem_nil _

@[simp] theorem readable_cons (s : Step) (rest : Drawing) :
    Readable (s :: rest) ↔ (s.Named ∧ s ≠ .element "" []) ∧ Readable rest :=
  List.forall_mem_cons

theorem Readable.append {d e : Drawing} (hd : Readable d) (he : Readable e) : Readable (d ++ e) :=
  List.forall_mem_append.mpr ⟨hd, he⟩

theorem Readable.flatMap {α : Type} {f : α → Drawing} (h : ∀ a, Readable (f a)) (as : List α) :
    Readable (as.flatMap f) := by
  intro s hs
  obtain ⟨a, _, hs⟩ := List.mem_flatMap.mp hs
  exact h a s hs

/-! ## The tokens of a document -/

/-- The white space between the last line and the first sign of the next one. -/
def gapText (level : Nat) : String := String.ofList ('\n' :: indent level)

/-- The white space before a line, as it is read. -/
def gap (level : Nat) : Token := .chars (gapText level)

def textTokens (text : String) : List Token := if text = "" then [] else [.chars text]

def closingTokens : List String → List Token
  | [] => []
  | tag :: outer => gap outer.length :: .closing tag :: closingTokens outer

def lineTokens (opened : List String) : Drawing → List Token
  | [] => closingTokens opened
  | .enter tag attributes :: rest =>
    gap opened.length :: .opening tag attributes :: lineTokens (tag :: opened) rest
  | .leave :: rest =>
    match opened with
    | [] => lineTokens [] rest
    | tag :: outer => gap outer.length :: .closing tag :: lineTokens outer rest
  | .element tag attributes :: rest =>
    gap opened.length :: .single tag attributes :: lineTokens opened rest
  | .text tag attributes content :: rest =>
    gap opened.length :: .opening tag attributes ::
      (textTokens content ++ .closing tag :: lineTokens opened rest)

def Step.startTag? : Step → Option Token
  | .enter tag attributes | .text tag attributes _ => some (.opening tag attributes)
  | .element tag attributes => some (.single tag attributes)
  | .leave => none

section StartTags

variable {β : Type} {f : Token → Option β}

theorem filterMap_closingTokens (hchars : ∀ text, f (.chars text) = none)
    (hclosing : ∀ tag, f (.closing tag) = none) (opened : List String) :
    (closingTokens opened).filterMap f = [] := by
  induction opened with
  | nil => rfl
  | cons tag outer ih => simp [closingTokens, gap, hchars, hclosing, ih]

/-- What is picked out of the start tags of the lines is what is picked out of those of the
steps. -/
theorem filterMap_lineTokens (hchars : ∀ text, f (.chars text) = none)
    (hclosing : ∀ tag, f (.closing tag) = none) (drawing : Drawing) (opened : List String) :
    (lineTokens opened drawing).filterMap f = drawing.filterMap fun s => s.startTag?.bind f := by
  induction drawing generalizing opened with
  | nil => exact filterMap_closingTokens hchars hclosing opened
  | cons s rest ih =>
    cases s with
    | enter tag attributes =>
      simp [lineTokens, gap, Step.startTag?, List.filterMap_cons, hchars, ih]
    | leave =>
      cases opened with
      | nil => simp [lineTokens, Step.startTag?, ih]
      | cons tag outer => simp [lineTokens, gap, Step.startTag?, hchars, hclosing, ih]
    | element tag attributes =>
      simp [lineTokens, gap, Step.startTag?, List.filterMap_cons, hchars, ih]
    | text tag attributes content =>
      have htext : (textTokens content).filterMap f = [] := by
        rw [textTokens]
        split <;> simp [hchars]
      simp [lineTokens, gap, Step.startTag?, List.filterMap_cons, hchars, hclosing, htext, ih]

end StartTags

variable {told : List Token}

theorem foldl_attributes (tag : String) {attributes : Attributes} (h : ∀ a ∈ attributes, IsName a.1)
    (done : Attributes) : (attributes.flatMap attributeChars).foldl step (.between tag done, told) =
      (.between tag (done ++ attributes), told) := by
  induction attributes generalizing done with
  | nil => rw [List.append_nil]; rfl
  | cons a rest ih =>
    obtain ⟨ha, hrest⟩ := List.forall_mem_cons.mp h
    rw [List.flatMap_cons, List.foldl_append, attributeChars, Markup.foldl_attribute tag done ha,
      ih hrest, List.append_assoc]
    rfl

/-- A start tag is read up to its end. -/
theorem foldl_startTag {tag : String} {attributes : Attributes} (htag : IsName tag)
    (h : ∀ a ∈ attributes, IsName a.1) {c : Char} (hc : isNameChar c = false)
    (hslash : c = '/' → tag ≠ "" ∨ attributes ≠ []) (read : List Char) :
    (startTag tag attributes ++ [c]).foldl step (.data read, told) =
      step (.between tag attributes, flush read told) c := by
  have hstart : step (.data read, told) '<' = (.naming [], flush read told) := rfl
  have hend : ((attributes.flatMap attributeChars) ++ [c]).foldl step
      (.between tag [], flush read told) = step (.between tag attributes, flush read told) c := by
    rw [List.foldl_append, foldl_attributes tag h]
    rfl
  rw [startTag, List.cons_append, List.foldl_cons, hstart, List.append_assoc, List.foldl_append,
    Markup.foldl_naming htag, ← hend]
  cases attributes with
  | nil => exact Markup.step_naming hc fun he => (hslash he).resolve_right fun hne => hne rfl
  | cons a rest =>
    -- the blank before the first attribute ends the name
    have hblank : step (.naming tag.toList.reverse, flush read told) ' ' =
        step (.between tag [], flush read told) ' ' := Markup.step_naming rfl nofun
    rw [List.flatMap_cons, attributeChars, List.cons_append, List.cons_append, List.foldl_cons,
      List.foldl_cons, hblank]

/-- The end of a line and the indentation of the next one are white space between tags. -/
theorem foldl_indent (level : Nat) : (indent level).foldl step (.data ['\n'], told) =
    (.data ('\n' :: indent level).reverse, told) := by
  rw [Markup.foldl_data (by simp [indent]), List.reverse_cons]

theorem flush_gap (level : Nat) :
    flush ('\n' :: indent level).reverse told = gap level :: told := by
  have hplain : Markup.decode ('\n' :: indent level) = '\n' :: indent level :=
    Markup.decode_of_plain (by simp [indent])
  rw [flush, if_neg (by simp), Markup.decoded, List.reverse_reverse, hplain, gap, gapText]

/-- A line with a start tag that opens an element. -/
theorem foldl_opening {tag : String} {attributes : Attributes} (htag : IsName tag)
    (h : ∀ a ∈ attributes, IsName a.1) (level : Nat) :
    (indent level ++ (startTag tag attributes ++ ['>'])).foldl step (.data ['\n'], told) =
      (.data [], .opening tag attributes :: gap level :: told) := by
  rw [List.foldl_append, foldl_indent, foldl_startTag (c := '>') htag h rfl nofun, flush_gap]
  rfl

/-- A line with an end tag. -/
theorem foldl_closing {tag : String} (htag : IsName tag) (level : Nat) :
    (indent level ++ endTag tag ++ ['\n']).foldl step (.data ['\n'], told) =
      (.data ['\n'], .closing tag :: gap level :: told) := by
  rw [List.foldl_append, List.foldl_append, foldl_indent, endTag, Markup.foldl_endTag htag,
    flush_gap]
  rfl

/-- A line with an element without content. -/
theorem foldl_single {tag : String} {attributes : Attributes} (htag : IsName tag)
    (h : ∀ a ∈ attributes, IsName a.1) (hne : tag ≠ "" ∨ attributes ≠ []) (level : Nat) :
    (indent level ++ (startTag tag attributes ++ ['/', '>', '\n'])).foldl step
        (.data ['\n'], told) =
      (.data ['\n'], .single tag attributes :: gap level :: told) := by
  rw [List.append_cons _ '/', List.foldl_append, foldl_indent, List.foldl_append,
    foldl_startTag htag h rfl (fun _ => hne), flush_gap]
  rfl

/-- A text that was escaped is told as it was, an empty one not at all. -/
theorem flush_text (text : String) : flush (Markup.escapeChars text.toList).reverse told =
    (textTokens text).reverse ++ told := by
  rw [flush, textTokens, Markup.decoded, List.reverse_reverse, Markup.decode_escapeChars,
    String.ofList_toList]
  by_cases hempty : text = ""
  · subst hempty
    rfl
  · rw [if_neg hempty, if_neg, List.reverse_singleton, List.singleton_append]
    intro hnil
    have hdecode := Markup.decode_escapeChars text.toList
    rw [List.reverse_eq_nil_iff.mp hnil] at hdecode
    exact hempty (String.toList_eq_nil_iff.mp hdecode.symm)

/-- The rest of a line with a text, behind its start tag. -/
theorem foldl_text {tag : String} (htag : IsName tag) (text : String) :
    (Markup.escapeChars text.toList ++ (endTag tag ++ ['\n'])).foldl step (.data [], told) =
      (.data ['\n'], .closing tag :: ((textTokens text).reverse ++ told)) := by
  rw [List.foldl_append, Markup.foldl_data fun c hc => (Markup.mem_escapeChars hc).2,
    List.append_nil, List.foldl_append, endTag, Markup.foldl_endTag htag, flush_text]
  rfl

theorem foldl_closingLines {opened : List String} (h : ∀ tag ∈ opened, IsName tag) :
    (closingLines opened).foldl step (.data ['\n'], told) =
      (.data ['\n'], (closingTokens opened).reverse ++ told) := by
  induction opened generalizing told with
  | nil => rfl
  | cons tag outer ih =>
    obtain ⟨htag, houter⟩ := List.forall_mem_cons.mp h
    rw [closingLines, List.append_cons, List.foldl_append, foldl_closing htag, ih houter,
      closingTokens]
    simp

/-- The lines of a drawing are read as their tokens. -/
theorem foldl_linesFrom (drawing : Drawing) {opened : List String}
    (hopened : ∀ tag ∈ opened, IsName tag) (h : Readable drawing) :
    (linesFrom opened drawing).foldl step (.data ['\n'], told) =
      (.data ['\n'], (lineTokens opened drawing).reverse ++ told) := by
  induction drawing generalizing opened told with
  | nil => exact foldl_closingLines hopened
  | cons s rest ih =>
    obtain ⟨⟨hs, hshape⟩, hrest⟩ := (readable_cons _ _).mp h
    cases s with
    | enter tag attributes =>
      obtain ⟨htag, hattributes⟩ := (named_enter _ _).mp hs
      have hline : linesFrom opened (.enter tag attributes :: rest) =
          indent opened.length ++ (startTag tag attributes ++ ['>']) ++
            ('\n' :: linesFrom (tag :: opened) rest) := by
        simp [linesFrom]
      rw [hline, List.foldl_append, foldl_opening htag hattributes, List.foldl_cons, lineTokens]
      exact (ih (List.forall_mem_cons.mpr ⟨htag, hopened⟩) hrest).trans (by simp)
    | leave =>
      cases opened with
      | nil => exact ih hopened hrest
      | cons tag outer =>
        obtain ⟨htag, houter⟩ := List.forall_mem_cons.mp hopened
        rw [linesFrom, List.append_cons, List.foldl_append, foldl_closing htag,
          ih houter hrest, lineTokens]
        simp
    | element tag attributes =>
      obtain ⟨htag, hattributes⟩ := (named_element _ _).mp hs
      have hne : tag ≠ "" ∨ attributes ≠ [] := by
        by_contra hnot
        obtain ⟨rfl, rfl⟩ : tag = "" ∧ attributes = [] := by simpa using hnot
        exact hshape rfl
      have hline : linesFrom opened (.element tag attributes :: rest) =
          indent opened.length ++ (startTag tag attributes ++ ['/', '>', '\n']) ++
            linesFrom opened rest := by
        simp [linesFrom]
      rw [hline, List.foldl_append, foldl_single htag hattributes hne, ih hopened hrest,
        lineTokens]
      simp
    | text tag attributes content =>
      obtain ⟨htag, hattributes⟩ := (named_text _ _ _).mp hs
      have hline : linesFrom opened (.text tag attributes content :: rest) =
          indent opened.length ++ (startTag tag attributes ++ ['>']) ++
            (Markup.escapeChars content.toList ++ (endTag tag ++ ['\n']) ++
              linesFrom opened rest) := by
        simp [linesFrom]
      rw [hline, List.foldl_append, foldl_opening htag hattributes, List.foldl_append,
        foldl_text htag, ih hopened hrest, lineTokens]
      simp

/-- The start tag of a document is that of an element with these attributes. -/
def documentAttributes (width height : Float) : Attributes :=
  [("xmlns", "http://www.w3.org/2000/svg"), ("width", number width), ("height", number height),
    ("viewBox", "0 0 " ++ number width ++ " " ++ number height), ("font-family", "sans-serif")]

/-- The first line of a document opens its element. -/
theorem foldl_documentTag (width height : Float) :
    (documentTag width height ++ ['>', '\n']).foldl step (.data [], []) =
      (.data ['\n'], [.opening "svg" (documentAttributes width height)]) := by
  have htag : IsName "svg" := by decide
  have hnames : ∀ name ∈ (documentAttributes width height).map Prod.fst, IsName name := by
    show ∀ name ∈ ["xmlns", "width", "height", "viewBox", "font-family"], IsName name
    decide
  rw [List.append_cons, List.foldl_append]
  exact congrArg (['\n'].foldl step)
    (foldl_startTag (c := '>') htag (List.forall_mem_map.mp hnames) rfl nofun [])

/-- The tokens of a document. -/
theorem scan_document (width height : Float) {drawing : Drawing} (h : Readable drawing) :
    scan (document width height drawing).toList =
      some (.opening "svg" (documentAttributes width height) ::
        (lineTokens [] drawing ++ [.chars "\n", .closing "svg", .chars "\n"])) := by
  have htext : (document width height drawing).toList = documentTag width height ++ ['>', '\n'] ++
      (linesFrom [] drawing ++ (endTag "svg" ++ ['\n'])) := by
    simp [document]
  have hend (told : List Token) : (endTag "svg" ++ ['\n']).foldl step (.data ['\n'], told) =
      (.data ['\n'], .closing "svg" :: .chars "\n" :: told) := rfl
  rw [scan, htext, List.foldl_append, foldl_documentTag, List.foldl_append,
    foldl_linesFrom drawing (List.forall_mem_nil _) h, hend]
  simp [flush, Markup.decoded, Markup.decode]

/-- Reading a document finds the start tags of the drawing in its `svg` element. -/
theorem scan_startTags (width height : Float) {drawing : Drawing} (h : Readable drawing) {β : Type}
    {f : Token → Option β} (hchars : ∀ text, f (.chars text) = none)
    (hclosing : ∀ tag, f (.closing tag) = none)
    (hsvg : ∀ attributes, f (.opening "svg" attributes) = none) :
    ∃ tokens, scan (document width height drawing).toList = some tokens ∧
      tokens.filterMap f = drawing.filterMap fun s => s.startTag?.bind f := by
  refine ⟨_, scan_document width height h, ?_⟩
  rw [List.filterMap_cons_none (hsvg _), List.filterMap_append,
    filterMap_lineTokens hchars hclosing]
  simp [hchars, hclosing]

/-! ## The pieces of a document -/

theorem ShowsAll.append {content more : List Piece} {parts rest : List Figure}
    (h : ShowsAll content parts) (h' : ShowsAll more rest) :
    ShowsAll (content ++ more) (parts ++ rest) := by
  rw [ShowsAll, List.filter_append]
  exact List.rel_append h h'

theorem ShowsAll.snoc {content : List Piece} {parts : List Figure} (h : ShowsAll content parts)
    {tag : String} {attributes : Attributes} {inside : List Piece} {f : Figure}
    (hf : Shows (.element tag attributes inside) f) :
    ShowsAll (content ++ [.element tag attributes inside]) (parts ++ [f]) :=
  h.append (.cons hf .nil)

/-- White space between elements shows nothing. -/
theorem ShowsAll.blank {content : List Piece} {parts : List Figure} (h : ShowsAll content parts)
    {text : String} (hblank : text.toList.all Char.isWhitespace = true) :
    ShowsAll (content ++ [.chars text]) parts := by
  have hnone : isSolid (.chars text) = false := by rw [isSolid, hblank]; rfl
  rw [ShowsAll, List.filter_append, List.filter_singleton, hnone]
  exact (List.append_nil _).symm ▸ h

/-- An open element that stands for an open group. -/
inductive Matches : Frame Piece → Frame Figure → Prop
  | mk (tag : String) (attributes : Attributes) {before : List Piece} {parts : List Figure}
      (shows : ShowsAll before parts) : Matches ⟨tag, attributes, before⟩ ⟨tag, attributes, parts⟩

theorem gapText_blank (level : Nat) : (gapText level).toList.all Char.isWhitespace = true := by
  simp [gapText, indent]

/-- White space before an element shows nothing. -/
theorem ShowsAll.next {content : List Piece} {parts : List Figure} (h : ShowsAll content parts)
    (level : Nat) {tag : String} {attributes : Attributes} {inside : List Piece} {f : Figure}
    (hf : Shows (.element tag attributes inside) f) :
    ShowsAll (content ++ [.chars (gapText level)] ++ [.element tag attributes inside])
      (parts ++ [f]) :=
  (h.blank (gapText_blank level)).snoc hf

/-- An element that is closed stands for the group. -/
theorem ShowsAll.close {before done : List Piece} {earlier parts : List Figure}
    (h : ShowsAll before earlier) (hdone : ShowsAll done parts) (tag : String)
    (attributes : Attributes) (level : Nat) :
    ShowsAll (before ++ [.element tag attributes (done ++ [.chars (gapText level)])])
      (earlier ++ [.group tag attributes parts]) :=
  h.snoc (.group tag attributes (hdone.blank (gapText_blank level)))

theorem nest_closing (tag : String) (attributes : Attributes) (before done : List Piece)
    (outer : List (Frame Piece)) (level : Nat) (ts : List Token) :
    nest (⟨tag, attributes, before⟩ :: outer) done (gap level :: .closing tag :: ts) =
      nest outer (before ++ [.element tag attributes (done ++ [.chars (gapText level)])]) ts := by
  rw [gap, nest, nest, if_pos rfl]

theorem nest_text (tag : String) (attributes : Attributes) (done : List Piece)
    (opened : List (Frame Piece)) (text : String) (ts : List Token) :
    nest opened done (.opening tag attributes :: (textTokens text ++ .closing tag :: ts)) =
      nest opened (done ++ [.element tag attributes (textPieces text)]) ts := by
  rw [nest, textTokens, textPieces]
  split
  · rw [List.nil_append, nest, if_pos rfl]
  · rw [List.singleton_append, nest, nest, if_pos rfl, List.nil_append]

/-- The end tags of the open groups close them. -/
theorem nest_closingTokens {opened : List (Frame Piece)} {groups : List (Frame Figure)}
    (hopened : List.Forall₂ Matches opened groups) {done : List Piece} {parts : List Figure}
    (hdone : ShowsAll done parts) (below : List (Frame Piece)) (ts : List Token) :
    ∃ content, ShowsAll content (closeAll groups parts) ∧
      nest (opened ++ below) done (closingTokens (opened.map Frame.tag) ++ ts) =
        nest below content ts := by
  induction hopened generalizing done parts with
  | nil => exact ⟨done, hdone, rfl⟩
  | @cons _ _ outer _ hmatch _ ih =>
    obtain ⟨tag, attributes, hbefore⟩ := hmatch
    obtain ⟨content, hcontent, hnest⟩ :=
      ih (hbefore.close hdone tag attributes (outer.map Frame.tag).length)
    exact ⟨content, hcontent, (nest_closing _ _ _ _ _ _ _).trans hnest⟩

/-- The tokens of a drawing nest as its figures do. -/
theorem nest_lineTokens (drawing : Drawing) {opened : List (Frame Piece)}
    {groups : List (Frame Figure)} (hopened : List.Forall₂ Matches opened groups)
    {done : List Piece} {parts : List Figure} (hdone : ShowsAll done parts)
    (below : List (Frame Piece)) (ts : List Token) :
    ∃ content, ShowsAll content (figuresFrom groups parts drawing) ∧
      nest (opened ++ below) done (lineTokens (opened.map Frame.tag) drawing ++ ts) =
        nest below content ts := by
  induction drawing generalizing opened groups done parts with
  | nil => exact nest_closingTokens hopened hdone below ts
  | cons s rest ih =>
    cases s with
    | enter tag attributes =>
      have hmatch := Matches.mk tag attributes
        (hdone.blank (gapText_blank (opened.map Frame.tag).length))
      exact ih (.cons hmatch hopened) .nil
    | leave =>
      cases hopened with
      | nil => exact ih .nil hdone
      | @cons _ _ outer _ hmatch houter =>
        obtain ⟨tag, attributes, hbefore⟩ := hmatch
        obtain ⟨content, hcontent, hnest⟩ :=
          ih houter (hbefore.close hdone tag attributes (outer.map Frame.tag).length)
        exact ⟨content, hcontent, (nest_closing _ _ _ _ _ _ _).trans hnest⟩
    | element tag attributes =>
      exact ih hopened (hdone.next (opened.map Frame.tag).length (.shape tag attributes))
    | text tag attributes text =>
      obtain ⟨content, hcontent, hnest⟩ :=
        ih hopened (hdone.next (opened.map Frame.tag).length (.label tag attributes text))
      refine ⟨content, hcontent, ?_⟩
      rw [← hnest, ← nest_text]
      simp [lineTokens, gap, nest]

/-- A document is read as one element with the given attributes that shows exactly the figures. -/
def ReadsAs (text : String) (attributes : Attributes) (parts : List Figure) : Prop :=
  ∃ content, read? text = some [.element "svg" attributes content, .chars "\n"] ∧
    ShowsAll content parts

/-- The document of a drawing shows the figures that its steps describe. -/
theorem document_readsAs (width height : Float) {drawing : Drawing} (h : Readable drawing) :
    ReadsAs (document width height drawing) (documentAttributes width height)
      (figures drawing) := by
  have hempty : ShowsAll [] [] := .nil
  obtain ⟨content, hcontent, hnest⟩ := nest_lineTokens drawing .nil hempty
    [⟨"svg", documentAttributes width height, []⟩] [.chars "\n", .closing "svg", .chars "\n"]
  refine ⟨content ++ [.chars "\n"], ?_, hcontent.blank rfl⟩
  rw [read?, scan_document width height h, Option.bind_some, nest]
  exact hnest

/-- An element without a tag, attributes and content is written like an end tag. Its document cannot
be read, and whatever leaves indentation aside takes two different drawings for the same. -/
theorem nameless_element :
    (∀ s ∈ [Step.element "" []], s.Named) ∧
    ¬ ReadsAs (document 100 50 [.element "" []]) (documentAttributes 100 50)
      (figures [.element "" []]) ∧
    (document 100 50 [.enter "" [], .leave, .element "" []]).toList.filter (!·.isWhitespace) =
      (document 100 50 [.enter "" [], .element "" [], .leave]).toList.filter (!·.isWhitespace) ∧
    figures [.enter "" [], .leave, .element "" []] ≠
      figures [.enter "" [], .element "" [], .leave] := by
  refine ⟨by decide, ?_, ?_, ?_⟩
  · rintro ⟨content, hread, _⟩
    have htext : (document 100 50 [.element "" []]).toList =
        documentTag 100 50 ++ ['>', '\n'] ++
          (linesFrom [] [.element "" []] ++ (endTag "svg" ++ ['\n'])) := by
      simp [document]
    have hnone : read? (document 100 50 [.element "" []]) = none := by
      rw [read?, scan, htext, List.foldl_append, foldl_documentTag]
      rfl
    rw [hnone] at hread
    cases hread
  · simp only [document, String.toList_ofList, List.filter_append]
    congr 1
  · simp [figures, figuresFrom, closeAll]

end SourceAtlas.Svg
