import Mathlib.Tactic.FinCases
import SourceAtlas.Markup.Escape

/-! # Reading markup

A plain scanner for markup: start tags with attributes in double quotes, tags that close themselves,
end tags, and character data in between. It goes through a text character by character. In attribute
values and in character data it takes the five entities for the characters they stand for, so that
an escaped text comes back as it was. -/

namespace SourceAtlas.Markup

/-- The characters that mean something in markup. -/
def signs : List Char := ['"', '\'', '<', '>', '&', '/', '=']

/-- A character that may stand in the name of an element or of an attribute. -/
def isNameChar (c : Char) : Bool := !(c.isWhitespace || signs.contains c)

/-- A text with the five entities replaced. Any other ampersand stands for itself. -/
def decode : List Char → List Char
  | '&' :: 'a' :: 'm' :: 'p' :: ';' :: cs => '&' :: decode cs
  | '&' :: 'l' :: 't' :: ';' :: cs => '<' :: decode cs
  | '&' :: 'g' :: 't' :: ';' :: cs => '>' :: decode cs
  | '&' :: 'q' :: 'u' :: 'o' :: 't' :: ';' :: cs => '"' :: decode cs
  | '&' :: '#' :: '3' :: '9' :: ';' :: cs => '\'' :: decode cs
  | c :: cs => c :: decode cs
  | [] => []

inductive Token where
  | chars (text : String)
  | opening (tag : String) (attributes : List (String × String))
  /-- A tag that closes itself. -/
  | single (tag : String) (attributes : List (String × String))
  | closing (tag : String)
  deriving DecidableEq, Repr

/-- Where a scanner is in the text. What has been read of a name, a value or of character data is
kept with the last character first. -/
inductive Mode where
  | data (read : List Char)
  /-- In the name of a start tag. -/
  | naming (read : List Char)
  /-- In an end tag. -/
  | ending (read : List Char)
  /-- In a start tag, between attributes. -/
  | between (tag : String) (attributes : List (String × String))
  /-- In the name of an attribute. -/
  | attribute (tag : String) (attributes : List (String × String)) (read : List Char)
  /-- Between the name of an attribute and its value. -/
  | equals (tag : String) (attributes : List (String × String)) (name : String)
  /-- In the value of an attribute. -/
  | value (tag : String) (attributes : List (String × String)) (name : String) (read : List Char)
  /-- Behind the slash of a tag that closes itself. -/
  | slash (tag : String) (attributes : List (String × String))
  | fault
  deriving DecidableEq, Repr

/-- A scanner under way: where it is, and what it has told, the last first. -/
abbrev Scanner := Mode × List Token

/-- The text that has been read, the last character first. -/
def textOf (read : List Char) : String := String.ofList read.reverse

def decoded (read : List Char) : String := String.ofList (decode read.reverse)

/-- Tells the character data before a tag, if there is any. -/
def flush (read : List Char) (told : List Token) : List Token :=
  if read = [] then told else .chars (decoded read) :: told

/-- Goes on in a start tag whose name and some of whose attributes are read. -/
def stepBetween (tag : String) (attributes : List (String × String)) (told : List Token)
    (c : Char) :
    Scanner :=
  if c = '>' then (.data [], .opening tag attributes :: told)
  else if c = '/' then (.slash tag attributes, told)
  else if c.isWhitespace then (.between tag attributes, told)
  else if c = '=' then (.equals tag attributes "", told)
  else if isNameChar c then (.attribute tag attributes [c], told)
  else (.fault, told)

/-- Reads one character. A slash right behind the opening bracket makes an end tag. -/
def step : Scanner → Char → Scanner
  | (.data read, told), c =>
    if c = '<' then (.naming [], flush read told) else (.data (c :: read), told)
  | (.naming read, told), c =>
    if isNameChar c then (.naming (c :: read), told)
    else if read = [] ∧ c = '/' then (.ending [], told)
    else stepBetween (textOf read) [] told c
  | (.ending read, told), c =>
    if isNameChar c then (.ending (c :: read), told)
    else if c = '>' then (.data [], .closing (textOf read) :: told)
    else (.fault, told)
  | (.between tag attributes, told), c => stepBetween tag attributes told c
  | (.attribute tag attributes read, told), c =>
    if isNameChar c then (.attribute tag attributes (c :: read), told)
    else if c = '=' then (.equals tag attributes (textOf read), told)
    else (.fault, told)
  | (.equals tag attributes name, told), c =>
    if c = '"' then (.value tag attributes name [], told) else (.fault, told)
  | (.value tag attributes name read, told), c =>
    if c = '"' then (.between tag (attributes ++ [(name, decoded read)]), told)
    else (.value tag attributes name (c :: read), told)
  | (.slash tag attributes, told), c =>
    if c = '>' then (.data [], .single tag attributes :: told) else (.fault, told)
  | (.fault, told), _ => (.fault, told)

/-- The tokens of a text; none when it ends within a tag or a tag is malformed. -/
def scan (cs : List Char) : Option (List Token) :=
  match cs.foldl step (.data [], []) with
  | (.data read, told) => some (flush read told).reverse
  | _ => none

/-! ## Entities -/

theorem decode_cons {c : Char} (h : c ≠ '&') (cs : List Char) :
    decode (c :: cs) = c :: decode cs := by
  rw [decode] <;> exact fun _ he => absurd he h

theorem decode_of_plain {cs : List Char} (h : ∀ c ∈ cs, c ≠ '&') : decode cs = cs := by
  induction cs with
  | nil => rfl
  | cons c cs ih =>
    obtain ⟨hc, hcs⟩ := List.forall_mem_cons.mp h
    rw [decode_cons hc, ih hcs]

theorem escapeChar_of_plain {c : Char} (h : c ∉ ['&', '<', '>', '"', '\'']) :
    escapeChar c = [c] := by
  unfold escapeChar
  split <;> simp_all

theorem decode_escapeChar (c : Char) (cs : List Char) :
    decode (escapeChar c ++ cs) = c :: decode cs := by
  by_cases h : c ∈ ['&', '<', '>', '"', '\'']
  · fin_cases h <;> rfl
  · rw [escapeChar_of_plain h, List.singleton_append, decode_cons]
    rintro rfl
    exact h List.mem_cons_self

/-- Decoding undoes escaping, also of a text that holds entities itself. -/
theorem decode_escapeChars (cs : List Char) : decode (escapeChars cs) = cs := by
  induction cs with
  | nil => rfl
  | cons c cs ih => rw [escapeChars, List.flatMap_cons, decode_escapeChar, ← escapeChars, ih]

/-- An escaped text holds neither a quotation mark nor an opening bracket. -/
theorem mem_escapeChars {cs : List Char} {c : Char} (h : c ∈ escapeChars cs) :
    c ≠ '"' ∧ c ≠ '<' := by
  have hchar (d : Char) : (escapeChar d).all (fun c => c ≠ '"' ∧ c ≠ '<') = true := by
    by_cases hd : d ∈ ['&', '<', '>', '"', '\'']
    · fin_cases hd <;> rfl
    · rw [escapeChar_of_plain hd]
      simp only [List.mem_cons, not_or] at hd
      simp [hd]
  obtain ⟨d, _, hc⟩ := List.mem_flatMap.mp h
  exact of_decide_eq_true (List.all_eq_true.mp (hchar d) c hc)

theorem textOf_reverse (s : String) : textOf s.toList.reverse = s := by
  rw [textOf, List.reverse_reverse, String.ofList_toList]

/-! ## Reading the parts of a tag -/

variable {told : List Token}

/-- A text all of whose characters are kept is kept as a whole. -/
theorem foldl_step_keep (place : List Char → Mode) {p : Char → Prop}
    (hstep : ∀ c read, p c → step (place read, told) c = (place (c :: read), told)) {cs : List Char}
    (h : ∀ c ∈ cs, p c) (read : List Char) :
    cs.foldl step (place read, told) = (place (cs.reverse ++ read), told) := by
  induction cs generalizing read with
  | nil => rfl
  | cons c cs ih =>
    obtain ⟨hc, hcs⟩ := List.forall_mem_cons.mp h
    rw [List.foldl_cons, hstep c read hc, ih hcs, List.reverse_cons, List.append_assoc]
    rfl

/-- A name: a text without white space and without the signs of markup. -/
def IsName (s : String) : Prop := ∀ c ∈ s.toList, isNameChar c = true

instance (s : String) : Decidable (IsName s) := decidable_of_iff _ List.all_eq_true

theorem foldl_data {cs : List Char} (h : ∀ c ∈ cs, c ≠ '<') (read : List Char) :
    cs.foldl step (.data read, told) = (.data (cs.reverse ++ read), told) :=
  foldl_step_keep .data (fun _ _ hc => if_neg hc) h read

theorem foldl_naming {tag : String} (h : IsName tag) :
    tag.toList.foldl step (.naming [], told) = (.naming tag.toList.reverse, told) := by
  rw [foldl_step_keep .naming (fun _ _ hc => if_pos hc) h, List.append_nil]

theorem foldl_ending {tag : String} (h : IsName tag) :
    tag.toList.foldl step (.ending [], told) = (.ending tag.toList.reverse, told) := by
  rw [foldl_step_keep .ending (fun _ _ hc => if_pos hc) h, List.append_nil]

theorem not_sign_of_isNameChar {c : Char} (h : isNameChar c = true) :
    c.isWhitespace ≠ true ∧ c ∉ signs := by
  simpa [isNameChar] using h

theorem stepBetween_of_isNameChar {c : Char} (h : isNameChar c = true) (tag : String)
    (attributes : List (String × String)) :
    stepBetween tag attributes told c = (.attribute tag attributes [c], told) := by
  obtain ⟨hblank, hsign⟩ := not_sign_of_isNameChar h
  have hne {d : Char} (hd : d ∈ signs) : c ≠ d := fun he => hsign (he ▸ hd)
  rw [stepBetween, if_neg (hne (by decide)), if_neg (hne (by decide)), if_neg hblank,
    if_neg (hne (by decide)), if_pos h]

/-- The name of an attribute, to its equals sign. -/
theorem foldl_attributeName (tag : String) (attributes : List (String × String)) {name : String}
    (h : IsName name) : (name.toList ++ ['=']).foldl step (.between tag attributes, told) =
      (.equals tag attributes name, told) := by
  have hequals : isNameChar '=' ≠ true := by decide
  cases hcs : name.toList with
  | nil =>
    rw [String.toList_eq_nil_iff] at hcs
    subst hcs
    rfl
  | cons c cs =>
    obtain ⟨hc, hrest⟩ := List.forall_mem_cons.mp (hcs ▸ h : ∀ d ∈ c :: cs, isNameChar d = true)
    have hkeep : cs.foldl step (.attribute tag attributes [c], told) =
        (.attribute tag attributes (cs.reverse ++ [c]), told) :=
      foldl_step_keep (.attribute tag attributes) (fun _ _ hd => if_pos hd) hrest [c]
    have hread : textOf (cs.reverse ++ [c]) = name := by
      rw [← List.reverse_cons, ← hcs, textOf_reverse]
    rw [List.cons_append, List.foldl_cons, step, stepBetween_of_isNameChar hc, List.foldl_append,
      hkeep, List.foldl_cons, step, if_neg hequals, if_pos rfl, hread]
    rfl

/-- An attribute, with a blank before it, is read with the value as it was before it was escaped. -/
theorem foldl_attribute (tag : String) (attributes : List (String × String)) {name : String}
    (h : IsName name) (value : String) :
    (' ' :: (name.toList ++ '=' :: '"' :: (escapeChars value.toList ++ ['"']))).foldl step
        (.between tag attributes, told) =
      (.between tag (attributes ++ [(name, value)]), told) := by
  have hblank : step (.between tag attributes, told) ' ' = (.between tag attributes, told) := rfl
  have hquote :
      step (.equals tag attributes name, told) '"' = (.value tag attributes name [], told) :=
    rfl
  have hvalue : (escapeChars value.toList).foldl step (.value tag attributes name [], told) =
      (.value tag attributes name (escapeChars value.toList).reverse, told) := by
    rw [foldl_step_keep (.value tag attributes name) (fun _ _ hc => if_neg hc)
      fun c hc => (mem_escapeChars hc).1, List.append_nil]
  rw [List.foldl_cons, hblank, List.append_cons, List.foldl_append, foldl_attributeName _ _ h,
    List.foldl_cons, hquote, List.foldl_append, hvalue, List.foldl_cons, step, if_pos rfl, decoded,
    List.reverse_reverse, decode_escapeChars, String.ofList_toList]
  rfl

/-- A sign behind the name of a start tag is read as between attributes, unless it is a slash right
behind the opening bracket. -/
theorem step_naming {tag : String} {c : Char} (hc : isNameChar c = false)
    (hslash : c = '/' → tag ≠ "") :
    step (.naming tag.toList.reverse, told) c = step (.between tag [], told) c := by
  have hnot : ¬ (tag.toList.reverse = [] ∧ c = '/') := by
    rintro ⟨hempty, he⟩
    exact hslash he (String.toList_eq_nil_iff.mp (List.reverse_eq_nil_iff.mp hempty))
  rw [step, if_neg (by rw [hc]; exact Bool.false_ne_true), if_neg hnot, textOf_reverse]
  rfl

/-- An end tag. -/
theorem foldl_endTag {tag : String} (h : IsName tag) (read : List Char) :
    ('<' :: '/' :: (tag.toList ++ ['>'])).foldl step (.data read, told) =
      (.data [], .closing tag :: flush read told) := by
  have hbracket : isNameChar '>' ≠ true := by decide
  have hstart : ['<', '/'].foldl step (.data read, told) = (.ending [], flush read told) := rfl
  rw [← List.singleton_append, List.append_cons, List.foldl_append, List.singleton_append, hstart,
    List.foldl_append, foldl_ending h, List.foldl_cons, step, if_neg hbracket, if_pos rfl,
    textOf_reverse]
  rfl

/-! ## Nesting -/

inductive Piece where
  | chars (text : String)
  | element (tag : String) (attributes : List (String × String)) (content : List Piece)

/-- An element that is open, with what stands before it in the element around it. -/
structure Frame (α : Type) where
  tag : String
  attributes : List (String × String)
  before : List α

/-- The pieces of a document, given its tokens; `opened` holds the open elements, the innermost
first. There are none if an end tag does not fit the innermost open element, or an element stays
open. -/
def nest (opened : List (Frame Piece)) (done : List Piece) : List Token → Option (List Piece)
  | [] => if opened.isEmpty then some done else none
  | .chars text :: ts => nest opened (done ++ [.chars text]) ts
  | .single tag attributes :: ts => nest opened (done ++ [.element tag attributes []]) ts
  | .opening tag attributes :: ts => nest (⟨tag, attributes, done⟩ :: opened) [] ts
  | .closing tag :: ts =>
    match opened with
    | [] => none
    | f :: outer =>
      if tag = f.tag then nest outer (f.before ++ [.element f.tag f.attributes done]) ts else none

def read? (s : String) : Option (List Piece) := (scan s.toList).bind (nest [] [])

end SourceAtlas.Markup
