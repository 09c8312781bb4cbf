import SourceAtlas.Panel.Html
import SourceAtlas.Proofs.Markup.Page

/-! # Panels read back

The page of a panel is a form that its shape alone determines: tags, and behind each of them a text
of the form's own and perhaps a place for one of the panel's texts. Filled in and written out it is
the HTML of the panel. So a scanner that reads the HTML finds the tags of the form, and the texts of
the panel in their places. -/

namespace SourceAtlas.Panel

open Markup (Tag Page escape escapeChars escapeChars_nil escapeChars_append escapeChars_digits
  toList_escape Token scan gather tags)

/-! ## The page of a panel -/

/-- A tag of a panel with what stands behind it: a fixed text and, in some places, a text of the
panel. -/
structure Part where
  tag : Tag
  lead : String := ""
  given : Option String := none
  deriving DecidableEq, Repr

/-- What the parts of panels of one shape have in common: the tag, the fixed text, and whether there
is a place for a text of the panel. -/
structure Form where
  tag : Tag
  lead : String
  isPlace : Bool
  deriving DecidableEq, Repr

/-- The part without the text of the panel. -/
def Part.form (x : Part) : Form := ⟨x.tag, x.lead, x.given.isSome⟩

def Part.data (x : Part) : String := x.lead ++ x.given.getD ""

def pageOf (xs : List Part) : Page := xs.map fun x => (x.tag, x.data)

def element (name text : String) : List Part :=
  [⟨.opening name [], "", some text⟩, ⟨.closing name, "", none⟩]

def bodyParts : Body → List Part
  | .text value => element "p" value
  | .list items =>
    [⟨.opening "ul" [], "", none⟩] ++ items.flatMap (element "li") ++ [⟨.closing "ul", "", none⟩]
  | .code value =>
    [⟨.opening "pre" [], "", none⟩] ++ element "code" value ++ [⟨.closing "pre", "", none⟩]

def headingParts (index : Nat) (s : Section) : List Part :=
  [⟨.opening "div" [("class", "collapsible-section"), ("data-index", toString index)], "", none⟩,
    ⟨.opening "h3" [], "", none⟩,
    ⟨.opening "span" [("class", "collapse-icon")], if s.expanded then "▼" else "▶", none⟩,
    ⟨.closing "span", " ", some s.title⟩, ⟨.closing "h3", "", none⟩,
    ⟨.opening "div" [("class", "section-content"),
      ("style", if s.expanded then "display: block" else "display: none")], "", none⟩]

def sectionParts (index : Nat) (s : Section) : List Part :=
  headingParts index s ++ bodyParts s.body ++
    [⟨.closing "div", "", none⟩, ⟨.closing "div", "", none⟩]

def factText (f : Fact) : String := f.label ++ ": " ++ f.value

def messageParts (message : String) : List Part :=
  [⟨.opening "p" [], "", none⟩] ++ element "em" message ++ [⟨.closing "p", "", none⟩]

/-- The message when it stands for the whole panel, which has no title then. -/
def notice (p : Panel) : Option String := if p.title.isEmpty then p.message else none

def parts (p : Panel) : List Part :=
  match p.notice with
  | some message => element "p" message
  | none =>
    element "h2" p.title ++ (p.facts.map factText).flatMap (element "p")
      ++ p.message.toList.flatMap messageParts
      ++ p.sections.zipIdx.flatMap fun x => sectionParts x.2 x.1

/-! ## The HTML is the page written out -/

def written (xs : List Part) : List Char := (pageOf xs).written

@[simp] theorem written_nil : written [] = [] := rfl

@[simp] theorem written_cons (x : Part) (xs : List Part) : written (x :: xs) =
    x.tag.written ++ escapeChars x.lead.toList ++ escapeChars (x.given.getD "").toList ++
      written xs := by
  rw [written, pageOf, List.map_cons, Page.written_cons, ← pageOf, ← written, Part.data,
    String.toList_append, escapeChars_append, ← List.append_assoc x.tag.written]

@[simp] theorem written_append (xs ys : List Part) :
    written (xs ++ ys) = written xs ++ written ys := by
  rw [written, pageOf, List.map_append, Page.written_append]
  rfl

theorem written_flatMap {β : Type} (f : β → List Part) (l : List β) :
    written (l.flatMap f) = l.flatMap fun b => written (f b) := by
  induction l with
  | nil => rfl
  | cons b l ih => rw [List.flatMap_cons, written_append, ih, List.flatMap_cons]

theorem written_element (name text : String) : written (element name text) =
    (Tag.opening name []).written ++ escapeChars text.toList ++ (Tag.closing name).written := by
  simp [element]

theorem written_join {β : Type} {f : β → String} {g : β → List Part}
    (h : ∀ b, (f b).toList = written (g b)) (l : List β) :
    (String.join (l.map f)).toList = written (l.flatMap g) := by
  rw [String.toList_join, List.flatMap_map, written_flatMap]
  exact List.flatMap_congr fun b _ => h b

theorem plainTag (name : String) : (Tag.opening name []).written = '<' :: (name.toList ++ ['>']) ∧
    (Tag.closing name).written = '<' :: '/' :: (name.toList ++ ['>']) := by
  simp [Tag.written, Svg.startTag, Svg.endTag]

theorem bodyHtml_written (b : Body) : (bodyHtml b).toList = written (bodyParts b) := by
  cases b with
  | text value => simp [bodyHtml, bodyParts, written_element, toList_escape, plainTag]
  | list items =>
    have hitems : (String.join (items.map fun item => "<li>" ++ escape item ++ "</li>")).toList =
        written (items.flatMap (element "li")) :=
      written_join (fun item => by simp [written_element, toList_escape, plainTag]) items
    rw [bodyHtml, String.toList_append, String.toList_append, hitems]
    simp [bodyParts, plainTag]
  | code value => simp [bodyHtml, bodyParts, written_element, toList_escape, plainTag]

theorem indexTag_written (index : Nat) :
    (Tag.opening "div" [("class", "collapsible-section"), ("data-index", toString index)]).written =
      "<div class=\"collapsible-section\" data-index=\"".toList ++ (toString index).toList ++
        "\">".toList := by
  have hclass : Svg.startTag "div" [("class", "collapsible-section")] ++ " data-index=\"".toList =
      "<div class=\"collapsible-section\" data-index=\"".toList := by decide
  rw [← hclass, ← escapeChars_digits]
  simp [Tag.written, Svg.startTag, Svg.attributeChars]

theorem sectionHtml_written (index : Nat) (s : Section) :
    (sectionHtml index s).toList = written (sectionParts index s) := by
  -- the fixed pieces of the text, cut where one tag ends and the next begins
  have hicon : "\"><h3><span class=\"collapse-icon\">".toList = "\">".toList ++
      (Tag.opening "h3" []).written ++
        (Tag.opening "span" [("class", "collapse-icon")]).written := by
    decide
  have htitle :
      "</span> ".toList = (Tag.closing "span").written ++ escapeChars " ".toList := by decide
  have hclose :
      "</div></div>".toList = (Tag.closing "div").written ++ (Tag.closing "div").written := by
    decide
  have hfixed : escapeChars (if s.expanded then "▼" else "▶").toList =
      (if s.expanded then "▼" else "▶").toList := by
    cases s.expanded <;> decide
  have hdisplay (rest : List Char) :
      "</h3><div class=\"section-content\" style=\"display: ".toList ++
      ((if s.expanded then "block" else "none").toList ++ ("\">".toList ++ rest)) =
        (Tag.closing "h3").written ++ ((Tag.opening "div" [("class", "section-content"),
          ("style", if s.expanded then "display: block" else "display: none")]).written ++
            rest) := by
    cases s.expanded <;> rfl
  unfold sectionHtml
  simp only [sectionParts, headingParts, written_append, written_cons, written_nil,
    String.toList_append, toList_escape, bodyHtml_written, indexTag_written, hicon, htitle,
    hclose, hfixed, hdisplay, Option.getD_none, Option.getD_some, String.toList_empty,
    escapeChars_nil, List.append_nil, List.append_assoc]

theorem factHtml_written (f : Fact) :
    ("<p>" ++ escape f.label ++ ": " ++ escape f.value ++ "</p>").toList =
      written (element "p" (factText f)) := by
  have hcolon (cs : List Char) : escapeChars (':' :: ' ' :: cs) = ':' :: ' ' :: escapeChars cs :=
    rfl
  simp [factText, written_element, plainTag, toList_escape, escapeChars_append, hcolon]

theorem messageHtml_written (m : String) :
    ("<p><em>" ++ escape m ++ "</em></p>").toList = written (messageParts m) := by
  simp [messageParts, written_element, toList_escape, plainTag]

theorem toHtml_notice {p : Panel} {m : String} (h : p.notice = some m) :
    p.toHtml = "<p>" ++ escape m ++ "</p>" := by
  rw [notice, Option.ite_none_right_eq_some] at h
  obtain ⟨htitle, hmessage⟩ := h
  unfold toHtml
  rw [htitle, hmessage]

theorem toHtml_full {p : Panel} (h : p.notice = none) :
    p.toHtml = "<h2>" ++ escape p.title ++ "</h2>"
      ++ String.join (p.facts.map fun f => "<p>" ++ escape f.label ++ ": " ++
        escape f.value ++ "</p>")
      ++ String.join (p.message.toList.map fun m => "<p><em>" ++ escape m ++ "</em></p>")
      ++ String.join (p.sections.zipIdx.map fun x => sectionHtml x.2 x.1) := by
  unfold toHtml
  split
  · next m htitle hmessage =>
    rw [notice, if_pos htitle, hmessage] at h
    cases h
  · cases p.message <;> rfl

/-- The HTML of a panel is its page. -/
theorem toHtml_written (p : Panel) : p.toHtml.toList = written p.parts := by
  unfold parts
  split
  · next m hnotice => simp [toHtml_notice hnotice, written_element, plainTag, toList_escape]
  · next hnotice =>
    have htitle :
        ("<h2>" ++ escape p.title ++ "</h2>").toList = written (element "h2" p.title) := by
      simp [written_element, plainTag, toList_escape]
    rw [toHtml_full hnotice, String.toList_append, String.toList_append,
      String.toList_append, htitle, written_join factHtml_written, written_join messageHtml_written,
      written_join fun x : Section × Nat => sectionHtml_written x.2 x.1]
    simp only [written_append, List.flatMap_map]

/-! ## Shapes and texts -/

/-- The kind of a body, with the number of its items. -/
inductive BodyShape where
  | text
  | list (count : Nat)
  | code
  deriving DecidableEq, Repr

/-- What is left of a panel without its texts: whether it has a title and a message, how many facts,
and of its sections, in order, the shape of the body and whether they are expanded. -/
structure Shape where
  untitled : Bool
  hasMessage : Bool
  facts : Nat
  sections : List (BodyShape × Bool)
  deriving DecidableEq, Repr

def bodyShape : Body → BodyShape
  | .text _ => .text
  | .list items => .list items.length
  | .code _ => .code

def shape (p : Panel) : Shape where
  untitled := p.title.isEmpty
  hasMessage := p.message.isSome
  facts := p.facts.length
  sections := p.sections.map fun s => (bodyShape s.body, s.expanded)

def bodyTexts : Body → List String
  | .text value => [value]
  | .list items => items
  | .code value => [value]

/-- The texts of a panel in order, or just the message when it has no title. -/
def texts (p : Panel) : List String :=
  match p.notice with
  | some message => [message]
  | none =>
    [p.title] ++ p.facts.map factText ++ p.message.toList
      ++ p.sections.flatMap fun s => s.title :: bodyTexts s.body

/-! ## The texts stand in their places -/

theorem given_elements (name : String) (texts : List String) :
    (texts.flatMap (element name)).filterMap Part.given = texts := by
  rw [List.filterMap_flatMap]
  exact List.flatMap_singleton' texts

theorem given_body (b : Body) : (bodyParts b).filterMap Part.given = bodyTexts b := by
  cases b with
  | text value => rfl
  | list items =>
    rw [bodyParts, List.filterMap_append, List.filterMap_append, given_elements]
    exact List.append_nil items
  | code value => rfl

theorem given_section (index : Nat) (s : Section) :
    (sectionParts index s).filterMap Part.given = s.title :: bodyTexts s.body := by
  rw [sectionParts, List.filterMap_append, List.filterMap_append, given_body]
  exact List.append_nil _

theorem given_sections (l : List Section) :
    (l.zipIdx.flatMap fun x => sectionParts x.2 x.1).filterMap Part.given =
      l.flatMap fun s => s.title :: bodyTexts s.body := by
  rw [List.filterMap_flatMap]
  simp only [given_section]
  conv => rhs; rw [← List.zipIdx_map_fst 0 l, List.flatMap_map]

theorem given_parts (p : Panel) : p.parts.filterMap Part.given = p.texts := by
  have hmessage :
      (p.message.toList.flatMap messageParts).filterMap Part.given = p.message.toList := by
    cases p.message <;> rfl
  unfold parts texts
  split
  · rfl
  · rw [List.filterMap_append, List.filterMap_append, List.filterMap_append, given_elements,
      hmessage, given_sections]
    rfl

/-! ## The form depends on the shape only -/

theorem form_elements (name : String) {texts others : List String}
    (h : texts.length = others.length) :
    (texts.flatMap (element name)).map Part.form =
      (others.flatMap (element name)).map Part.form := by
  have hform (texts : List String) : (texts.flatMap (element name)).map Part.form =
      (List.replicate texts.length ((element name "").map Part.form)).flatten := by
    rw [List.map_flatMap, ← List.map_const', ← List.flatMap_def]
    rfl
  rw [hform, hform, h]

theorem form_body {b c : Body} (h : bodyShape b = bodyShape c) :
    (bodyParts b).map Part.form = (bodyParts c).map Part.form := by
  cases b with
  | text value =>
    cases c <;> cases h
    rfl
  | list items =>
    cases c with
    | list others =>
      simp only [bodyParts, List.map_append, form_elements "li" (BodyShape.list.inj h)]
    | _ => cases h
  | code value =>
    cases c <;> cases h
    rfl

theorem form_section (index : Nat) {s t : Section}
    (h : (bodyShape s.body, s.expanded) = (bodyShape t.body, t.expanded)) :
    (sectionParts index s).map Part.form = (sectionParts index t).map Part.form := by
  rw [Prod.mk.injEq] at h
  obtain ⟨hbody, hexpanded⟩ := h
  have hheading : (headingParts index s).map Part.form = (headingParts index t).map Part.form := by
    rw [headingParts, headingParts, hexpanded]
    rfl
  simp only [sectionParts, List.map_append, hheading, form_body hbody]

theorem form_sections {l m : List Section} (k : Nat)
    (h : l.map (fun s => (bodyShape s.body, s.expanded)) =
      m.map fun s => (bodyShape s.body, s.expanded)) :
    ((l.zipIdx k).flatMap fun x => sectionParts x.2 x.1).map Part.form =
      ((m.zipIdx k).flatMap fun x => sectionParts x.2 x.1).map Part.form := by
  induction l generalizing m k with
  | nil =>
    rw [List.map_nil, eq_comm, List.map_eq_nil_iff] at h
    rw [h]
  | cons s l ih =>
    cases m with
    | nil => cases h
    | cons t m =>
      rw [List.map_cons, List.map_cons, List.cons.injEq] at h
      obtain ⟨hst, hlm⟩ := h
      rw [List.zipIdx_cons, List.zipIdx_cons, List.flatMap_cons, List.flatMap_cons, List.map_append,
        List.map_append, form_section k hst, ih (k + 1) hlm]

theorem form_message {m n : Option String} (h : m.isSome = n.isSome) :
    (m.toList.flatMap messageParts).map Part.form =
      (n.toList.flatMap messageParts).map Part.form := by
  cases m <;> cases n <;> first | rfl | cases h

theorem form_parts {p q : Panel} (h : p.shape = q.shape) :
    p.parts.map Part.form = q.parts.map Part.form := by
  rw [shape, shape, Shape.mk.injEq] at h
  obtain ⟨htitle, hmessage, hfacts, hsections⟩ := h
  -- whether the message stands alone is a matter of the shape too
  have hnotice : p.notice.isSome = q.notice.isSome := by
    rw [notice, notice, htitle]
    split
    · exact hmessage
    · rfl
  have hlength : (p.facts.map factText).length = (q.facts.map factText).length := by
    rw [List.length_map, List.length_map, hfacts]
  unfold parts
  cases hp : p.notice <;> cases hq : q.notice <;> rw [hp, hq] at hnotice <;> try cases hnotice
  · simp only [List.map_append, form_elements "p" hlength, form_message hmessage,
      form_sections 0 hsections]
    rfl
  · rfl

/-- Parts of one form with the same texts are the same. -/
theorem eq_of_given {xs ys : List Part} (hform : xs.map Part.form = ys.map Part.form)
    (hgiven : xs.filterMap Part.given = ys.filterMap Part.given) : xs = ys := by
  induction xs generalizing ys with
  | nil =>
    rw [List.map_nil, eq_comm, List.map_eq_nil_iff] at hform
    exact hform.symm
  | cons x xs ih =>
    cases ys with
    | nil => cases hform
    | cons y ys =>
      obtain ⟨tag, lead, given⟩ := x
      obtain ⟨tag', lead', given'⟩ := y
      simp only [List.map_cons, List.cons.injEq, Part.form, Form.mk.injEq] at hform
      obtain ⟨⟨rfl, rfl, hsome⟩, hform⟩ := hform
      cases given with
      | none =>
        cases given' with
        | none => rw [ih hform hgiven]
        | some text' => cases hsome
      | some text =>
        cases given' with
        | none => cases hsome
        | some text' =>
          have hcons : text :: xs.filterMap Part.given = text' :: ys.filterMap Part.given := hgiven
          rw [List.cons.injEq] at hcons
          rw [hcons.1, ih hform hcons.2]

/-! ## Reading a panel -/

/-- The texts found behind the tags where a form has a place for one, without the fixed texts. -/
def readTexts (form : List Form) (found : List (Token × String)) : List String :=
  (form.zip found).filterMap fun x =>
    if x.1.isPlace then some (String.ofList (x.2.2.toList.drop x.1.lead.length)) else none

theorem readTexts_parts (xs : List Part) :
    readTexts (xs.map Part.form) (xs.map fun x => (x.tag.token, x.data)) =
      xs.filterMap Part.given := by
  rw [readTexts, List.zip_map', List.filterMap_map]
  refine List.filterMap_congr fun x _ => ?_
  obtain ⟨tag, lead, given⟩ := x
  cases given with
  | none => rfl
  | some text =>
    show some (String.ofList ((lead ++ text).toList.drop lead.length)) = some text
    rw [String.toList_append, ← String.length_toList, List.drop_left, String.ofList_toList]

/-- The fixed texts of a panel: the icons, and the blank between an icon and a title. -/
def leads : List String := ["", " ", "▼", "▶"]

/-- A part whose tag can be read and whose fixed text is one of a few. -/
def Part.Proper (x : Part) : Prop := x.tag.Named ∧ x.lead ∈ leads

instance (x : Part) : Decidable x.Proper := inferInstanceAs (Decidable (_ ∧ _))

theorem element_proper {name : String} (h : Markup.IsName name) (text : String) :
    ∀ x ∈ element name text, x.Proper := by
  simp [element, Part.Proper, Tag.Named, Tag.names, leads, h]

theorem proper_flatMap {β : Type} {f : β → List Part} (h : ∀ b, ∀ x ∈ f b, x.Proper) (l : List β) :
    ∀ x ∈ l.flatMap f, x.Proper := by
  intro x hx
  obtain ⟨b, -, hx⟩ := List.mem_flatMap.mp hx
  exact h b x hx

theorem bodyParts_proper (b : Body) : ∀ x ∈ bodyParts b, x.Proper := by
  cases b with
  | text value => exact element_proper (by decide) value
  | list items =>
    rw [bodyParts, List.forall_mem_append, List.forall_mem_append]
    exact ⟨⟨by decide, proper_flatMap (element_proper (by decide)) items⟩, by decide⟩
  | code value =>
    rw [bodyParts, List.forall_mem_append, List.forall_mem_append]
    exact ⟨⟨by decide, element_proper (by decide) value⟩, by decide⟩

theorem sectionParts_proper (index : Nat) (s : Section) : ∀ x ∈ sectionParts index s, x.Proper := by
  have hicon : (if s.expanded then "▼" else "▶") ∈ leads := by
    cases s.expanded <;> decide
  have hheading : ∀ x ∈ headingParts index s, x.Proper := by
    simp +decide [headingParts, Part.Proper, Tag.Named, Tag.names, hicon]
  rw [sectionParts, List.forall_mem_append, List.forall_mem_append]
  exact ⟨⟨hheading, bodyParts_proper s.body⟩, by decide⟩

theorem messageParts_proper (message : String) : ∀ x ∈ messageParts message, x.Proper := by
  rw [messageParts, List.forall_mem_append, List.forall_mem_append]
  exact ⟨⟨by decide, element_proper (by decide) message⟩, by decide⟩

theorem parts_proper (p : Panel) : ∀ x ∈ p.parts, x.Proper := by
  unfold parts
  split
  · exact element_proper (by decide) _
  · rw [List.forall_mem_append, List.forall_mem_append, List.forall_mem_append]
    refine ⟨⟨⟨element_proper (by decide) p.title, ?_⟩, ?_⟩, ?_⟩
    · exact proper_flatMap (element_proper (by decide)) (p.facts.map factText)
    · exact proper_flatMap messageParts_proper p.message.toList
    · exact proper_flatMap (fun x : Section × Nat => sectionParts_proper x.2 x.1) p.sections.zipIdx

/-- What a scanner tells of a panel. -/
theorem toHtml_scan (p : Panel) :
    scan p.toHtml.toList = some (pageOf p.parts).tokens := by
  rw [toHtml_written]
  exact Page.scan_written (List.forall_mem_map.mpr fun x hx => (p.parts_proper x hx).1)

theorem tags_pageOf (xs : List Part) : tags (pageOf xs).tokens =
    (xs.map Part.form).map fun f => f.tag.token := by
  rw [Page.tags_tokens, pageOf, List.map_map, List.map_map]
  rfl

theorem gather_pageOf (xs : List Part) :
    gather (pageOf xs).tokens = ("", xs.map fun x => (x.tag.token, x.data)) := by
  rw [Page.gather_tokens, pageOf, List.map_map]
  rfl

/-- A scanner that reads the HTML of a panel finds nothing before the first tag, and behind each tag
a fixed text, if any, and then a text of the panel where there is a place for one; without the fixed
texts these are the texts of the panel, in order. Panels of one shape have the same tags, fixed
texts and places, so that their HTML differs in nothing but the texts. -/
theorem toHtml_readBack (p : Panel) :
    ∃ tokens, scan p.toHtml.toList = some tokens ∧
      (gather tokens = ("", p.parts.map fun x => (x.tag.token, x.lead ++ x.given.getD "")) ∧
        p.parts.filterMap Part.given = p.texts ∧ (∀ x ∈ p.parts, x.lead ∈ leads) ∧
        readTexts (p.parts.map Part.form) (gather tokens).2 = p.texts) ∧
      ∀ q : Panel, q.shape = p.shape →
        q.parts.map Part.form = p.parts.map Part.form ∧
        (∃ others, scan q.toHtml.toList = some others ∧ tags others = tags tokens) ∧
        (q.toHtml = p.toHtml ↔ q.texts = p.texts) := by
  have hread (q : Panel) : readTexts (q.parts.map Part.form) (gather (pageOf q.parts).tokens).2 =
      q.texts := by
    rw [gather_pageOf, readTexts_parts, given_parts]
  refine ⟨_, p.toHtml_scan, ⟨gather_pageOf _, p.given_parts, fun x hx => (p.parts_proper x hx).2,
    hread p⟩, fun q hq => ?_⟩
  have hform := form_parts hq
  refine ⟨hform, ⟨_, q.toHtml_scan, ?_⟩, fun hhtml => ?_, fun htexts => ?_⟩
  · rw [tags_pageOf, tags_pageOf, hform]
  · -- the same text is read as the same tokens, and the same form finds the same texts there
    have hscan := q.toHtml_scan
    rw [hhtml, p.toHtml_scan, Option.some.injEq] at hscan
    rw [← hread q, ← hscan, hform, hread p]
  · rw [← given_parts, ← given_parts] at htexts
    rw [← String.toList_inj, toHtml_written, toHtml_written, eq_of_given hform htexts]

/-- A file, and one of the same shape whose texts are full of markup. -/
theorem toHtml_readBack_hostile :
    let p : Panel :=
      { title := "a.c", facts := [⟨"Type", "file"⟩],
        sections := [⟨"Inputs", .list ["x", "y"], false⟩, ⟨"Source Code", .code "x = 1;", true⟩] }
    let q : Panel :=
      { title := "<h2 id=\"x\">", facts := [⟨"</p>", "&lt;"⟩],
        sections := [⟨"▶ </h3>", .list ["", "</li><li>"], false⟩,
          ⟨"'&amp;'", .code "a < b && c > \"</code>\"", true⟩] }
    q.shape = p.shape ∧
      (∃ tokens others, scan p.toHtml.toList = some tokens ∧ scan q.toHtml.toList = some others ∧
        tags others = tags tokens) ∧
      q.toHtml ≠ p.toHtml := by
  intro p q
  have hshape : q.shape = p.shape := by decide
  have htexts : q.texts ≠ p.texts := by decide
  obtain ⟨tokens, hscan, _, hsame⟩ := toHtml_readBack p
  obtain ⟨_, ⟨others, hothers, htags⟩, hhtml⟩ := hsame q hshape
  exact ⟨hshape, ⟨tokens, others, hscan, hothers, htags⟩, fun heq => htexts (hhtml.mp heq)⟩

end SourceAtlas.Panel
