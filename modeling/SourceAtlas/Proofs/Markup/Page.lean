import SourceAtlas.Proofs.Svg.ReadBack

/-! # Pages

A page is written tag by tag, each with escaped character data behind it. A scanner reads it back as
the same tags with the same data, whatever the data is: what is put between the tags cannot become
one. -/

namespace SourceAtlas.Markup

/-! ## Escaped texts -/

@[simp] theorem escapeChars_nil : escapeChars [] = [] := rfl

theorem escapeChars_append (cs ds : List Char) :
    escapeChars (cs ++ ds) = escapeChars cs ++ escapeChars ds :=
  List.flatMap_append

theorem toList_escape (s : String) : (escape s).toList = escapeChars s.toList :=
  String.toList_ofList

/-- A number is written as it is. -/
theorem escapeChars_digits (n : Nat) : escapeChars (toString n).toList = (toString n).toList := by
  have hdigit (c : Char) (hc : c ∈ (toString n).toList) : escapeChar c = [c] := by
    rw [Nat.toString_eq_repr, Nat.toList_repr] at hc
    have hc := Nat.isDigit_of_mem_toDigits (by decide) (by decide) hc
    refine escapeChar_of_plain fun hsign => ?_
    fin_cases hsign <;> cases hc
  rw [escapeChars, List.flatMap_congr hdigit, List.flatMap_singleton']

/-! ## Tags -/

inductive Tag where
  | opening (name : String) (attributes : List (String × String))
  | closing (name : String)
  deriving DecidableEq, Repr

namespace Tag

def token : Tag → Token
  | opening name attributes => .opening name attributes
  | closing name => .closing name

def written : Tag → List Char
  | opening name attributes => Svg.startTag name attributes ++ ['>']
  | closing name => Svg.endTag name

def names : Tag → List String
  | opening name attributes => name :: attributes.map Prod.fst
  | closing name => [name]

def Named (t : Tag) : Prop := ∀ name ∈ t.names, IsName name

instance (t : Tag) : Decidable t.Named := inferInstanceAs (Decidable (∀ name ∈ t.names, _))

end Tag

/-! ## Pages as they are written and read -/

/-- Tags with the character data behind them. -/
abbrev Page := List (Tag × String)

namespace Page

def written (page : Page) : List Char :=
  page.flatMap fun x => x.1.written ++ escapeChars x.2.toList

def tokens (page : Page) : List Token := page.flatMap fun x => x.1.token :: Svg.textTokens x.2

theorem written_cons (x : Tag × String) (page : Page) :
    written (x :: page) = x.1.written ++ escapeChars x.2.toList ++ written page := rfl

theorem written_append (page more : Page) :
    written (page ++ more) = written page ++ written more :=
  List.flatMap_append

end Page

/-! ## A page read back -/

/-- A tag ends the character data before it. -/
theorem foldl_tag {t : Tag} (h : t.Named) (read : List Char) (told : List Token) :
    t.written.foldl step (.data read, told) = (.data [], t.token :: flush read told) := by
  cases t with
  | opening name attributes =>
    obtain ⟨hname, hattributes⟩ := List.forall_mem_cons.mp h
    rw [Tag.written,
      Svg.foldl_startTag (c := '>') hname (List.forall_mem_map.mp hattributes) rfl nofun]
    rfl
  | closing name => exact foldl_endTag (h name (List.mem_singleton_self name)) read

theorem foldl_escaped (text : String) (told : List Token) :
    (escapeChars text.toList).foldl step (.data [], told) =
      (.data (escapeChars text.toList).reverse, told) := by
  rw [foldl_data fun c hc => (mem_escapeChars hc).2, List.append_nil]

namespace Page

/-- Reading a page behind character data that is not yet told ends in such data again; once that is
told too, the tokens of the page have been told in order. -/
theorem foldl_written {page : Page} (h : ∀ x ∈ page, x.1.Named) (text : String)
    (told : List Token) :
    ∃ read all, page.written.foldl step (.data (escapeChars text.toList).reverse, told) =
        (.data read, all) ∧
      (flush read all).reverse = told.reverse ++ (Svg.textTokens text ++ page.tokens) := by
  induction page generalizing text told with
  | nil =>
    refine ⟨_, _, rfl, ?_⟩
    rw [Svg.flush_text, List.reverse_append, List.reverse_reverse, tokens, List.flatMap_nil,
      List.append_nil]
  | cons x page ih =>
    obtain ⟨hx, hpage⟩ := List.forall_mem_cons.mp h
    obtain ⟨read, all, hfold, htold⟩ :=
      ih hpage x.2 (x.1.token :: flush (escapeChars text.toList).reverse told)
    refine ⟨read, all, ?_, ?_⟩
    · rw [written_cons, List.foldl_append, List.foldl_append, foldl_tag hx, foldl_escaped, hfold]
    · rw [htold, Svg.flush_text]
      simp [tokens]

theorem scan_written {page : Page} (h : ∀ x ∈ page, x.1.Named) :
    scan page.written = some page.tokens := by
  obtain ⟨read, all, hfold, htold⟩ := foldl_written h "" []
  have hstart : page.written.foldl step (.data [], []) = (.data read, all) := hfold
  rw [scan, hstart]
  exact congrArg some htold

end Page

/-! ## Tags and the data behind them -/

def Token.isTag : Token → Bool
  | .chars _ => false
  | _ => true

def tags (ts : List Token) : List Token := ts.filter Token.isTag

/-- The character data before the first tag, and each tag with the data between it and the next. -/
def gather : List Token → String × List (Token × String)
  | [] => ("", [])
  | .chars text :: ts => (text ++ (gather ts).1, (gather ts).2)
  | t :: ts => ("", (t, (gather ts).1) :: (gather ts).2)

theorem gather_tag (t : Tag) (ts : List Token) :
    gather (t.token :: ts) = ("", (t.token, (gather ts).1) :: (gather ts).2) := by
  cases t <;> rfl

theorem gather_text (text : String) (ts : List Token) :
    gather (Svg.textTokens text ++ ts) = (text ++ (gather ts).1, (gather ts).2) := by
  rw [Svg.textTokens]
  split
  · next h => rw [h, List.nil_append, String.empty_append]
  · rfl

theorem isTag_token (t : Tag) : t.token.isTag = true := by cases t <;> rfl

theorem tags_text (text : String) : tags (Svg.textTokens text) = [] := by
  rw [Svg.textTokens]
  split <;> rfl

namespace Page

theorem gather_tokens (page : Page) :
    gather page.tokens = ("", page.map fun x => (x.1.token, x.2)) := by
  induction page with
  | nil => rfl
  | cons x page ih =>
    rw [tokens, List.flatMap_cons, List.cons_append, gather_tag, gather_text, ← tokens, ih,
      String.append_empty]
    rfl

theorem tags_tokens (page : Page) : tags page.tokens = page.map fun x => x.1.token := by
  induction page with
  | nil => rfl
  | cons x page ih =>
    rw [tokens, List.flatMap_cons, tags, List.filter_append, ← tokens, List.filter_cons,
      if_pos (isTag_token x.1), ← tags, tags_text, ← tags, ih]
    rfl

end Page

end SourceAtlas.Markup
