import SourceAtlas.Markup.Escape
import SourceAtlas.Svg.Number

/-! Drawings as steps, and the document they make. Groups nest; one that is left open is closed at
the end, and closing when no group is open does nothing. Each element stands on a line of its
own. -/

namespace SourceAtlas.Svg

abbrev Attributes := List (String × String)

inductive Step where
  /-- Opens a group. -/
  | enter (tag : String) (attributes : Attributes)
  /-- Closes the innermost open group. -/
  | leave
  /-- An element without content. -/
  | element (tag : String) (attributes : Attributes)
  /-- An element with a text. -/
  | text (tag : String) (attributes : Attributes) (content : String)
  deriving DecidableEq, Repr

abbrev Drawing := List Step

/-- Two spaces for the document and for each open group. -/
def indent (level : Nat) : List Char := List.replicate (2 * (level + 1)) ' '

/-- An attribute with a blank before it. -/
def attributeChars (a : String × String) : List Char :=
  ' ' :: (a.1.toList ++ '=' :: '"' :: (Markup.escapeChars a.2.toList ++ ['"']))

def startTag (tag : String) (attributes : Attributes) : List Char :=
  '<' :: (tag.toList ++ attributes.flatMap attributeChars)

def endTag (tag : String) : List Char := '<' :: '/' :: (tag.toList ++ ['>'])

/-- The lines that close the open groups, innermost first. -/
def closingLines : List String → List Char
  | [] => []
  | tag :: outer => indent outer.length ++ endTag tag ++ '\n' :: closingLines outer

/-- The lines of a drawing when the given groups, innermost first, are open. -/
def linesFrom (opened : List String) : Drawing → List Char
  | [] => closingLines opened
  | .enter tag attributes :: rest =>
    indent opened.length ++ startTag tag attributes ++ '>' :: '\n' ::
      linesFrom (tag :: opened) rest
  | .leave :: rest =>
    match opened with
    | [] => linesFrom [] rest
    | tag :: outer => indent outer.length ++ endTag tag ++ '\n' :: linesFrom outer rest
  | .element tag attributes :: rest =>
    indent opened.length ++ startTag tag attributes ++ '/' :: '>' :: '\n' :: linesFrom opened rest
  | .text tag attributes content :: rest =>
    indent opened.length ++ startTag tag attributes ++ '>' ::
      (Markup.escapeChars content.toList ++ endTag tag ++ '\n' :: linesFrom opened rest)

def documentTag (width height : Float) : List Char :=
  startTag "svg" [("xmlns", "http://www.w3.org/2000/svg"), ("width", number width),
    ("height", number height), ("viewBox", "0 0 " ++ number width ++ " " ++ number height),
    ("font-family", "sans-serif")]

def document (width height : Float) (drawing : Drawing) : String :=
  String.ofList (documentTag width height ++ '>' :: '\n' ::
    (linesFrom [] drawing ++ endTag "svg" ++ ['\n']))

end SourceAtlas.Svg
