/-! Text inside markup. The five characters that could be read as markup are written as entities. -/

namespace SourceAtlas.Markup

/-- A character as it stands in character data or in an attribute value. -/
def escapeChar : Char → List Char
  | '&' => "&amp;".toList
  | '<' => "&lt;".toList
  | '>' => "&gt;".toList
  | '"' => "&quot;".toList
  | '\'' => "&#39;".toList
  | c => [c]

def escapeChars (cs : List Char) : List Char := cs.flatMap escapeChar

def escape (s : String) : String := String.ofList (escapeChars s.toList)

end SourceAtlas.Markup
