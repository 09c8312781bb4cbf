import SourceAtlas.Panel.Basic
import SourceAtlas.Text.Pieces

/-! A panel as Markdown. A collapsed section shows only its heading. -/

namespace SourceAtlas.Panel

def trimEnd (s : String) : String :=
  String.ofList (s.toList.reverse.dropWhile Text.isBlank).reverse

def bodyMarkdown : Body → String
  | .text value => value ++ "\n"
  | .list [] => "*None*\n"
  | .list items => String.join (items.map fun item => "- " ++ item ++ "\n")
  | .code value => "```\n" ++ trimEnd value ++ "\n```\n"

def sectionMarkdown (s : Section) : String :=
  "\n### " ++ (if s.expanded then "▼" else "▶") ++ " " ++ s.title ++ "\n\n"
    ++ (if s.expanded then bodyMarkdown s.body else "")

/-- The whole panel; without a title, only the message. -/
def toMarkdown (p : Panel) : String :=
  if p.title.isEmpty then
    match p.message with
    | some message => message ++ "\n"
    | none => ""
  else
    "## " ++ p.title ++ "\n\n"
      ++ String.join (p.facts.map fun f => "- **" ++ f.label ++ ":** " ++ f.value ++ "\n")
      ++ (match p.message with
        | some message => "\n*" ++ message ++ "*\n"
        | none => "")
      ++ String.join (p.sections.map sectionMarkdown)

end SourceAtlas.Panel
