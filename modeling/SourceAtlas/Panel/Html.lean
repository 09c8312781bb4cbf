import SourceAtlas.Panel.Basic
import SourceAtlas.Markup.Escape

/-! A panel as HTML. -/

namespace SourceAtlas.Panel

open Markup (escape)

def bodyHtml : Body → String
  | .text value => "<p>" ++ escape value ++ "</p>"
  | .list items =>
    "<ul>" ++ String.join (items.map fun item => "<li>" ++ escape item ++ "</li>") ++ "</ul>"
  | .code value => "<pre><code>" ++ escape value ++ "</code></pre>"

/-- A section with its index; the body of a collapsed one is there but not displayed. -/
def sectionHtml (index : Nat) (s : Section) : String :=
  "<div class=\"collapsible-section\" data-index=\"" ++ toString index
    ++ "\"><h3><span class=\"collapse-icon\">" ++ (if s.expanded then "▼" else "▶")
    ++ "</span> " ++ escape s.title
    ++ "</h3><div class=\"section-content\" style=\"display: "
    ++ (if s.expanded then "block" else "none") ++ "\">" ++ bodyHtml s.body ++ "</div></div>"

/-- The whole panel; with a message and no title, only the message. -/
def toHtml (p : Panel) : String :=
  match p.title.isEmpty, p.message with
  | true, some message => "<p>" ++ escape message ++ "</p>"
  | _, message =>
    "<h2>" ++ escape p.title ++ "</h2>"
      ++ String.join (p.facts.map fun f =>
        "<p>" ++ escape f.label ++ ": " ++ escape f.value ++ "</p>")
      ++ (match message with
        | some m => "<p><em>" ++ escape m ++ "</em></p>"
        | none => "")
      ++ String.join (p.sections.zipIdx.map fun (s, i) => sectionHtml i s)

end SourceAtlas.Panel
