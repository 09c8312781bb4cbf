import SourceAtlas.Panel.Basic
import SourceAtlas.Json.Printer

/-! Panels and links as JSON. -/

namespace SourceAtlas

def Body.toJson : Body → Json
  | .text value => .obj [("kind", .str "text"), ("value", .str value)]
  | .list items => .obj [("kind", .str "list"), ("value", .arr (items.map .str))]
  | .code value => .obj [("kind", .str "code"), ("value", .str value)]

def Section.toJson (s : Section) : Json :=
  .obj [("title", .str s.title), ("body", s.body.toJson), ("expanded", .bool s.expanded)]

def Fact.toJson (f : Fact) : Json := .obj [("label", .str f.label), ("value", .str f.value)]

/-- A panel as JSON; the message is left out when there is none. -/
def Panel.toJson (p : Panel) : Json :=
  .obj ([("title", .str p.title), ("facts", .arr (p.facts.map Fact.toJson)),
    ("sections", .arr (p.sections.map Section.toJson))]
    ++ p.message.toList.map fun m => ("message", .str m))

def Link.toJson (l : Link) : Json := .obj [("source", .str l.source), ("target", .str l.target)]

def Endpoint.toJson (e : Endpoint) : Json :=
  .obj [("id", .str e.name), ("group", .str e.group.name)]

/-- Links with their endpoints as JSON, under the name by which the view was called. -/
def Link.listJson (view : String) (links : List Link) : Json :=
  .obj [("view", .str view), ("links", .arr (links.map Link.toJson)),
    ("nodes", .arr ((Link.endpoints links).map Endpoint.toJson))]

end SourceAtlas
