import SourceAtlas.Server.Target
import SourceAtlas.Server.Page
import SourceAtlas.Loader.Basic
import SourceAtlas.Panel.Document
import SourceAtlas.Diagram.Render

/-! Answers to requests. Every request reads the document anew, so no answer depends on an earlier
one. -/

namespace SourceAtlas.Server

structure Request where
  method : String
  target : Target

/-- A response. Every response may be read by pages from other origins. -/
structure Response where
  status : Nat
  contentType : Option String := none
  body : String := ""

structure Site where
  loader : Loader
  dims : Dimensions Float := Dimensions.standard

namespace Response

def text (status : Nat) (body : String) : Response :=
  ⟨status, some "text/plain; charset=utf-8", body⟩

def json (v : Json) : Response := ⟨200, some "application/json", v.compact⟩

def svg (document : String) : Response := ⟨200, some "image/svg+xml", document⟩

def badRequest : Response := text 400 ""

def noFile : Response := text 404 "File not found"

def noPage : Response := ⟨404, none, ""⟩

end Response

inductive Route where
  | index
  | codebase
  | sourceCode
  | links
  | details
  | svg (renderer : String)
  deriving DecidableEq, Repr

/-- The route of a path; nothing is decoded, and a drawing is called by one further step. -/
def Route.ofPath? (path : String) : Option Route :=
  match path with
  | "/" => some .index
  | "/api/codebase" => some .codebase
  | "/api/source-code" => some .sourceCode
  | "/api/links" => some .links
  | "/api/details" => some .details
  | path =>
    let start := "/api/svg/".toList
    let rest := path.toList.drop start.length
    if start.isPrefixOf path.toList ∧ rest ≠ [] ∧ '/' ∉ rest then some (.svg (String.ofList rest))
    else none

def Route.knownNames : Route → List String
  | .index => []
  | .codebase => ["includeSource"]
  | .sourceCode => ["path"]
  | .links => ["view"]
  | .details => ["id", "name", "includeSource"]
  | .svg _ => ["links"]

/-- A query, known names at most once. -/
structure Query where
  pairs : List (String × String)

/-- The query of a route; nothing when a known name stands twice. -/
def Query.parse? (route : Route) (text : String) : Option Query :=
  let pairs := Text.Percent.formPairs text
  let known := (pairs.map (·.1)).filter route.knownNames.contains
  if known.Nodup then some ⟨pairs⟩ else none

def Query.get? (q : Query) (name : String) : Option String := q.pairs.lookup name

/-- Whether sources are asked for, by the word `true` alone. -/
def Query.includeSource (q : Query) : Bool := q.get? "includeSource" == some "true"

def loadTree (site : Site) (includeSource : Bool) : Logged Node := do
  let tree ← site.loader.load
  if includeSource then site.loader.hydrate tree else return tree

/-- The whole tree, the keys of every object in order. -/
def codebase (site : Site) (q : Query) : Logged Response := do
  let tree ← loadTree site q.includeSource
  return .json (Document.ofNode tree).canonical

def sourceCode (site : Site) (q : Query) : Logged Response :=
  match q.get? "path" with
  | none => pure .noFile
  | some path => do
    match ← site.loader.readSource path with
    | .ok source => return .text 200 source
    | .error e =>
      Logged.warn ("Error reading source file: " ++ e.message)
      return .noFile

/-- The links of a view; a name that is no view has none. -/
def links (site : Site) (q : Query) : Logged Response := do
  let tree ← loadTree site false
  let view := (q.get? "view").getD View.hierarchy.name
  return .json (Link.listJson view (tree.linksNamed view))

/-- The panel of the node at a position, with its source if it is asked for. -/
def nodePanel (site : Site) (q : Query) (tree : Node) (id : Nat) : Logged Panel := do
  let node ← if q.includeSource then site.loader.hydrateOne tree id else pure (tree.findById id)
  return match node with
    | some n => Panel.ofNode n
    | none => Panel.empty

/-- The panel of a node, called by its position or else by its name. -/
def detailPanel (site : Site) (q : Query) (id? : Option Nat) : Logged Panel := do
  let tree ← site.loader.load
  match id?, q.get? "name" with
  | some id, _ => nodePanel site q tree id
  | none, some name =>
    match tree.idOf name with
    | some id => nodePanel site q tree id
    | none => return Panel.ofEndpoint (Endpoint.ofName name)
  | none, none => return Panel.empty

/-- The panel of a node as JSON. A position has to be an unsigned integer. -/
def details (site : Site) (q : Query) : Logged Response :=
  match q.get? "id" with
  | none => do return .json (← detailPanel site q none).toJson
  | some text =>
    match unsigned? text with
    | some id => do return .json (← detailPanel site q (some id)).toJson
    | none => pure .badRequest

def drawing (site : Site) (renderer : Renderer) (view : Option String) (tree : Node) : String :=
  match renderer, view with
  | .arc, some view => ((ArcDiagram.ofTree tree site.dims).select view).toSvg
  | renderer, _ => Diagram.draw tree renderer site.dims .hierarchy

/-- A drawing; the kind of diagram is percent-encoded. -/
def svg (site : Site) (step : String) (query : Option Query) : Logged Response :=
  match Text.Percent.decode? step, query with
  | some name, some q =>
    match Renderer.parse? name with
    | some renderer => do
      let tree ← loadTree site false
      return .svg (drawing site renderer (q.get? "links") tree)
    | none => pure (.text 404 ("Unknown renderer: " ++ name))
  | _, _ => pure .badRequest

def Route.answer (site : Site) (route : Route) (query : String) : Logged Response :=
  match route, Query.parse? route query with
  | .index, _ => pure ⟨200, some "text/html; charset=utf-8", page⟩
  | .svg step, q => Server.svg site step q
  | _, none => pure .badRequest
  | .codebase, some q => Server.codebase site q
  | .sourceCode, some q => Server.sourceCode site q
  | .links, some q => Server.links site q
  | .details, some q => Server.details site q

/-- The answer to a request. `HEAD` is answered like `GET` but without the body; any page may ask
for the options, and no other method is known. -/
def respond (site : Site) (r : Request) : Logged Response :=
  if r.method = "OPTIONS" then pure ⟨200, none, ""⟩
  else match Route.ofPath? r.target.path with
    | none => pure .noPage
    | some route =>
      if r.method = "GET" then route.answer site r.target.query
      else if r.method = "HEAD" then do
        return { ← route.answer site r.target.query with body := "" }
      else pure ⟨405, none, ""⟩

theorem respond_get (site : Site) {path query : String} {route : Route}
    (h : Route.ofPath? path = some route) :
    respond site ⟨"GET", path, query⟩ = route.answer site query := by
  simp [respond, h]

end SourceAtlas.Server
