import Mathlib.Data.List.Induction
import SourceAtlas.Atlas
import SourceAtlas.Proofs.Links.Endpoints
import SourceAtlas.Proofs.Lists
import SourceAtlas.Proofs.Server.Codebase

/-! # Runs of an arc diagram

Whatever was done to a diagram before, it shows the view chosen last, and the pointer is where it
went after that. What a diagram keeps at hand always fits its view, so every link has its semicircle
and the drawing leaves nothing out. -/

namespace SourceAtlas

/-! ## Positions on the line -/

theorem Layout.pointScale_length {α : Type} [Scalar α] (count : Nat) (start stop : α) :
    (pointScale count start stop).length = count := by
  unfold pointScale
  split
  · rfl
  · rfl
  · rw [List.length_map, List.length_range]

namespace ArcDiagram

/-- Among placed endpoints with distinct names, each name has the height it was placed at. -/
theorem heightIn_zip {es : List Endpoint} {ys : List Float} (hn : (es.map (·.name)).Nodup)
    {k : Nat} {e : Endpoint} {y : Float} (he : es[k]? = some e) (hy : ys[k]? = some y) :
    heightIn (es.zip ys) e.name = some y := by
  induction es generalizing ys k with
  | nil => cases he
  | cons e' es ih =>
    obtain ⟨hnot, hn⟩ := List.nodup_cons.mp hn
    cases ys with
    | nil => cases hy
    | cons y' ys =>
      cases k with
      | zero =>
        cases he
        cases hy
        simp [heightIn]
      | succ k =>
        have hmem : e.name ∈ es.map (·.name) :=
          List.mem_map_of_mem (List.mem_of_getElem? he)
        have hne : e'.name ≠ e.name := ne_of_mem_of_not_mem hmem hnot |>.symm
        rw [← ih hn he hy]
        simp [heightIn, hne]

theorem heightIn_isSome {es : List Endpoint} {ys : List Float} (hlen : es.length = ys.length)
    (name : String) : (heightIn (es.zip ys) name).isSome ↔ name ∈ es.map (·.name) := by
  have hfst : (es.zip ys).map Prod.fst = es := List.map_fst_zip (Nat.le_of_eq hlen)
  have hnames : es.map (·.name) = (es.zip ys).map (·.1.name) := by
    conv_lhs => rw [← hfst, List.map_map]
    rfl
  rw [heightIn, Option.isSome_map, List.find?_isSome, hnames, List.mem_map]
  simp only [beq_iff_eq]

/-! ## What can be done to a diagram -/

inductive Action where
  | setView (view : View)
  | select (text : String)
  | hover (name : String)
  | leave
  deriving DecidableEq, Repr

def act (d : ArcDiagram) : Action → ArcDiagram
  | .setView view => d.setView view
  | .select text => d.select text
  | .hover name => d.hover name
  | .leave => d.leave

def after (d : ArcDiagram) (actions : List Action) : ArcDiagram := actions.foldl act d

/-- What an action does to the view, if anything: it shows another one, or none. -/
def Action.view? : Action → Option (Option View)
  | .setView view => some (some view)
  | .select text => some (View.parse? text)
  | .hover _ => none
  | .leave => none

/-- Where an action moves the pointer, if at all: over a name, or away. -/
def Action.pointer? : Action → Option (Option String)
  | .setView _ => none
  | .select _ => none
  | .hover name => some (some name)
  | .leave => some none

/-- The view chosen last; at first it is the hierarchy. -/
def lastView (actions : List Action) : Option View :=
  (actions.reverse.findSome? Action.view?).getD (some .hierarchy)

/-- Where the pointer went last after the view was chosen. -/
def lastPointer (actions : List Action) : Option String :=
  ((actions.reverse.takeWhile (·.view?.isNone)).findSome? Action.pointer?).getD none

/-- The diagram of a view with the pointer over a name or nowhere. -/
def showing (tree : Node) (dims : Dimensions Float) (view : Option View) (hovered : Option String) :
    ArcDiagram :=
  let links := (view.map tree.links).getD []
  let d : ArcDiagram := { tree, dims, view, links, endpoints := [], placed := [], hovered := none }
  { d.reindex with hovered }

section Showing
variable (tree : Node) (dims : Dimensions Float) (view : Option View) (hovered : Option String)

theorem ofTree_eq : ofTree tree dims = showing tree dims (some .hierarchy) none := rfl

/-- An action replaces the view and forgets the pointer, or it moves the pointer only. -/
theorem showing_act (a : Action) : (showing tree dims view hovered).act a =
    match a.view? with
    | some view => showing tree dims view none
    | none => showing tree dims view (a.pointer?.getD hovered) := by
  cases a with
  | setView view => rfl
  | select text =>
    rw [act, select, Action.view?]
    cases View.parse? text <;> rfl
  | hover name => rfl
  | leave => rfl

end Showing

/-- After any actions a diagram shows the view chosen last, with the pointer where it went last. -/
theorem after_eq (tree : Node) (dims : Dimensions Float) (actions : List Action) :
    (ofTree tree dims).after actions =
      showing tree dims (lastView actions) (lastPointer actions) := by
  induction actions using List.reverseRecOn with
  | nil => rw [after, List.foldl_nil, ofTree_eq]; rfl
  | append_singleton actions a ih =>
    have hlast :
        (ofTree tree dims).after (actions ++ [a]) = ((ofTree tree dims).after actions).act a :=
      List.foldl_concat act _ a actions
    rw [hlast, ih, showing_act, lastView, lastView, lastPointer, lastPointer, List.reverse_append,
      List.reverse_singleton, List.singleton_append, List.findSome?_cons]
    cases hv : a.view? with
    | some view => rw [List.takeWhile_cons_of_neg (by simp [hv])]; rfl
    | none =>
      rw [List.takeWhile_cons_of_pos (by simp [hv]), List.findSome?_cons]
      cases a.pointer? <;> rfl

/-! ## What fits a view -/

/-- What a diagram keeps at hand fits its links. -/
structure Indexed (d : ArcDiagram) : Prop where
  endpoints : d.endpoints = Link.endpoints d.links
  placed : d.placed = d.endpoints.zip (Layout.pointScale d.endpoints.length 0.0 d.height)

theorem showing_indexed (tree : Node) (dims : Dimensions Float) (view : Option View)
    (hovered : Option String) : (showing tree dims view hovered).Indexed := ⟨rfl, rfl⟩

namespace Indexed

variable {d : ArcDiagram}

theorem position (h : d.Indexed) {k : Nat} {e : Endpoint} (he : d.endpoints[k]? = some e) :
    ∃ y, (Layout.pointScale d.endpoints.length 0.0 d.height)[k]? = some y ∧
      d.position? e.name = some y := by
  obtain ⟨hk, _⟩ := List.getElem?_eq_some_iff.mp he
  have hy := List.getElem?_eq_getElem (l := Layout.pointScale d.endpoints.length 0.0 d.height)
    (i := k) (by rwa [Layout.pointScale_length])
  refine ⟨_, hy, ?_⟩
  rw [position?, h.placed]
  exact heightIn_zip (h.endpoints ▸ Link.endpoints_nodup d.links) he hy

theorem position_isSome (h : d.Indexed) (name : String) :
    (d.position? name).isSome ↔ name ∈ d.endpoints.map (·.name) := by
  rw [position?, h.placed]
  exact heightIn_isSome (Layout.pointScale_length ..).symm name

/-- Both ends of every link are on the line. -/
theorem path (h : d.Indexed) {l : Link} (hl : l ∈ d.links) : (d.path? l).isSome := by
  have hends : ∀ name, l.source = name ∨ l.target = name → (d.position? name).isSome := by
    intro name hname
    rw [h.position_isSome, h.endpoints]
    exact Link.mem_endpoints.mpr ⟨l, hl, hname⟩
  obtain ⟨y, hy⟩ := Option.isSome_iff_exists.mp (hends l.source (.inl rfl))
  obtain ⟨z, hz⟩ := Option.isSome_iff_exists.mp (hends l.target (.inr rfl))
  rw [position?] at hy hz
  simp [path?, pathIn, hy, hz]

end Indexed

/-! ## What is drawn -/

open Svg (Drawing Step)

/-- The ends of a link that a step draws a semicircle for. -/
def drawnLink? : Step → Option (Option String × Option String)
  | .element "path" attributes =>
    some (attributes.lookup "data-source", attributes.lookup "data-target")
  | _ => none

/-- The name of an endpoint for which a step opens a group. -/
def drawnEndpoint? : Step → Option (Option String)
  | .enter "g" attributes =>
    if attributes.lookup "class" = some "arc-node" then some (attributes.lookup "data-id") else none
  | _ => none

theorem legend_links (width : Float) (dims : Dimensions Float) :
    (Diagram.legend width dims).filterMap drawnLink? = [] := by
  rw [Diagram.legend, List.filterMap_append, List.filterMap_append,
    Lists.filterMap_flatMap_none fun _ _ => rfl]
  rfl

theorem legend_endpoints (width : Float) (dims : Dimensions Float) :
    (Diagram.legend width dims).filterMap drawnEndpoint? = [] := by
  rw [Diagram.legend, List.filterMap_append, List.filterMap_append,
    Lists.filterMap_flatMap_none fun _ _ => rfl]
  rfl

namespace Indexed

variable {d : ArcDiagram}

/-- One semicircle is drawn for each link, in order. -/
theorem drawing_links (h : d.Indexed) : d.drawing.filterMap drawnLink? =
    d.links.map fun l => (some l.source, some l.target) := by
  have hlinks : (d.links.flatMap d.linkDrawing).filterMap drawnLink? =
      d.links.map fun l => (some l.source, some l.target) := by
    refine Lists.filterMap_flatMap_single fun l hl => ?_
    obtain ⟨path, hpath⟩ := Option.isSome_iff_exists.mp (h.path hl)
    rw [linkDrawing, hpath]
    rfl
  have hends : (d.endpoints.flatMap d.endpointDrawing).filterMap drawnLink? = [] :=
    Lists.filterMap_flatMap_none fun _ _ => rfl
  rw [drawing]
  simp only [List.filterMap_append, hlinks, hends, legend_links]
  show [] ++ d.links.map _ ++ [] ++ [] ++ [] ++ [] = d.links.map _
  simp

/-- One group is drawn for each endpoint, in order. -/
theorem drawing_endpoints (h : d.Indexed) : d.drawing.filterMap drawnEndpoint? =
    d.endpoints.map fun e => some e.name := by
  have hlinks : (d.links.flatMap d.linkDrawing).filterMap drawnEndpoint? = [] := by
    refine Lists.filterMap_flatMap_none fun l hl => ?_
    obtain ⟨path, hpath⟩ := Option.isSome_iff_exists.mp (h.path hl)
    rw [linkDrawing, hpath]
    rfl
  have hends : (d.endpoints.flatMap d.endpointDrawing).filterMap drawnEndpoint? =
      d.endpoints.map fun e => some e.name :=
    Lists.filterMap_flatMap_single fun _ _ => rfl
  rw [drawing]
  simp only [List.filterMap_append, hlinks, hends, legend_endpoints]
  show [] ++ [] ++ [] ++ d.endpoints.map _ ++ [] ++ [] = d.endpoints.map _
  simp

end Indexed

/-! ## Runs -/

/-- The drawing that a site gives for a view called by any of its names. -/
theorem svg_arc {site : Server.Site} {query text : String} {q : Server.Query} {view : View}
    (hparse : Server.Query.parse? (.svg "arc") query = some q) (htext : q.get? "links" = some text)
    (hview : View.parse? text = some view) :
    (Server.respond site ⟨"GET", "/api/svg/arc", query⟩).value =
      .svg (Diagram.draw site.loader.load.value .arc site.dims view) := by
  have hstep : Text.Percent.decode? "arc" = some "arc" := by decide +kernel
  have hname : Renderer.parse? "arc" = some .arc := by decide
  have hroute : Server.Route.ofPath? "/api/svg/arc" = some (.svg "arc") := by decide
  rw [Server.respond_get site hroute]
  unfold Server.Route.answer
  rw [hparse]
  simp only [Server.svg, hstep, hname, htext]
  show Server.Response.svg (Server.drawing site .arc (some text) site.loader.load.value) = _
  simp only [Server.drawing, select, hview]
  rfl

/-- After any actions on a fresh diagram, what it keeps at hand fits its view: the links are those
of the view, the endpoints are theirs, exactly the endpoints have heights, evenly spaced in order,
and every link has a semicircle. Choosing a view takes the pointer away. The diagram depends on the
view chosen last and the pointer's last move after that alone, and its drawing has one semicircle
for each link and one group for each endpoint. Hence a view is drawn the same whichever way it is
asked for. -/
theorem after_actions (tree : Node) (dims : Dimensions Float) (actions : List Action) :
    let d := (ofTree tree dims).after actions
    ((d.links = match d.view with
        | some view => tree.links view
        | none => []) ∧
      d.endpoints = Link.endpoints d.links ∧
      (∀ name, (d.position? name).isSome ↔ name ∈ d.endpoints.map (·.name)) ∧
      (∀ (k : Nat) (e : Endpoint), d.endpoints[k]? = some e →
        ∃ y, (Layout.pointScale d.endpoints.length 0.0 d.height)[k]? = some y ∧
          d.position? e.name = some y) ∧
      (∀ l ∈ d.links, (d.path? l).isSome) ∧
      (∀ view, (d.setView view).hovered = none) ∧ ∀ text, (d.select text).hovered = none) ∧
    (d.view = lastView actions ∧ d.hovered = lastPointer actions ∧
      ∀ others, lastView others = lastView actions → lastPointer others = lastPointer actions →
        (ofTree tree dims).after others = d ∧ ((ofTree tree dims).after others).toSvg = d.toSvg) ∧
    (d.toSvg = Svg.document dims.width (d.height + dims.margin.top + dims.margin.bottom) d.drawing ∧
      d.drawing.filterMap drawnLink? = d.links.map (fun l => (some l.source, some l.target)) ∧
      d.drawing.filterMap drawnEndpoint? = d.endpoints.map fun e => some e.name) ∧
    ∀ view expand, tree.drawing .arc { dims, view, expand } =
        .ok (Diagram.draw tree .arc dims view) ∧
      ∀ (site : Server.Site) query q text, site.loader.load.value = tree → site.dims = dims →
        Server.Query.parse? (.svg "arc") query = some q → q.get? "links" = some text →
        View.parse? text = some view →
          (Server.respond site ⟨"GET", "/api/svg/arc", query⟩).value =
            .svg (Diagram.draw tree .arc dims view) := by
  intro d
  have hd : d = showing tree dims (lastView actions) (lastPointer actions) :=
    after_eq tree dims actions
  have hi : d.Indexed := hd ▸ showing_indexed ..
  refine ⟨⟨?_, hi.endpoints, hi.position_isSome, fun k e => hi.position, fun l => hi.path,
    fun view => rfl, ?_⟩, ⟨by rw [hd]; rfl, by rw [hd]; rfl, ?_⟩,
    ⟨by rw [hd]; rfl, hi.drawing_links, hi.drawing_endpoints⟩, ?_⟩
  · rw [hd]
    show ((lastView actions).map tree.links).getD [] = match lastView actions with
      | some view => tree.links view
      | none => []
    cases lastView actions <;> rfl
  · intro text
    rw [select]
    cases View.parse? text <;> rfl
  · intro others hview hpointer
    have hsame : (ofTree tree dims).after others = d := by rw [hd, after_eq, hview, hpointer]
    exact ⟨hsame, congrArg toSvg hsame⟩
  · intro view expand
    refine ⟨rfl, ?_⟩
    rintro site query q text rfl rfl hparse htext hview
    exact svg_arc hparse htext hview

/-- Two files that take the same input, one of them also what the other is called. -/
def sampleTree : Node :=
  .directory "src" [
    .mk { name := "a.c", kind := .file, inputs := ["x", "b.c"], outputs := ["y"] } none,
    .mk { name := "b.c", kind := .file, inputs := ["x"] } none]

/-- Two runs that end with the inputs shown and the pointer over a name, what is drawn then, and a
request for the same view in the plural. -/
theorem after_actions_inputs :
    let dims : Dimensions Float := Dimensions.standard
    let site : Server.Site := ⟨⟨fun _ => .ok sampleTree.compact, "m", "src"⟩, dims⟩
    let d := (ofTree sampleTree dims).after
      [.hover "b.c", .setView .output, .setView .input, .leave, .hover "a.c"]
    ((ofTree sampleTree dims).after [.select "Inputs", .hover "a.c"]).toSvg = d.toSvg ∧
    d.drawing.filterMap drawnLink? =
      [(some "x", some "a.c"), (some "b.c", some "a.c"), (some "x", some "b.c")] ∧
    d.drawing.filterMap drawnEndpoint? = [some "x", some "a.c", some "b.c"] ∧
    (Server.respond site ⟨"GET", "/api/svg/arc", "links=+inputs"⟩).value =
      .svg (Diagram.draw sampleTree .arc dims .input) := by
  intro dims site d
  have hload : site.loader.load.value = sampleTree :=
    site.loader.load_of_parse rfl (Document.parse_plain (by decide) (by decide +kernel))
  have hpairs : Text.Percent.formPairs "links=+inputs" = [("links", " inputs")] := by decide +kernel
  have hquery : Server.Query.parse? (.svg "arc") "links=+inputs" =
      some ⟨[("links", " inputs")]⟩ := by
    rw [Server.Query.parse?, hpairs]
    exact if_pos (by decide)
  obtain ⟨⟨hlinks, hends, _⟩, ⟨hshown, _, hsame⟩, ⟨_, hpaths, hgroups⟩, hview⟩ :=
    after_actions sampleTree dims
      [.hover "b.c", .setView .output, .setView .input, .leave, .hover "a.c"]
  rw [hshown] at hlinks
  rw [hends] at hgroups
  rw [hlinks] at hpaths hgroups
  refine ⟨(hsame [.select "Inputs", .hover "a.c"] (by decide) (by decide)).2, hpaths, hgroups, ?_⟩
  exact (hview .input []).2 site _ _ " inputs" hload rfl hquery (by decide) (by decide)

end ArcDiagram
end SourceAtlas
