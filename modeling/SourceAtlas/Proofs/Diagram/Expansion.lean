import SourceAtlas.Atlas
import SourceAtlas.Proofs.Atlas.Names
import SourceAtlas.Proofs.Diagram.ReadBack
import SourceAtlas.Proofs.Diagram.Transition
import SourceAtlas.Proofs.Lists

/-! # Expanding nodes by name

Names are expanded one after another, each by a click on the first node that carries it, unless that
node is expanded already. A node without children is clicked whenever its name comes up, which
changes nothing; any other node is clicked at most once. So the flags in the end are told by the set
of the names, and with them the frame and the drawing. -/

namespace SourceAtlas

open TreeState

/-- The node at a position is the first one to carry one of the names. -/
def Node.Called (root : Node) (names : List String) (i : Nat) : Prop :=
  ∃ name ∈ names, root.idOf name = some i

namespace TreeView

section

variable {α : Type} [Scalar α]

/-- A view of a tree in which, of the nodes with children, the root is expanded and those are that
were called by the names. -/
structure Expands (root : Node) (dims : Dimensions α) (names : List String) (v : TreeView α) :
    Prop where
  shows : ∃ ids, Shows root dims ids v
  expanded : ∀ i s, root.walk[i]? = some s → s.node.children ≠ [] →
    (v.state.isExpanded i = true ↔ i = 0 ∨ root.Called names i)

/-- Views of a tree with the same flags on the nodes with children have the same frame. -/
theorem Shows.frame_eq_of_flags {root : Node} {dims : Dimensions α} {ids ids' : List Nat}
    {v v' : TreeView α} (h : Shows root dims ids v) (h' : Shows root dims ids' v')
    (hflags : ∀ i s, root.walk[i]? = some s → s.node.children ≠ [] →
      v.state.isExpanded i = v'.state.isExpanded i) : v.frame = v'.frame := by
  refine h.frame_eq h' fun i s hs hc => ?_
  have hflag := hflags i s hs hc
  rw [h.isExpanded hs, h'.isExpanded hs, if_neg hc, if_neg hc, iterate_not, iterate_not] at hflag
  have := Nat.mod_two_eq_zero_or_one (ids.count i)
  have := Nat.mod_two_eq_zero_or_one (ids'.count i)
  cases hi : i == 0 <;> simp [hi] at hflag <;> omega

namespace Expands

variable {root : Node} {dims : Dimensions α} {names names' : List String} {v v' : TreeView α}

theorem ofTree (root : Node) (dims : Dimensions α) :
    Expands root dims [] (TreeView.ofTree root dims) := by
  refine ⟨⟨[], .ofTree root dims⟩, fun i s hs hc => ?_⟩
  rw [(Shows.ofTree root dims).isExpanded hs, if_neg hc]
  simp [Node.Called]

/-- Expanding one more name: the first node that carries it is clicked unless it is expanded. -/
theorem expandName (h : Expands root dims names v) {name : String} {id : Nat}
    (hid : root.idOf name = some id) :
    Expands root dims (names ++ [name])
      (if v.state.isExpanded id then v else (v.click id).2) := by
  obtain ⟨ids, hshows⟩ := h.shows
  have hcalled (i : Nat) : root.Called (names ++ [name]) i ↔ root.Called names i ∨ id = i := by
    simp [Node.Called, or_and_right, exists_or, hid]
  have hlt : id < root.nodeCount := by
    rw [← Node.preorder_length]
    exact (List.findIdx?_eq_some_iff_getElem.mp hid).1
  split
  · next hopen =>
    refine ⟨⟨ids, hshows⟩, fun i s hs hc => ?_⟩
    rw [hcalled, h.expanded i s hs hc]
    refine ⟨fun hi => hi.imp_right .inl, ?_⟩
    rintro (hi | hi | rfl)
    · exact .inl hi
    · exact .inr hi
    · exact (h.expanded id s hs hc).mp hopen
  · next hclosed =>
    refine ⟨⟨ids ++ [id], hshows.click hlt⟩, fun i s hs hc => ?_⟩
    rw [hshows.isExpanded_click hlt hs, hcalled, ← or_assoc, ← h.expanded i s hs hc]
    by_cases hi : id = i
    · subst hi
      simp [hc, hclosed]
    · simp [hi]

/-- Expanding names in turn fails at the first one that no node carries, and otherwise expands the
nodes called by them. -/
theorem expandNames (h : Expands root dims names v) (more : List String) :
    (∃ name, more.find? (· ∉ root.names) = some name ∧ v.expandNames more = .error name) ∨
      more.find? (· ∉ root.names) = none ∧
        ∃ w, v.expandNames more = .ok w ∧ Expands root dims (names ++ more) w := by
  induction more generalizing names v with
  | nil => exact .inr ⟨rfl, v, rfl, by rwa [List.append_nil]⟩
  | cons name more ih =>
    obtain ⟨ids, hshows⟩ := h.shows
    rw [TreeView.expandNames, hshows.idOf]
    cases hid : root.idOf name with
    | none =>
      have hmissing : name ∉ root.names := Node.idOf_eq_none.mp hid
      exact .inl ⟨name, List.find?_cons_of_pos (by simpa using hmissing), rfl⟩
    | some id =>
      have hfound : name ∈ root.names := by
        by_contra hmissing
        rw [Node.idOf_eq_none.mpr hmissing] at hid
        cases hid
      rw [List.find?_cons_of_neg (by simpa using hfound), List.append_cons]
      exact ih (h.expandName hid)

/-- What is visible lies below the root and the nodes called, and nothing else. -/
theorem mem_frame (h : Expands root dims names v) {i : Nat} : i ∈ v.frame.ids ↔
    i < root.nodeCount ∧ ∀ j, root.IsAbove j i → j = 0 ∨ root.Called names j := by
  obtain ⟨ids, hshows⟩ := h.shows
  rw [hshows.mem_frame]
  refine and_congr_right fun _ => forall₂_congr fun j hj => ?_
  have hs := List.getElem?_eq_getElem (Nat.lt_of_lt_of_eq hj.lt root.walk_length.symm)
  refine h.expanded j _ hs fun hleaf => ?_
  exact Node.not_isAbove_leaf hs hleaf i hj

/-- Names that call the same nodes lead to the same frame. -/
theorem frame_eq (h : Expands root dims names v) (h' : Expands root dims names' v')
    (hcalled : ∀ i, root.Called names i ↔ root.Called names' i) : v.frame = v'.frame := by
  obtain ⟨ids, hshows⟩ := h.shows
  obtain ⟨ids', hshows'⟩ := h'.shows
  refine hshows.frame_eq_of_flags hshows' fun i s hs hc => ?_
  rw [Bool.eq_iff_iff, h.expanded i s hs hc, h'.expanded i s hs hc, hcalled]

end Expands

end

/-! ## What is drawn -/

open Svg (Step)
open Markup (Token)

/-- The position of a node for which a start tag opens a group. -/
def openedNode? : Token → Option (Option String)
  | .opening "g" attributes =>
    if attributes.lookup "class" = some "node" then some (attributes.lookup "data-id") else none
  | _ => none

/-- The position of a node for which a step opens a group. -/
def drawnNode? (s : Step) : Option (Option String) := s.startTag?.bind openedNode?

theorem legend_nodes (width : Float) (dims : Dimensions Float) :
    (Diagram.legend width dims).filterMap drawnNode? = [] := by
  rw [Diagram.legend, List.filterMap_append, List.filterMap_append,
    Lists.filterMap_flatMap_none fun _ _ => rfl]
  rfl

/-- One group is drawn for each node of the frame, in order. -/
theorem drawing_nodes (v : TreeView Float) :
    v.drawing.filterMap drawnNode? = v.frame.ids.map fun i => some (toString i) := by
  have hlinks : (v.frame.links.flatMap (linkDrawing v.frame)).filterMap drawnNode? = [] := by
    refine Lists.filterMap_flatMap_none fun l _ => ?_
    rw [linkDrawing]
    split <;> rfl
  have hnodes : (v.frame.nodes.flatMap nodeDrawing).filterMap drawnNode? =
      v.frame.nodes.map fun n => some (toString n.id) := by
    refine Lists.filterMap_flatMap_single fun n _ => ?_
    rfl
  rw [drawing]
  simp only [List.filterMap_append, hlinks, hnodes, legend_nodes]
  rw [Frame.ids, List.map_map]
  show [] ++ [] ++ [] ++ v.frame.nodes.map _ ++ [] ++ [] = v.frame.nodes.map _
  simp [Function.comp_def]

/-- Reading the text of a view finds one group for each node of the frame, in order. -/
theorem toSvg_nodes (v : TreeView Float) : ∃ tokens, Markup.scan v.toSvg.toList = some tokens ∧
    tokens.filterMap openedNode? = v.frame.ids.map fun i => some (toString i) := by
  obtain ⟨tokens, hscan, htokens⟩ := Svg.scan_startTags v.surfaceWidth v.surfaceHeight
    v.drawing_readable (f := openedNode?) (fun _ => rfl) (fun _ => rfl) (fun _ => rfl)
  exact ⟨tokens, hscan, htokens.trans (drawing_nodes v)⟩

/-- A drawing is told by the dimensions and the frame. -/
theorem toSvg_eq {v w : TreeView Float} (hdims : v.dims = w.dims) (hframe : v.frame = w.frame) :
    v.toSvg = w.toSvg := by
  cases v
  cases w
  cases hdims
  cases hframe
  rfl

/-- Drawing a tree with names to expand fails at the first name that no node carries, and otherwise
draws a view in which the nodes called by the names are expanded. -/
theorem drawing_cases (root : Node) (options : Diagram.Options) :
    (∃ name, options.expand.find? (· ∉ root.names) = some name ∧
      root.drawing .tree options = .error (.noNodeNamed name)) ∨
    options.expand.find? (· ∉ root.names) = none ∧
      ∃ v, root.drawing .tree options = .ok v.toSvg ∧
        Expands root options.dims options.expand v := by
  rcases (Expands.ofTree root options.dims).expandNames options.expand with
    ⟨name, hfind, herror⟩ | ⟨hfind, v, hok, hv⟩
  · refine .inl ⟨name, hfind, ?_⟩
    rw [Node.drawing, Diagram.render, herror]
    rfl
  · refine .inr ⟨hfind, v, ?_, hv⟩
    rw [Node.drawing, Diagram.render, hok]
    rfl

section Drawing

variable {root : Node} {options : Diagram.Options}

/-- A text that is drawn is that of a view in which the nodes called by the names are expanded. -/
theorem exists_view {text : String} (h : root.drawing .tree options = .ok text) :
    ∃ v, text = v.toSvg ∧ Expands root options.dims options.expand v := by
  rcases drawing_cases root options with ⟨name, _, herror⟩ | ⟨_, v, hok, hv⟩
  · cases herror.symm.trans h
  · cases hok.symm.trans h
    exact ⟨v, rfl, hv⟩

/-- An error names the first name that no node carries. -/
theorem find?_of_error {error : AtlasError}
    (h : root.drawing .tree options = .error error) :
    ∃ name, options.expand.find? (· ∉ root.names) = some name ∧ error = .noNodeNamed name := by
  rcases drawing_cases root options with ⟨name, hfind, herror⟩ | ⟨_, v, hok, _⟩
  · cases herror.symm.trans h
    exact ⟨name, hfind, rfl⟩
  · cases hok.symm.trans h

theorem exists_error_iff (root : Node) (options : Diagram.Options) :
    (∃ error, root.drawing .tree options = .error error) ↔
      ∃ name ∈ options.expand, name ∉ root.names := by
  rcases drawing_cases root options with ⟨name, hfind, herror⟩ | ⟨hfind, v, hok, _⟩
  · have hmissing := List.find?_some hfind
    exact iff_of_true ⟨_, herror⟩
      ⟨name, List.mem_of_find?_eq_some hfind, of_decide_eq_true hmissing⟩
  · refine iff_of_false ?_ ?_
    · rintro ⟨error, herror⟩
      cases hok.symm.trans herror
    · simpa using hfind

theorem exists_ok_iff (root : Node) (options : Diagram.Options) :
    (∃ text, root.drawing .tree options = .ok text) ↔
      ¬ ∃ error, root.drawing .tree options = .error error := by
  cases root.drawing .tree options <;> simp

end Drawing

/-- Drawing a tree with names to expand fails when some name is carried by no node, the first such
name of the list being the error. Otherwise the text is the document of a drawing and, read back,
shows in increasing order of their positions the nodes that have nothing above them but the root and
first nodes with a listed name. Lists of the same names fail together, or give the same text. -/
theorem drawing_expanded (root : Node) (dims : Dimensions Float) (view : View)
    (expand : List String) :
    let draw (names : List String) := root.drawing .tree { dims, view, expand := names }
    (∀ names, (∀ name, name ∈ names ↔ name ∈ expand) →
      ((∃ text, draw names = .ok text) ↔ ∃ text, draw expand = .ok text) ∧
      ∀ text text', draw names = .ok text → draw expand = .ok text' → text = text') ∧
    (∀ text, draw expand = .ok text →
      ∃ (v : TreeView Float) (tokens : List Token) (ids : List Nat), text = v.toSvg ∧
        v.toSvg = Svg.document v.surfaceWidth v.surfaceHeight v.drawing ∧
        v.drawing.filterMap drawnNode? = ids.map (fun i => some (toString i)) ∧
        Markup.scan text.toList = some tokens ∧
        tokens.filterMap openedNode? = ids.map (fun i => some (toString i)) ∧
        ids.Pairwise (· < ·) ∧
        ∀ i, i ∈ ids ↔ i < root.nodeCount ∧ ∀ j, root.IsAbove j i →
          j = 0 ∨ ∃ name ∈ expand, root.idOf name = some j) ∧
    ((∃ error, draw expand = .error error) ↔ ∃ name ∈ expand, name ∉ root.names) ∧
    ∀ error, draw expand = .error error →
      ∃ name, expand.find? (· ∉ root.names) = some name ∧ error = .noNodeNamed name := by
  intro draw
  refine ⟨?_, ?_, exists_error_iff root _, fun error => find?_of_error⟩
  · intro names hnames
    refine ⟨by simp only [draw, exists_ok_iff, exists_error_iff, hnames], ?_⟩
    intro text text' htext htext'
    obtain ⟨v, rfl, hv⟩ := exists_view htext
    obtain ⟨w, rfl, hw⟩ := exists_view htext'
    obtain ⟨_, hshows⟩ := hv.shows
    obtain ⟨_, hshows'⟩ := hw.shows
    refine toSvg_eq (hshows.dims.trans hshows'.dims.symm) (hv.frame_eq hw fun i => ?_)
    simp only [Node.Called, hnames]
  · intro text htext
    obtain ⟨v, rfl, hv⟩ := exists_view htext
    obtain ⟨_, hshows⟩ := hv.shows
    obtain ⟨tokens, hscan, htokens⟩ := toSvg_nodes v
    refine ⟨v, tokens, v.frame.ids, rfl, rfl, drawing_nodes v, hscan, htokens, ?_,
      fun i => hv.mem_frame⟩
    rw [hshows.frame_ids]
    exact hshows.visible_increasing

/-- The file in the directory, the directory itself twice and the root, in two orders; the file
alone, which stays hidden in its directory; and a list in which no node carries the second and the
third name. -/
theorem drawing_expanded_twice :
    let root := Node.directory "src" [Node.directory "lib" [Node.file "a.c"], Node.file "b.c"]
    let draw (names : List String) :=
      root.drawing .tree { dims := Dimensions.standard, view := .hierarchy, expand := names }
    (∃ text, draw ["a.c", "lib", "lib", "src"] = .ok text ∧ draw ["lib", "src", "a.c"] = .ok text) ∧
    (∃ text tokens, draw ["a.c"] = .ok text ∧ Markup.scan text.toList = some tokens ∧
      tokens.filterMap openedNode? = [some "0", some "1", some "3"]) ∧
    draw ["lib", "doc", "old"] = .error (.noNodeNamed "doc") := by
  intro root draw
  obtain ⟨hsame, _, hfails, _⟩ :=
    drawing_expanded root Dimensions.standard .hierarchy ["lib", "src", "a.c"]
  obtain ⟨_, hshows, hfails₁, _⟩ :=
    drawing_expanded root Dimensions.standard .hierarchy ["a.c"]
  obtain ⟨_, _, hfails₂, hwhich⟩ :=
    drawing_expanded root Dimensions.standard .hierarchy ["lib", "doc", "old"]
  refine ⟨?_, ?_, ?_⟩
  · have hknown : ¬ ∃ name ∈ ["lib", "src", "a.c"], name ∉ root.names := by decide
    obtain ⟨hboth, heq⟩ := hsame ["a.c", "lib", "lib", "src"] fun name => by
      simp only [List.mem_cons, List.not_mem_nil, or_false]
      tauto
    obtain ⟨text, hdraw⟩ := (exists_ok_iff root _).mpr fun he => hknown (hfails.mp he)
    obtain ⟨text', hdraw'⟩ := hboth.mpr ⟨text, hdraw⟩
    exact ⟨text, heq text' text hdraw' hdraw ▸ hdraw', hdraw⟩
  · have hknown : ¬ ∃ name ∈ ["a.c"], name ∉ root.names := by decide
    obtain ⟨text, hdraw⟩ := (exists_ok_iff root _).mpr fun he => hknown (hfails₁.mp he)
    obtain ⟨_, tokens, ids, _, _, _, hscan, htokens, hsorted, hids⟩ := hshows text hdraw
    have hvisible : ∀ i < 4, (∀ j < 4, root.IsAbove j i →
        j = 0 ∨ ∃ name ∈ ["a.c"], root.idOf name = some j) ↔ i ∈ [0, 1, 3] := by
      simp only [Node.IsAbove, Node.walk_eq]
      decide
    have hlist : ids = [0, 1, 3] := by
      refine hsorted.eq_of_mem_iff (by decide) fun i => ?_
      rw [hids]
      constructor
      · intro ⟨hi, hj⟩
        exact (hvisible i hi).mp fun j _ => hj j
      · intro hi
        have hlt : i < 4 := by revert i; decide
        exact ⟨hlt, fun j hj => (hvisible i hlt).mpr hi j hj.lt hj⟩
    refine ⟨text, tokens, hdraw, hscan, ?_⟩
    rw [htokens, hlist]
    decide
  · have hmissing : ∃ name ∈ ["lib", "doc", "old"], name ∉ root.names := by decide
    have hfirst : ["lib", "doc", "old"].find? (· ∉ root.names) = some "doc" := by decide
    obtain ⟨e, he⟩ := hfails₂.mpr hmissing
    obtain ⟨name, hname, rfl⟩ := hwhich e he
    cases hfirst.symm.trans hname
    exact he

end TreeView

end SourceAtlas
