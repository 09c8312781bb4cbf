import SourceAtlas.Proofs.Loader.Hydration
import SourceAtlas.Proofs.Tree.Sorted
import SourceAtlas.Server.Routes

/-! # The whole tree over the wire

A site sends the tree of its document with the keys of every object in order. Attaching sources
keeps a tree well formed and touches no number, so what is sent reads back as the very tree that was
loaded, with its sources if they were asked for. -/

namespace SourceAtlas

open Json (Members)

/-! ## Trees with sources -/

theorem Entry.WellFormed.withSource {e : Entry} (h : e.WellFormed) (text : String) :
    (e.withSource text).WellFormed := by
  refine ⟨h.unknown, h.ordered, ?_⟩
  rintro c ⟨⟩
  cases hc : e.content with
  | none => exact ⟨by simp, Document.isCanonical_empty⟩
  | some c => exact ⟨(h.content c hc).unknown, (h.content c hc).ordered⟩

namespace Loader

variable (l : Loader)

/-- Each node of a tree with its sources comes from a node of the tree: its entry is the same, or
has a source text attached. -/
theorem mem_hydrate {root m : Node} (h : m ∈ (l.hydrate root).value.preorder) :
    ∃ n ∈ root.preorder, m.listed.isSome = n.listed.isSome ∧
      (m.entry = n.entry ∨ ∃ text, m.entry = n.entry.withSource text) := by
  rw [← Node.spotsAt_nodes [], ← Node.walk_eq] at h
  obtain ⟨t, ht, rfl⟩ := List.mem_map.mp h
  obtain ⟨i, hi, rfl⟩ := List.getElem_of_mem ht
  have hlen : (l.hydrate root).value.walk.length = root.walk.length := by
    simpa [hydrate] using congrArg List.length (l.hydrateAt_addresses root [] false)
  have hs := List.getElem?_eq_getElem (l := root.walk) (i := i) (hlen ▸ hi)
  obtain ⟨m, hm, hlisted, hentry⟩ := l.hydrate_spot_entry hs
  rw [List.getElem?_eq_getElem hi, Option.some.injEq] at hm
  rw [hm]
  refine ⟨root.walk[i].node, ?_, ?_, ?_⟩
  · rw [← Node.spotsAt_nodes [], ← Node.walk_eq]
    exact List.mem_map_of_mem (List.getElem_mem _)
  · simpa using congrArg Option.isSome hlisted
  · split at hentry
    · exact .inr ⟨_, hentry⟩
    · exact .inl hentry

theorem hydrate_wellFormed {root : Node} (h : root.WellFormed) :
    (l.hydrate root).value.WellFormed := by
  constructor
  · intro m hm hk
    obtain ⟨n, hn, hlisted, hentry⟩ := l.mem_hydrate hm
    have hkind : n.kind = m.kind := by
      rcases hentry with he | ⟨text, he⟩
      · rw [Node.kind, Node.kind, he]
      · rw [Node.kind, Node.kind, he]
        rfl
    rw [hlisted]
    exact h.listed n hn (hkind.trans hk)
  · intro m hm
    obtain ⟨n, hn, _, he | ⟨text, he⟩⟩ := l.mem_hydrate hm
    · exact he ▸ h.entry n hn
    · exact he ▸ (h.entry n hn).withSource text

theorem hydrate_isIntegral {root : Node} (h : root.IsIntegral) :
    (l.hydrate root).value.IsIntegral := by
  intro m hm
  obtain ⟨n, hn, _, he | ⟨text, he⟩⟩ := l.mem_hydrate hm
  · exact he ▸ h n hn
  · obtain ⟨hx, hc⟩ := h n hn
    rw [he]
    refine ⟨hx, ?_⟩
    rintro c ⟨⟩
    cases hcontent : n.entry.content with
    | none => exact Document.isIntegral_obj.mpr (by simp)
    | some c => exact hc c hcontent

/-! ## Loading -/

/-- A document that cannot be read or understood gives way to the fallback; repeated names do not
matter. -/
theorem load_value : l.load.value = match l.read l.structurePath with
    | .ok text => match Document.parse text with
      | .ok tree => tree
      | .error _ => fallback
    | .error _ => fallback := by
  rw [load, Logged.value_bind, tryLoad, Logged.value_bind, readText]
  cases l.read l.structurePath with
  | error reason => rfl
  | ok text =>
    simp only [Logged.value_pure]
    cases Document.parse text with
    | error fault => rfl
    | ok tree =>
      dsimp only [Except.mapError]
      cases tree.checkUnique <;> rfl

theorem load_of_parse {text : String} {tree : Node} (hread : l.read l.structurePath = .ok text)
    (hparse : Document.parse text = .ok tree) : l.load.value = tree := by
  rw [load_value, hread]
  simp only [hparse]

theorem fallback_wellFormed : fallback.WellFormed := by
  have hplain : fallback.IsPlain := by decide
  exact hplain.wellFormed

theorem load_wellFormed : l.load.value.WellFormed := by
  rw [load_value]
  cases l.read l.structurePath with
  | error reason => exact fallback_wellFormed
  | ok text =>
    cases hparse : Document.parse text with
    | error fault => simpa [hparse] using fallback_wellFormed
    | ok tree => simpa [hparse] using Document.parse_wellFormed hparse

end Loader

namespace Server

def shownTree (site : Site) (q : Query) : Node :=
  if q.get? "includeSource" = some "true" then (site.loader.hydrate site.loader.load.value).value
  else site.loader.load.value

theorem loadTree_value (site : Site) (q : Query) :
    (loadTree site q.includeSource).value = shownTree site q := by
  rw [loadTree, Logged.value_bind, shownTree, Query.includeSource]
  by_cases h : q.get? "includeSource" = some "true"
  · rw [if_pos (by simp [h]), if_pos h]
  · rw [if_neg (by simp [h]), if_neg h]
    rfl

/-- The answer to a request for the whole tree has the status of a success, and its body reads back
as the loaded tree, with all sources when they were asked for by the word `true`. What is loaded is
the document, or the empty directory where there is no document that can be read. The numbers
carried along have to be integers and the brackets must not nest deeper than the reader follows
them. -/
theorem codebase_reads_back (site : Site) (query : String) (q : Query)
    (hquery : Query.parse? .codebase query = some q) (hi : site.loader.load.value.IsIntegral)
    (hd : (Document.ofNode (shownTree site q)).canonical.depth ≤ Json.maxDepth) :
    (site.loader.load.value = match site.loader.read site.loader.structurePath with
      | .ok text => match Document.parse text with
        | .ok tree => tree
        | .error _ => Node.directory "root" []
      | .error _ => Node.directory "root" []) ∧
    let answer := (respond site ⟨"GET", "/api/codebase", query⟩).value
    answer.status = 200 ∧ Document.parse answer.body = .ok
      (if q.get? "includeSource" = some "true" then
        (site.loader.hydrate site.loader.load.value).value
      else site.loader.load.value) := by
  have hanswer : (respond site ⟨"GET", "/api/codebase", query⟩).value =
      .json (Document.ofNode (shownTree site q)).canonical := by
    rw [respond_get site (show Route.ofPath? "/api/codebase" = some .codebase by decide)]
    unfold Route.answer
    rw [hquery]
    show Response.json (Document.ofNode (loadTree site q.includeSource).value).canonical = _
    rw [loadTree_value]
  have hshown : (shownTree site q).WellFormed ∧ (shownTree site q).IsIntegral := by
    have hw := site.loader.load_wellFormed
    unfold shownTree
    split
    · exact ⟨site.loader.hydrate_wellFormed hw, site.loader.hydrate_isIntegral hi⟩
    · exact ⟨hw, hi⟩
  refine ⟨site.loader.load_value, ?_⟩
  rw [hanswer]
  exact ⟨rfl, Document.parse_compactSorted hshown.1 hshown.2 hd⟩

/-- A directory that carries a number, with one file. -/
def sampleTree : Node :=
  .mk { name := "r", kind := .directory, extra := [("at", .num (.int (-7)))] }
    (some [.mk { name := "a.c", kind := .file } none])

/-- Its document, with the text of the file. -/
def sampleFiles (path : String) : Except String String :=
  if path = "m" then .ok sampleTree.compactSorted
  else if path = "src/a.c" then .ok "int a;\n"
  else .error "missing"

theorem sampleTree_isIntegral : sampleTree.IsIntegral := by
  simp [sampleTree, Node.IsIntegral, Node.preorder, Node.preorderAll, Node.entry, Json.IsIntegral,
    Json.Each, Json.EachMember, Json.Number.IsWord]

theorem sampleTree_wellFormed : sampleTree.WellFormed := by
  constructor
  · simp [sampleTree, Node.preorder, Node.preorderAll, Node.kind, Node.entry, Node.listed]
  · intro n hn
    simp only [sampleTree, Node.preorder, Node.preorderAll, List.append_nil, List.mem_cons,
      List.not_mem_nil, or_false] at hn
    rcases hn with rfl | rfl
    · refine ⟨by decide, ?_, by simp [Node.entry]⟩
      exact Document.isCanonical_insert Document.isCanonical_empty "at"
        (by simp [Json.IsCanonical, Json.Each])
    · exact ⟨by decide, Document.isCanonical_empty, by simp [Node.entry]⟩

theorem codebase_reads_back_sample :
    let l : Loader := ⟨sampleFiles, "m", "src"⟩
    let answer := (respond ⟨l, Dimensions.standard⟩
      ⟨"GET", "/api/codebase", "x=1&includeSource=true"⟩).value
    l.load.value = sampleTree ∧ answer.status = 200 ∧
      Document.parse answer.body = .ok (l.hydrate sampleTree).value := by
  intro l answer
  have hload : l.load.value = sampleTree := by
    have hparse : Document.parse sampleTree.compactSorted = .ok sampleTree :=
      Document.parse_compactSorted sampleTree_wellFormed sampleTree_isIntegral (by decide +kernel)
    have hread : l.read l.structurePath = .ok sampleTree.compactSorted := by
      show sampleFiles "m" = _
      rw [sampleFiles, if_pos rfl]
    exact l.load_of_parse hread hparse
  have hpairs : Text.Percent.formPairs "x=1&includeSource=true" =
      [("x", "1"), ("includeSource", "true")] := by decide +kernel
  have hquery : Query.parse? .codebase "x=1&includeSource=true" =
      some ⟨[("x", "1"), ("includeSource", "true")]⟩ := by
    rw [Query.parse?, hpairs]
    exact if_pos (by decide)
  have hdepth : (Document.ofNode (shownTree ⟨l, Dimensions.standard⟩
      ⟨[("x", "1"), ("includeSource", "true")]⟩)).canonical.depth ≤ Json.maxDepth := by
    rw [shownTree, if_pos (by decide), hload]
    decide +kernel
  obtain ⟨_, hstatus, hbody⟩ := codebase_reads_back ⟨l, Dimensions.standard⟩ _ _ hquery
    (hload ▸ sampleTree_isIntegral) hdepth
  rw [if_pos (by decide), hload] at hbody
  exact ⟨hload, hstatus, hbody⟩

end Server

end SourceAtlas
