import SourceAtlas.Proofs.Loader.Reads
import SourceAtlas.Server.Routes

/-! # What a site reads

Texts from outside reach the disk along three ways: a path in a query, the path that a node of the
document gives for itself, and the names on the way to a node joined by slashes. No request,
whatever was asked before, makes the site read anything but the document and what lies below the
root of the sources, and nothing else on the disk has an influence on the answers. -/

namespace SourceAtlas.Server

open Logged

def Site.reading (site : Site) (rd : String → Except String String) : Site :=
  { site with loader := site.loader.reading rd }

def answers (site : Site) : List Request → Logged (List Response)
  | [] => pure []
  | r :: rs => do
    let first ← respond site r
    let others ← answers site rs
    return first :: others

variable (site : Site) (rd : String → Except String String)

theorem loadTree_confined (includeSource : Bool) :
    Confined site.loader.Permits site.loader.read rd (loadTree site includeSource)
      (loadTree (site.reading rd) includeSource) := by
  refine .bind (site.loader.load_confined rd) fun tree => ?_
  cases includeSource with
  | true => exact site.loader.hydrateAt_confined rd tree [] false
  | false => exact .pure tree

theorem codebase_confined (q : Query) :
    Confined site.loader.Permits site.loader.read rd (codebase site q)
      (codebase (site.reading rd) q) :=
  .bind (loadTree_confined site rd _) fun _ => .pure _

theorem sourceCode_confined (q : Query) :
    Confined site.loader.Permits site.loader.read rd (sourceCode site q)
      (sourceCode (site.reading rd) q) := by
  unfold sourceCode
  cases q.get? "path" with
  | none => exact .pure _
  | some path =>
    refine .bind (site.loader.readSource_confined rd path) fun text => ?_
    cases text with
    | ok source => exact .pure _
    | error e => exact .bind (.warn _) fun _ => .pure _

theorem links_confined (q : Query) :
    Confined site.loader.Permits site.loader.read rd (links site q) (links (site.reading rd) q) :=
  .bind (loadTree_confined site rd false) fun _ => .pure _

theorem nodePanel_confined (q : Query) (tree : Node) (id : Nat) :
    Confined site.loader.Permits site.loader.read rd (nodePanel site q tree id)
      (nodePanel (site.reading rd) q tree id) := by
  unfold nodePanel
  split
  · exact .bind (site.loader.hydrateOne_confined rd tree id) fun _ => .pure _
  · exact .bind (.pure _) fun _ => .pure _

theorem detailPanel_confined (q : Query) (id? : Option Nat) :
    Confined site.loader.Permits site.loader.read rd (detailPanel site q id?)
      (detailPanel (site.reading rd) q id?) := by
  refine .bind (site.loader.load_confined rd) fun tree => ?_
  cases id? with
  | some id => exact nodePanel_confined site rd q tree id
  | none =>
    cases q.get? "name" with
    | none => exact .pure _
    | some name =>
      simp only
      cases tree.idOf name with
      | some id => exact nodePanel_confined site rd q tree id
      | none => exact .pure _

theorem details_confined (q : Query) :
    Confined site.loader.Permits site.loader.read rd (details site q)
      (details (site.reading rd) q) := by
  unfold details
  cases q.get? "id" with
  | none => exact .bind (detailPanel_confined site rd q none) fun _ => .pure _
  | some text =>
    simp only
    cases unsigned? text with
    | some id => exact .bind (detailPanel_confined site rd q (some id)) fun _ => .pure _
    | none => exact .pure _

theorem svg_confined (step : String) (query : Option Query) :
    Confined site.loader.Permits site.loader.read rd (svg site step query)
      (svg (site.reading rd) step query) := by
  unfold svg
  cases Text.Percent.decode? step with
  | none => exact .pure _
  | some name =>
    cases query with
    | none => exact .pure _
    | some q =>
      simp only
      cases Renderer.parse? name with
      | none => exact .pure _
      | some renderer => exact .bind (loadTree_confined site rd false) fun _ => .pure _

theorem answer_confined (route : Route) (query : String) :
    Confined site.loader.Permits site.loader.read rd (route.answer site query)
      (route.answer (site.reading rd) query) := by
  unfold Route.answer
  cases Query.parse? route query with
  | none =>
    cases route with
    | svg step => exact svg_confined site rd step none
    | _ => exact .pure _
  | some q =>
    cases route with
    | index => exact .pure _
    | codebase => exact codebase_confined site rd q
    | sourceCode => exact sourceCode_confined site rd q
    | links => exact links_confined site rd q
    | details => exact details_confined site rd q
    | svg step => exact svg_confined site rd step (some q)

theorem respond_confined (r : Request) :
    Confined site.loader.Permits site.loader.read rd (respond site r)
      (respond (site.reading rd) r) := by
  unfold respond
  split
  · exact .pure _
  · cases Route.ofPath? r.target.path with
    | none => exact .pure _
    | some route =>
      have hanswer := answer_confined site rd route r.target.query
      simp only
      split
      · exact hanswer
      · split
        · exact .bind hanswer fun _ => .pure _
        · exact .pure _

theorem answers_confined (rs : List Request) :
    Confined site.loader.Permits site.loader.read rd (answers site rs)
      (answers (site.reading rd) rs) := by
  induction rs with
  | nil => exact .pure []
  | cons r rs ih =>
    refine .bind (respond_confined site rd r) fun _ => ?_
    exact .bind ih fun _ => .pure _

/-- Every path that answering a sequence of requests reads is that of the document, or leads from
the root of the sources along a path that is not empty, does not start with a slash and has no step
upward. With other files at any other paths the answers are the same. -/
theorem answers_read_inside (site : Site) (rs : List Request) :
    (∀ path ∈ (answers site rs).reads, path = site.loader.structurePath ∨
      ∃ r, r ≠ "" ∧ r.toList.head? ≠ some '/' ∧ ".." ∉ Path.segments r ∧
        path = Path.join site.loader.sourceRoot r) ∧
    ∀ rd, (∀ path ∈ (answers site rs).reads, rd path = site.loader.read path) →
      answers (site.reading rd) rs = answers site rs := by
  constructor
  · intro path h
    rcases (answers_confined site site.loader.read rs).reads path h with h | ⟨r, hin, h⟩
    · exact .inl h
    · exact .inr ⟨r, hin.1, hin.2.1, hin.2.2, h⟩
  · intro rd h
    exact (answers_confined site rd rs).same h

/-- A site with one document, whose first file is called by a step upward. -/
def sampleSite : Site :=
  { loader :=
      { read := fun path =>
          if path = "m" then
            .ok ("\x7b\"name\":\"r\",\"type\":\"directory\",\"children\":[" ++
              "\x7b\"name\":\"..\",\"type\":\"file\"\x7d," ++
              "\x7b\"name\":\"a//b\",\"type\":\"file\"\x7d]\x7d")
          else .error "missing"
        structurePath := "m"
        sourceRoot := "src" } }

/-- Requests for all sources, for one outside and for one inside. -/
def sampleRequests : List Request :=
  [⟨"GET", "/api/codebase", "includeSource=true"⟩,
    ⟨"GET", "/api/source-code", "path=../m"⟩,
    ⟨"GET", "/api/source-code", "path=./m"⟩]

theorem answers_read_inside_sample :
    (answers sampleSite sampleRequests).reads = ["m", "src/a//b", "src/./m"] ∧
    ("src/./m" = "m" ∨ ∃ r, r ≠ "" ∧ r.toList.head? ≠ some '/' ∧ ".." ∉ Path.segments r ∧
      "src/./m" = Path.join "src" r) ∧
    answers (sampleSite.reading fun path =>
        if path = "src/../m" then .ok "hidden" else sampleSite.loader.read path) sampleRequests =
      answers sampleSite sampleRequests := by
  have hreads : (answers sampleSite sampleRequests).reads = ["m", "src/a//b", "src/./m"] := by
    decide +kernel
  obtain ⟨hinside, hsame⟩ := answers_read_inside sampleSite sampleRequests
  rw [hreads] at hinside hsame
  refine ⟨hreads, hinside "src/./m" (by simp), hsame _ ?_⟩
  intro path hpath
  have hne : path ≠ "src/../m" := by
    rintro rfl
    simp at hpath
  rw [if_neg hne]

end SourceAtlas.Server
