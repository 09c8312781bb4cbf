import SourceAtlas.Cli.Run
import SourceAtlas.Server.Routes
import SourceAtlas.Proofs.Loader.Selected

/-! # Details of one node

The details of a node are asked for at a site or on a command line. Both read the source of that
node alone and show what the tree with all its sources shows. -/

namespace SourceAtlas

open Logged

theorem Panel.at?_eq (root : Node) (id : Nat) :
    Panel.at? root id = (root.findById id).map ofNode := by
  rw [Panel.at?, Subject.at?, Option.map_map]
  rfl

theorem Panel.at?_zero (n : Node) : Panel.at? n 0 = some (ofNode n) := by
  rw [at?_eq, Node.findById_eq, Node.walk_zero]
  rfl

namespace Server

theorem nodePanel_value {site : Site} {q : Query} {tree : Node}
    (h : ∀ s ∈ tree.walk, s.node.isFile → s.node.children = []) (hq : q.includeSource = true)
    (id : Nat) : (nodePanel site q tree id).value =
      (Panel.at? (site.loader.hydrate tree).value id).getD Panel.empty := by
  rw [nodePanel, if_pos hq, value_bind, value_pure, Panel.at?_eq,
    ← site.loader.ofNode_hydrateOne h id]
  cases (site.loader.hydrateOne tree id).value <;> rfl

/-- The position of the query is looked up in the tree with all sources. -/
theorem details_value {site : Site} {q : Query} {text : String} {id : Nat}
    (h : ∀ s ∈ site.loader.load.value.walk, s.node.isFile → s.node.children = [])
    (hq : q.includeSource = true) (htext : q.get? "id" = some text)
    (hid : unsigned? text = some id) :
    (details site q).value =
      .json ((Panel.at? (site.loader.hydrate site.loader.load.value).value id).getD
        Panel.empty).toJson := by
  rw [details, htext]
  simp only [hid]
  rw [value_bind, value_pure, detailPanel, value_bind, nodePanel_value h hq]

theorem codebase_value {site : Site} {q : Query} (hq : q.includeSource = true) :
    (codebase site q).value =
      .json (Document.ofNode (site.loader.hydrate site.loader.load.value).value).canonical := by
  rw [codebase, value_bind, value_pure, loadTree, value_bind, if_pos hq]

end Server

namespace Cli

namespace Task

variable {α β : Type}

/-- Runs a part of a command on the files of a disk, after the given lines. -/
def runOn (files : FileTree) (lines : List Line) (task : Task (StateM FileTree) α) :
    (Except Nat α × List Line) × FileTree :=
  StateT.run (m := Id) ((ExceptT.run task).run lines) files

theorem runOn_bind {files files' : FileTree} {lines lines' : List Line}
    {x : Task (StateM FileTree) α} {a : α} (h : x.runOn files lines = ((.ok a, lines'), files'))
    (f : α → Task (StateM FileTree) β) :
    (x >>= f).runOn files lines = (f a).runOn files' lines' := by
  rw [runOn, ExceptT.run_bind, StateT.run_bind, StateT.run_bind]
  have h' : StateT.run (m := Id) (StateT.run (ExceptT.run x) lines) files = _ := h
  rw [h']
  rfl

theorem runOn_bind_error {files files' : FileTree} {lines lines' : List Line}
    {x : Task (StateM FileTree) α} {code : Nat}
    (h : x.runOn files lines = ((.error code, lines'), files'))
    (f : α → Task (StateM FileTree) β) :
    (x >>= f).runOn files lines = ((.error code, lines'), files') := by
  rw [runOn, ExceptT.run_bind, StateT.run_bind, StateT.run_bind]
  have h' : StateT.run (m := Id) (StateT.run (ExceptT.run x) lines) files = _ := h
  rw [h']
  rfl

theorem runOn_heed (files : FileTree) (lines : List Line) (x : Logged α) :
    (heed x).runOn files lines = ((.ok x.value, lines ++ x.warnings.map .warning), files) := rfl

/-- What is asked of the disk leaves the lines as they are. -/
theorem runOn_ask {files : FileTree} (lines : List Line) {request : StateM FileTree α} {a : α}
    (h : StateT.run (m := Id) request files = (a, files)) :
    (ask request).runOn files lines = ((.ok a, lines), files) := by
  show StateT.run (m := Id) (request >>= fun a => pure (Except.ok a, lines)) files = _
  rw [StateT.run_bind, h]
  rfl

theorem report_ok {files files' : FileTree} {lines : List Line}
    {task : Task (StateM FileTree) (Option Service)} {service : Option Service}
    (h : task.runOn files [] = ((.ok service, lines), files')) :
    StateT.run (m := Id) task.report files = ({ code := 0, lines, service }, files') := by
  have h' : StateT.run (m := Id) (StateT.run (ExceptT.run task) []) files = _ := h
  rw [report, StateT.run_bind, h']
  rfl

theorem report_error {files files' : FileTree} {lines : List Line}
    {task : Task (StateM FileTree) (Option Service)} {code : Nat}
    (h : task.runOn files [] = ((.error code, lines), files')) :
    StateT.run (m := Id) task.report files = ({ code, lines }, files') := by
  have h' : StateT.run (m := Id) (StateT.run (ExceptT.run task) []) files = _ := h
  rw [report, StateT.run_bind, h']
  rfl

end Task

def loaderOn (files : FileTree) (config : Config) : Loader :=
  ⟨fun path => Loader.textOf (files.read path), config.structurePath, config.sourceRoot⟩

/-- A task of the loader runs on the files as they are. -/
theorem loading_runOn {α : Type} {files : FileTree} {config : Config} {task : Loader → Logged α}
    (hreads : ∀ l rd, (task (l.reading rd)).reads = (task l).reads)
    (hsame : ∀ (l : Loader) rd, (∀ path ∈ (task l).reads, rd path = l.read path) →
      task (l.reading rd) = task l) (lines : List Line) :
    (loading FileTree.disk config task).runOn files lines =
      ((.ok (task (loaderOn files config)).value,
        lines ++ (task (loaderOn files config)).warnings.map .warning), files) := by
  have hsupply := Loader.supply_run files
    (fun read => task ⟨read, config.structurePath, config.sourceRoot⟩)
    (fun rd => hreads ⟨fun _ => .error "", config.structurePath, config.sourceRoot⟩ rd)
    (fun rd rd' h => hsame ⟨rd, config.structurePath, config.sourceRoot⟩ rd' h)
  rw [loading, Task.runOn_bind (Task.runOn_ask lines hsupply), Task.runOn_heed]
  rfl

theorem load_runOn (files : FileTree) (config : Config) (lines : List Line) :
    (loading FileTree.disk config Loader.load).runOn files lines =
      ((.ok (loaderOn files config).load.value,
        lines ++ (loaderOn files config).load.warnings.map .warning), files) := by
  refine loading_runOn ?_ ?_ lines
  · intro l rd
    rw [Loader.load_reads, Loader.load_reads]
    rfl
  · intro l rd h
    exact (l.load_confined rd).same h

theorem hydrateOne_runOn (files : FileTree) (config : Config) (tree : Node) (id : Nat)
    (lines : List Line) :
    (loading FileTree.disk config (·.hydrateOne tree id)).runOn files lines =
      ((.ok ((loaderOn files config).hydrateOne tree id).value,
        lines ++ ((loaderOn files config).hydrateOne tree id).warnings.map .warning), files) := by
  refine loading_runOn ?_ ?_ lines
  · intro l rd
    exact l.reading_hydrateOne_reads rd tree id
  · intro l rd h
    exact (l.hydrateOne_confined rd tree id).same h

def panelLine (format : PanelFormat) (panel : Panel) : Line :=
  match format with
  | .markdown => .out panel.toMarkdown
  | .html => .plain panel.toHtml
  | .json => .plain panel.toJson.pretty

/-- The report that prints a panel with all its sections open, or says why there is none. -/
def detailReport (lines : List Line) (format : PanelFormat) : Except AtlasError Panel → Report
  | .ok panel => { code := 0, lines := lines ++ [panelLine format panel.expandAll] }
  | .error e => { code := 1, lines := lines ++ [.error e.message] }

/-- With its source, a node is looked for in the tree with all sources. -/
theorem panelOf_runOn (files : FileTree) (config : Config) {tree : Node}
    (h : ∀ s ∈ tree.walk, s.node.isFile → s.node.children = []) (name : Option String) (id : Nat)
    (lines : List Line) :
    (panelOf FileTree.disk config tree name (some id) true).runOn files lines =
      (Task.orRefuse AtlasError.message
        (((loaderOn files config).hydrate tree).value.details id)).runOn files
        (lines ++ ((loaderOn files config).hydrateOne tree id).warnings.map .warning) := by
  have hone := hydrateOne_runOn files config tree id lines
  have hpanel := (loaderOn files config).ofNode_hydrateOne h id
  rw [← Panel.at?_eq] at hpanel
  rw [Node.details, ← hpanel]
  show (loading FileTree.disk config (·.hydrateOne tree id) >>= _).runOn files lines = _
  rw [Task.runOn_bind hone]
  cases ((loaderOn files config).hydrateOne tree id).value with
  | none => rfl
  | some node =>
    show (Task.orRefuse AtlasError.message (node.details 0)).runOn files _ = _
    rw [Node.details, Panel.at?_zero]
    rfl

theorem panel_run {files : FileTree} {project : String} {data : Overrides} {config : Config}
    {lines : List Line}
    (hconfig : (configOf FileTree.disk project data).runOn files [] = ((.ok config, lines), files))
    {tree : Node} (htree : (loaderOn files config).load.value = tree)
    (h : ∀ s ∈ tree.walk, s.node.isFile → s.node.children = []) (name : Option String) (id : Nat)
    (format : PanelFormat) :
    StateT.run (m := Id)
        (Invocation.run FileTree.disk ⟨project, .panel name (some id) data true format⟩) files =
      (detailReport (lines ++ (loaderOn files config).load.warnings.map .warning ++
          ((loaderOn files config).hydrateOne tree id).warnings.map .warning) format
        (((loaderOn files config).hydrate tree).value.details id), files) := by
  have hload := load_runOn files config lines
  rw [htree] at hload
  have hpanel := panelOf_runOn files config h name id
    (lines ++ (loaderOn files config).load.warnings.map .warning)
  cases hd : ((loaderOn files config).hydrate tree).value.details id with
  | ok p =>
    rw [hd] at hpanel
    refine Task.report_ok ?_
    show (configOf FileTree.disk project data >>= _).runOn files [] = _
    rw [Task.runOn_bind hconfig, Task.runOn_bind hload, Task.runOn_bind hpanel]
    rfl
  | error e =>
    rw [hd] at hpanel
    refine Task.report_error ?_
    show (configOf FileTree.disk project data >>= _).runOn files [] = _
    rw [Task.runOn_bind hconfig, Task.runOn_bind hload]
    exact Task.runOn_bind_error hpanel _

end Cli

namespace Loader

open Server

/-- In a tree whose files have no children, there is a node with its source at exactly the positions
of the tree. A file is what stands at its position after attaching all sources, and what is read for
it is the one path, if any, that attaching all sources reads there; for a directory nothing is read.
For both the panel is that of the tree with all sources. This is what the details at a site show, of
the tree that the site hands out with all sources, and what the command line shows. -/
theorem hydrateOne_shows_whole (l : Loader) (root : Node) (id : Nat)
    (hleaves : ∀ s ∈ root.walk, s.node.isFile → s.node.children = []) :
    let whole := (l.hydrate root).value
    ((l.hydrateOne root id).value.isSome ↔ id < root.nodeCount) ∧
    (l.hydrate root).reads = root.walk.flatMap (l.readsAt root) ∧
    (∀ s, root.walk[id]? = some s →
      (l.hydrateOne root id).reads = l.readsAt root s ∧ (l.readsAt root s).length ≤ 1 ∧
      (s.node.isFile → (l.hydrateOne root id).value = whole.findById id) ∧
      (s.node.isDirectory → (l.hydrateOne root id).reads = [])) ∧
    (l.hydrateOne root id).value.map (fun n => Panel.build (.full n)) =
      (whole.findById id).map (fun n => Panel.build (.full n)) ∧
    (∀ site : Site, site.loader = l → l.load.value = root →
      (∀ query q, Query.parse? .codebase query = some q → q.includeSource →
        (respond site ⟨"GET", "/api/codebase", query⟩).value =
          .json (Document.ofNode whole).canonical) ∧
      ∀ query q text, Query.parse? .details query = some q → q.includeSource →
        q.get? "id" = some text → unsigned? text = some id →
        (respond site ⟨"GET", "/api/details", query⟩).value =
          .json ((Panel.at? whole id).getD Panel.empty).toJson) ∧
    ∀ files config project data lines, l = Cli.loaderOn files config → l.load.value = root →
      (Cli.configOf FileTree.disk project data).runOn files [] = ((.ok config, lines), files) →
      ∀ name format, StateT.run (m := Id) (Cli.Invocation.run FileTree.disk
          ⟨project, .panel name (some id) data true format⟩) files =
        (Cli.detailReport (lines ++ l.load.warnings.map .warning ++
          (l.hydrateOne root id).warnings.map .warning) format (whole.details id), files) := by
  intro whole
  refine ⟨l.hydrateOne_isSome root id, l.hydrate_reads root, ?_, l.ofNode_hydrateOne hleaves id,
    ?_, ?_⟩
  · intro s hs
    have hopen := Node.openTo_of_leaves hleaves (List.mem_of_getElem? hs)
    have hreads : (l.hydrateOne root id).reads = l.readsAt root s := by
      rw [hydrateOne_reads l hs, readsAt, hopen, Bool.and_true]
    refine ⟨hreads, l.readsAt_length_le root s, ?_, ?_⟩
    · intro hfile
      exact l.hydrateOne_file hs hfile hopen
    · intro hdir
      rw [hreads, readsAt, Node.isFile_eq, hdir]
      rfl
  · rintro site rfl rfl
    constructor
    · intro query q hparse hq
      show (Route.answer site .codebase query).value = _
      unfold Route.answer
      rw [hparse]
      exact codebase_value hq
    · intro query q text hparse hq htext hid
      show (Route.answer site .details query).value = _
      unfold Route.answer
      rw [hparse]
      exact details_value hleaves hq htext hid
  · rintro files config project data lines rfl hroot hconfig name format
    exact Cli.panel_run hconfig hroot hleaves name id format

/-- A document with one file. -/
def sampleDocument : String :=
  "\x7b\"name\":\"r\",\"type\":\"directory\",\"children\":[" ++
    "\x7b\"name\":\"a.c\",\"type\":\"file\"\x7d]\x7d"

/-- A disk with the document and the file. -/
def sampleFiles : FileTree :=
  { top := .directory [
      ("m.json", .file sampleDocument.toUTF8 ⟨0, 0⟩),
      ("src", .directory [("a.c", .file "int a;".toUTF8 ⟨0, 0⟩)])] }

def sampleConfig : Config :=
  { ({} : Config).rootedAt "/" with structurePath := "/m.json", sourceRoot := "/src" }

theorem sampleFiles_document : textOf (sampleFiles.read "/m.json") = .ok sampleDocument := by
  have hs : Path.segments "/m.json" = ["", "m.json"] := by decide
  have ha : Path.isAbsolute "/m.json" = true := by decide
  have hread : sampleFiles.read "/m.json" = .ok sampleDocument.toUTF8 := by
    simp [FileTree.read, FileTree.find, FileTree.resolve, hs, ha, FileTree.follow, sampleFiles,
      Item.get?]
    rfl
  rw [hread]
  decide +kernel

theorem sampleConfig_found :
    (Cli.configOf FileTree.disk "/" ⟨some "/m.json", some "/src"⟩).runOn sampleFiles [] =
      ((.ok sampleConfig, []), sampleFiles) := by
  have hroot : sampleFiles.canonical "/" = .ok "/" := by
    have hs : Path.segments "/" = ["", ""] := by decide
    have ha : Path.isAbsolute "/" = true := by decide
    simp [FileTree.canonical, FileTree.resolve, hs, ha, FileTree.follow, sampleFiles, Item.get?]
    rfl
  have hnone : sampleFiles.reaches (Path.join "/" Config.fileName) = false := by
    have hs : Path.segments (Path.join "/" Config.fileName) = ["", ".codemap.toml"] := by decide
    have ha : Path.isAbsolute (Path.join "/" Config.fileName) = true := by decide
    have he : (Path.join "/" Config.fileName).isEmpty = false := by decide
    simp [FileTree.reaches, FileTree.resolve, hs, ha, he, FileTree.follow, sampleFiles, Item.get?,
      FileTree.longestName]
    decide
  have hload : StateT.run (m := Id) (Config.load FileTree.disk "/") sampleFiles =
      (.ok (({} : Config).rootedAt "/"), sampleFiles) := by
    rw [Config.load, StateT.run_bind]
    show StateT.run (m := Id) (if sampleFiles.reaches (Path.join "/" Config.fileName) = true then _
      else _) sampleFiles = _
    rw [hnone]
    rfl
  have hcanonical : StateT.run (m := Id) (FileTree.disk.canonical "/") sampleFiles =
      (.ok "/", sampleFiles) :=
    congrArg (·, sampleFiles) hroot
  rw [Cli.configOf, Cli.Task.runOn_bind (Cli.Task.runOn_ask [] hcanonical)]
  show (pure "/" >>= _ : Cli.Task (StateM FileTree) Config).runOn sampleFiles [] = _
  rw [pure_bind, Cli.Task.runOn_bind (Cli.Task.runOn_ask [] hload)]
  rfl

theorem hydrateOne_shows_whole_sample :
    let l := Cli.loaderOn sampleFiles sampleConfig
    let whole := (l.hydrate l.load.value).value
    (l.hydrateOne l.load.value 1).reads = ["/src/a.c"] ∧
    (respond ⟨l, Dimensions.standard⟩ ⟨"GET", "/api/details", "id=1&includeSource=true"⟩).value =
      .json ((Panel.at? whole 1).getD Panel.empty).toJson ∧
    StateT.run (m := Id) (Cli.Invocation.run FileTree.disk
        ⟨"/", .panel none (some 1) ⟨some "/m.json", some "/src"⟩ true .html⟩) sampleFiles =
      (Cli.detailReport (l.load.warnings.map .warning ++
        (l.hydrateOne l.load.value 1).warnings.map .warning) .html (whole.details 1),
        sampleFiles) := by
  intro l whole
  have hload : l.load = (l.reading fun _ => .ok sampleDocument).load := by
    refine ((l.load_confined _).same fun path hpath => ?_).symm
    rw [load_reads, List.mem_singleton] at hpath
    rw [hpath]
    exact sampleFiles_document.symm
  have hleaves : ∀ s ∈ l.load.value.walk, s.node.isFile → s.node.children = [] := by
    rw [hload, Node.walk_eq]
    decide +kernel
  obtain ⟨_, _, hnode, _, hsite, hline⟩ := hydrateOne_shows_whole l l.load.value 1 hleaves
  refine ⟨?_, ?_, ?_⟩
  · rw [← reading_hydrateOne_reads l (fun _ => .error ""), hload]
    decide +kernel
  · have hpairs : Text.Percent.formPairs "id=1&includeSource=true" =
        [("id", "1"), ("includeSource", "true")] := by decide +kernel
    have hquery : Query.parse? .details "id=1&includeSource=true" =
        some ⟨[("id", "1"), ("includeSource", "true")]⟩ := by
      rw [Query.parse?, hpairs]
      exact if_pos (by decide)
    exact (hsite ⟨l, Dimensions.standard⟩ rfl rfl).2 _ _ "1" hquery (by decide) (by decide)
      (by decide)
  · exact hline sampleFiles sampleConfig "/" ⟨some "/m.json", some "/src"⟩ [] rfl rfl
      sampleConfig_found none .html

end Loader

end SourceAtlas
