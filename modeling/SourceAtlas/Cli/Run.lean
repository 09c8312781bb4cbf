import SourceAtlas.Cli.Command
import SourceAtlas.Cli.Report
import SourceAtlas.Config.Load
import SourceAtlas.Panel.Html
import SourceAtlas.Panel.Markdown
import SourceAtlas.Panel.Document
import SourceAtlas.Atlas

/-! Running commands on a disk. -/

namespace SourceAtlas.Cli

variable {m : Type → Type} [Monad m] (disk : Disk m)

/-- The configuration of a project with the paths of the command line in place. A configuration that
cannot be used gives way to the defaults. -/
def configOf (project : String) (data : Overrides) : Task m Config := do
  let root ← match ← Task.ask (disk.canonical project) with
    | .ok root => pure root
    | .error _ => Task.refuse ("Could not resolve project directory: " ++ project) []
  let config ← match ← Task.ask (Config.load disk root) with
    | .ok config => pure config
    | .error e =>
      Task.say [.warning ("Failed to load config: " ++ e.message ++ ". Using defaults.")]
      pure (({} : Config).rootedAt root)
  return { config with
    structurePath := data.structurePath.getD config.structurePath
    sourceRoot := data.sourceRoot.getD config.sourceRoot }

def loading {α : Type} (config : Config) (task : Loader → Logged α) : Task m α := do
  Task.heed (← Task.ask
    (Loader.supply disk fun read => task ⟨read, config.structurePath, config.sourceRoot⟩))

def save (path text what : String) : Task m Unit := do
  match ← Task.ask (disk.write path text) with
  | .ok _ => pure ()
  | .error fault => Task.refuse ("Failed to write " ++ what ++ ": " ++ fault.message) []

/-- Serves the document: the lines shown before the service starts, and the service. -/
def serve (project : String) (data : Overrides) (port : Option Nat) (host : Option String)
    (browse strict : Bool) : Task m (Option Service) := do
  let config ← configOf disk project data
  if !(← Task.ask (disk.reaches config.structurePath)) then
    Task.say [
      .warning ("Structure document not found: " ++ config.structurePath ++
        ". Serving an empty tree."),
      .hint "Generate one with `codemap scan <dir> -o codebase_structure.json`"]
  else if strict then
    let tree ← Task.orRefuse LoadError.message (← loading disk config Loader.tryLoad)
    Task.orRefuse LoadError.message tree.checkUnique
  let service : Service :=
    { structurePath := config.structurePath, sourceRoot := config.sourceRoot
      dims := config.dimensions, host := host.getD config.host, port := port.getD config.port,
      browse }
  Task.say [.plain "codemap", .status ("Serving " ++ service.structurePath),
    .status ("Open in browser: http://" ++ service.address), .hint "Press Ctrl+C to stop"]
  return some service

def linkLines (view : View) (links : List Link) : List Line :=
  .plain (view.label ++ " (" ++ toString links.length ++ " edges)")
    :: links.map (fun l => .plain ("  " ++ l.source ++ " -> " ++ l.target))
    ++ .title "Nodes" :: (Link.endpoints links).map fun e => .metric e.name e.group.name

def links (project : String) (view : View) (data : Overrides) (format : LinksFormat) :
    Task m (Option Service) := do
  let config ← configOf disk project data
  let links := (← loading disk config Loader.load).links view
  match format with
  | .json => Task.say [.plain (Link.listJson view.name links).pretty]
  | .text => Task.say (linkLines view links)
  return none

/-- The panel of a node. With `withSource` the source of that one node is read. -/
def panelOf (config : Config) (tree : Node) (name : Option String) (id : Option Nat)
    (withSource : Bool) : Task m Panel := do
  match id.or (tree.idOf (name.getD "")) with
  | none => return Panel.named tree (name.getD "")
  | some id =>
    if withSource then
      match ← loading disk config (·.hydrateOne tree id) with
      | some node => Task.orRefuse AtlasError.message (node.details 0)
      | none => Task.orRefuse AtlasError.message (.error (.noNodeAt id))
    else Task.orRefuse AtlasError.message (tree.details id)

/-- Prints the panel of a node with all its sections open. -/
def panel (project : String) (name : Option String) (id : Option Nat) (data : Overrides)
    (withSource : Bool) (format : PanelFormat) : Task m (Option Service) := do
  let config ← configOf disk project data
  let tree ← loading disk config Loader.load
  let panel := (← panelOf disk config tree name id withSource).expandAll
  Task.say [match format with
    | .markdown => .out panel.toMarkdown
    | .html => .plain panel.toHtml
    | .json => .plain panel.toJson.pretty]
  return none

def draw (project : String) (renderer : Renderer) (view : View) (expand : List String)
    (data : Overrides) (output : String) : Task m (Option Service) := do
  let config ← configOf disk project data
  let tree ← loading disk config Loader.load
  let drawing ← Task.orRefuse AtlasError.message
    (tree.drawing renderer { dims := config.dimensions, view, expand })
  save disk output drawing "export file"
  Task.say [.success (renderer.name ++ " exported to: " ++ output)]
  return none

/-- Describes a directory of sources, on the first channel or in a file. -/
def scan (directory : String) (output : Option String) : Task m (Option Service) := do
  let found ← Task.orRefuse AtlasError.message (← Task.ask (scanDirectory disk directory))
  let tree ← Task.heed found
  match output with
  | none => Task.say [.plain tree.pretty]
  | some output =>
    save disk output tree.pretty "structure document"
    let files := (tree.preorder.filter Node.isFile).length
    Task.say [.success ("Structure written to: " ++ output), .metric "Files" (toString files),
      .metric "Directories" (toString (tree.nodeCount - files)),
      .metric "Bytes" (toString tree.totalSize)]
  return none

/-- Writes a file of settings to start from; one that is there is left alone. -/
def init (directory : String) : Task m (Option Service) := do
  let path := Path.join directory Config.fileName
  if ← Task.ask (disk.reaches path) then
    Task.refuse (Config.fileName ++ " already exists at " ++ path) []
  save disk path Config.template "config file"
  Task.say [.success ("Created " ++ Config.fileName ++ " at " ++ path)]
  return none

/-- Looks for faults in the document, and sums it up when there are none. -/
def check (project : String) (data : Overrides) : Task m (Option Service) := do
  let config ← configOf disk project data
  let tree ← Task.orRefuse LoadError.message (← loading disk config Loader.tryLoad)
  let names := tree.duplicateNames
  if !names.isEmpty then
    Task.refuse (toString names.length
        ++ " node name(s) occur more than once; lookups would resolve to the first match")
      (names.map fun name => .err ("  " ++ name ++ "\n"))
  Task.say ([.success (config.structurePath ++ " is valid"), .title "Summary",
      .metric "Nodes" (toString tree.nodeCount),
      .metric "Files" (toString (tree.preorder.filter Node.isFile).length),
      .metric "Depth" (toString tree.height)]
    ++ View.all.map fun view =>
      .metric (view.label ++ " edges") (toString (tree.links view).length))
  return none

def Invocation.run (i : Invocation) : m Report :=
  Task.report (match i.command with
    | .serve data port host browse strict => serve disk i.project data port host browse strict
    | .links view data format => links disk i.project view data format
    | .panel name id data withSource format => panel disk i.project name id data withSource format
    | .draw renderer view expand data output => draw disk i.project renderer view expand data output
    | .scan directory output => scan disk directory output
    | .init directory => init disk directory
    | .check data => check disk i.project data)

end SourceAtlas.Cli
