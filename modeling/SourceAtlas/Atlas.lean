import SourceAtlas.Loader.Supply
import SourceAtlas.Scan.Describe
import SourceAtlas.Panel.Basic
import SourceAtlas.Diagram.Render

/-! What is asked of the atlas as a whole: to open a document, to scan a directory, to find a node,
to draw a tree. Each request either succeeds or says why it does not. -/

namespace SourceAtlas

inductive ScanError where
  | unreachable (path : String) (fault : Fault)
  | notDirectory (path : String)
  deriving DecidableEq, Repr

def ScanError.message : ScanError → String
  | .unreachable path fault => "Cannot scan " ++ path ++ ": " ++ fault.message
  | .notDirectory path => "Cannot scan " ++ path ++ ": not a directory"

inductive AtlasError where
  | pathNotFound (path : String)
  | load (error : LoadError)
  | scan (error : ScanError)
  | unknownView (text : String)
  | unknownRenderer (text : String)
  | noNodeNamed (name : String)
  | noNodeAt (id : Nat)

def AtlasError.message : AtlasError → String
  | .pathNotFound path => "Path not found: " ++ path
  | .load error => error.message
  | .scan error => "Scan error: " ++ error.message
  | .unknownView text => View.unknownMessage text
  | .unknownRenderer text => Renderer.unknownMessage text
  | .noNodeNamed name => "No node named " ++ name
  | .noNodeAt id => "No node at position " ++ toString id

def Node.details (root : Node) (id : Nat) : Except AtlasError Panel :=
  match Panel.at? root id with
  | some panel => .ok panel
  | none => .error (.noNodeAt id)

def Node.linkSet (root : Node) (text : String) : Except AtlasError LinkSet :=
  match root.linkSet? text with
  | some set => .ok set
  | none => .error (.unknownView text)

def Node.drawing (root : Node) (renderer : Renderer) (options : Diagram.Options) :
    Except AtlasError String :=
  (Diagram.render root renderer options).mapError .noNodeNamed

section

variable {m : Type → Type} [Monad m] (disk : Disk m)

/-- Opens the document at a path. With `strict`, repeated names are an error, and with `withSource`
every file gets its source text. -/
def openDocument (structurePath sourceRoot : String) (withSource strict : Bool) :
    m (Except AtlasError (Logged Node)) := do
  if !(← disk.reaches structurePath) then return .error (.pathNotFound structurePath)
  let loader (read : String → Except String String) : Loader := ⟨read, structurePath, sourceRoot⟩
  let loaded ← Loader.supply disk fun read => (loader read).tryLoad
  match loaded.value with
  | .error e => return .error (.load e)
  | .ok tree =>
    match if strict then tree.checkUnique else .ok () with
    | .error e => return .error (.load e)
    | .ok _ =>
      if withSource then
        let hydrated ← Loader.supply disk fun read => (loader read).hydrate tree
        return .ok hydrated
      else return .ok (pure tree)

def describeDirectory (path : String) : m (Except ScanError (Logged Node)) := do
  match ← disk.survey path with
  | .error fault => return .error (.unreachable path fault)
  | .ok none => return .error (.notDirectory path)
  | .ok (some survey) => return .ok (Scan.tree path survey)

/-- Describes a directory that is there. -/
def scanDirectory (path : String) : m (Except AtlasError (Logged Node)) := do
  if ← disk.reaches path then return (← describeDirectory disk path).mapError .scan
  else return .error (.pathNotFound path)

end

end SourceAtlas
