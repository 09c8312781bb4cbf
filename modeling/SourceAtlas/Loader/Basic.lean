import SourceAtlas.Tree.Document
import SourceAtlas.Tree.Locate
import SourceAtlas.Files.Path

/-! Loading a structure document and attaching source texts to its files. What is read, and what is
warned about, is recorded beside the result. Loading and attaching never fail as a whole: a document
that cannot be used gives an empty directory, and a file that cannot be read gets a fixed text while
the others carry on. -/

namespace SourceAtlas

inductive LoadError where
  | unreadable (path reason : String)
  | invalid (fault : Document.Fault)
  | outside (path : String)
  | duplicates (names : List String)

def Document.Fault.message : Document.Fault → String
  | .malformed => "not well-formed JSON"
  | .mismatched => "not a description of a tree"

def LoadError.message : LoadError → String
  | .unreadable path reason => "Failed to read " ++ path ++ ": " ++ reason
  | .invalid fault => "Failed to parse structure document: " ++ fault.message
  | .outside path => "Refusing path outside the source root: " ++ path
  | .duplicates names => "Duplicate node names: " ++ ", ".intercalate names

/-- Something that happened on the way to a result. -/
inductive Event where
  | read (path : String)
  | warning (message : String)
  deriving DecidableEq, Repr

/-- A result together with what happened on the way, in order. -/
structure Logged (α : Type) where
  value : α
  events : List Event := []

namespace Logged

instance : Monad Logged where
  pure a := ⟨a, []⟩
  bind x f := let y := f x.value; ⟨y.value, x.events ++ y.events⟩

def reads {α : Type} (x : Logged α) : List String :=
  x.events.filterMap fun e => match e with
    | .read path => some path
    | .warning _ => none

def warnings {α : Type} (x : Logged α) : List String :=
  x.events.filterMap fun e => match e with
    | .warning message => some message
    | .read _ => none

def warn (message : String) : Logged Unit := ⟨(), [.warning message]⟩

end Logged

/-- The names of a tree are told apart, or the repeated ones are the error. -/
def Node.checkUnique (root : Node) : Except LoadError Unit :=
  let names := root.duplicateNames
  if names.isEmpty then .ok () else .error (.duplicates names)

/-- Where a document and its sources are, and how files are read: the text of a file, or the reason
why there is none. -/
structure Loader where
  read : String → Except String String
  structurePath : String
  sourceRoot : String

namespace Loader

def unreadableSource : String := "Error reading file"

/-- The tree that stands for a document that cannot be used. -/
def fallback : Node := .directory "root" []

def readText (l : Loader) (path : String) : Logged (Except LoadError String) :=
  ⟨match l.read path with
    | .ok text => .ok text
    | .error reason => .error (.unreadable path reason), [.read path]⟩

def tryLoad (l : Loader) : Logged (Except LoadError Node) := do
  match ← l.readText l.structurePath with
  | .ok text => return (Document.parse text).mapError .invalid
  | .error e => return .error e

/-- The tree of the document, or the fallback. Repeated names are only warned about. -/
def load (l : Loader) : Logged Node := do
  match ← l.tryLoad with
  | .ok tree =>
    match tree.checkUnique with
    | .ok _ => return tree
    | .error e =>
      Logged.warn (l.structurePath ++ ": " ++ e.message ++ " (lookups resolve to the first match)")
      return tree
  | .error e =>
    Logged.warn ("Error reading codebase structure: " ++ e.message)
    return fallback

/-- The text of a source given by its path below the root; nothing outside is read. -/
def readSource (l : Loader) (path : String) : Logged (Except LoadError String) :=
  if Path.leaves path then pure (.error (.outside path))
  else l.readText (Path.join l.sourceRoot path)

/-- The path of a file below the root: the one that it gives itself, or the names on the way to
it. -/
def sourcePath (e : Entry) (trail : List String) : String :=
  e.path.getD ("/".intercalate (trail ++ [e.name]))

/-- The source of a file, or the text that stands for one that cannot be read. -/
def source (l : Loader) (e : Entry) (trail : List String) : Logged String := do
  match ← l.readSource (sourcePath e trail) with
  | .ok text => return text
  | .error error =>
    Logged.warn ("Error reading file " ++ e.name ++ ": " ++ error.message)
    return unreadableSource

mutual
/-- Attaches the sources below a node; `trail` holds the names above it and `steps` is false for the
root, whose own name is no part of a path. Nothing below a file is touched. -/
def hydrateAt (l : Loader) (trail : List String) (steps : Bool) : Node → Logged Node
  | .mk e none =>
    if e.kind = .file then do return .mk (e.withSource (← l.source e trail)) none
    else pure (.mk e none)
  | .mk e (some cs) =>
    if e.kind = .file then do return .mk (e.withSource (← l.source e trail)) (some cs)
    else do return .mk e (some (← hydrateAll l (if steps then trail ++ [e.name] else trail) cs))

def hydrateAll (l : Loader) (trail : List String) : List Node → Logged (List Node)
  | [] => pure []
  | n :: ns => do
    let n ← hydrateAt l trail true n
    let ns ← hydrateAll l trail ns
    return n :: ns
end

def hydrate (l : Loader) (root : Node) : Logged Node := l.hydrateAt [] false root

/-- The node at a position, with its source attached when it is a file. Nothing else is read. -/
def hydrateOne (l : Loader) (root : Node) (id : Nat) : Logged (Option Node) :=
  match root.locate id with
  | none => pure none
  | some (trail, n) =>
    if n.isDirectory then pure (some n)
    else do return some (← l.hydrateAt trail (id != 0) n)

end Loader

end SourceAtlas
