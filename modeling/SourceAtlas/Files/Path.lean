import SourceAtlas.Text.Pieces

/-! File paths as texts with slashes, and their steps. Joining never tidies a path up, so what is
read is what was written; a relative path stays below its root iff it has no step upward. -/

namespace SourceAtlas.Path

def isAbsolute (path : String) : Bool := path.toList.head? == some '/'

/-- A path seen from a directory. An absolute path stands for itself. -/
def join (directory path : String) : String :=
  if isAbsolute path then path
  else if directory.isEmpty || directory.toList.getLast? == some '/' then directory ++ path
  else directory ++ "/" ++ path

def segments (path : String) : List String := (Text.splitAt '/' path.toList).map String.ofList

inductive Component where
  /-- To the root of the file system. -/
  | root
  /-- To where one stands. -/
  | current
  /-- One step upward. -/
  | parent
  /-- To what has the given name. -/
  | normal (name : String)
  deriving DecidableEq, Repr

/-- The step that a segment stands for. Nothing between two slashes and a lone dot are no steps. -/
def Component.ofSegment? (segment : String) : Option Component :=
  if segment = "" ∨ segment = "." then none
  else if segment = ".." then some .parent
  else some (.normal segment)

/-- Where a path starts: at the root of the file system or, when it says so, where one stands. -/
def start (path : String) : List Component :=
  if isAbsolute path then [.root]
  else if (segments path).head? = some "." then [.current]
  else []

/-- The steps of a path. A lone dot counts at the start only. -/
def components (path : String) : List Component :=
  start path ++ (segments path).filterMap Component.ofSegment?

/-- Whether a path, seen from a root, might lead out of it: it is empty, or one of its steps goes
upward or to the root of the file system. -/
def leaves (path : String) : Bool :=
  path.isEmpty || (components path).any fun c => c == .parent || c == .root

/-- The name to which a path leads; none when its last step is no name. -/
def fileName? (path : String) : Option String :=
  match (components path).getLast? with
  | some (.normal name) => some name
  | _ => none

end SourceAtlas.Path
