import SourceAtlas.Files.Item
import SourceAtlas.Files.Path
import SourceAtlas.Text.Utf8

/-! What a program may ask of a disk, and a disk that is a plain value. The same requests are served
by the value, which is how a run is reasoned about, and by the machine's own disk. -/

namespace SourceAtlas

/-- A directory as it was found: its own path without links, what each directory above it holds,
from the top, and what it holds itself. -/
structure Survey where
  path : List String
  above : List (List (String × Item))
  entries : List (String × Item)

/-- The requests that a disk serves. -/
structure Disk (m : Type → Type) where
  /-- Whether a path leads to something. -/
  reaches : String → m Bool
  /-- The path of the same thing without links, dots and doubled slashes. -/
  canonical : String → m (Except Fault String)
  /-- The octets of a file. -/
  read : String → m (Except Fault ByteArray)
  /-- Makes a file with the given text, or gives the file that is there that text. -/
  write : String → String → m (Except Fault Unit)
  /-- A directory with all that is below it; nothing when the path leads to something else. -/
  survey : String → m (Except Fault (Option Survey))

/-- A disk as a value: what is on it, the directory from which relative paths start, and the
time. -/
structure FileTree where
  top : Item := .directory []
  start : List String := []
  clock : Instant := ⟨0, 0⟩

namespace FileTree

/-- The longest name of a step, in octets. -/
def longestName : Nat := 255

/-- How many links may be followed on the way along a path. -/
def mostLinks : Nat := 40

/-- Follows the steps of a path from a place; the result has no links in it. With `creating`, the
last step may lead to a name that is still free. -/
def follow (top : Item) (creating : Bool) (links : Nat) (place : List String) :
    List String → Except Fault (List String)
  | [] => .ok place
  | step :: rest =>
    match top.get? place with
    | some (.directory es) =>
      if step = "" ∨ step = "." then follow top creating links place rest
      else if step = ".." then follow top creating links place.dropLast rest
      else if longestName < step.utf8ByteSize then .error .nameTooLong
      else match es.lookup step with
        | none => if creating && rest.isEmpty then .ok (place ++ [step]) else .error .notFound
        | some (.link target) =>
          match links with
          | 0 => .error .tooManyLinks
          | links + 1 =>
            follow top creating links (if Path.isAbsolute target then [] else place)
              (Path.segments target ++ rest)
        | some _ => follow top creating links (place ++ [step]) rest
    | _ => .error .notDirectory
  termination_by steps => (links, steps.length)

def resolve (t : FileTree) (path : String) (creating : Bool) : Except Fault (List String) :=
  if path.isEmpty then .error .notFound
  else if path.toList.contains '\x00' then .error .nulInPath
  else follow t.top creating mostLinks (if Path.isAbsolute path then [] else t.start)
    (Path.segments path)

def find (t : FileTree) (path : String) : Except Fault Item := do
  match t.top.get? (← t.resolve path false) with
  | some item => .ok item
  | none => .error .notFound

def reaches (t : FileTree) (path : String) : Bool := (t.resolve path false).isOk

def placeName (place : List String) : String := "/" ++ "/".intercalate place

/-- The path of the same thing without links, dots and doubled slashes. -/
def canonical (t : FileTree) (path : String) : Except Fault String :=
  (t.resolve path false).map placeName

def read (t : FileTree) (path : String) : Except Fault ByteArray := do
  match ← t.find path with
  | .file bytes _ => .ok bytes
  | .locked reason _ _ => .error reason
  | .directory _ => .error .isDirectory
  | .link _ => .error .notFound

/-- Makes a file with the given text, or gives the file that is there that text. A path that ends
with a slash can only mean a directory. -/
def write (t : FileTree) (path text : String) : Except Fault FileTree := do
  let body := (path.toList.reverse.dropWhile (· == '/')).reverse
  let place ← t.resolve (if body.isEmpty then path else String.ofList body) true
  if body.length < path.length then .error .isDirectory
  else match t.top.get? place with
    | some (.directory _) => .error .isDirectory
    | some (.locked reason _ _) => .error reason
    | _ => .ok { t with top := .put (.file text.toUTF8 t.clock) place t.top }

def survey (t : FileTree) (path : String) : Except Fault (Option Survey) := do
  let place ← t.resolve path false
  match t.top.get? place with
  | some (.directory es) =>
    let above := (List.range place.length).map fun n =>
      ((t.top.get? (place.take n)).map Item.entries).getD []
    .ok (some ⟨place, above, es⟩)
  | _ => .ok none

/-- The requests as they are served by a disk that is a value. -/
def disk : Disk (StateM FileTree) where
  reaches path := do return (← get).reaches path
  canonical path := do return (← get).canonical path
  read path := do return (← get).read path
  write path text := do
    match (← get).write path text with
    | .ok t => set t; return .ok ()
    | .error fault => return .error fault
  survey path := do return (← get).survey path

end FileTree

end SourceAtlas
