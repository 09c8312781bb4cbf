import SourceAtlas.Loader.Basic
import SourceAtlas.Files.Disk

/-! Loading from a disk. What a loader reads depends on the tree it is given and never on the texts
it gets, so the paths are found by a run in which every file is missing, and all of them are read
before the run that counts. -/

namespace SourceAtlas.Loader

/-- Reads files the way a loader takes them: octets that are no text do not hide the rest. -/
def textOf (content : Except Fault ByteArray) : Except String String :=
  match content with
  | .ok bytes => .ok (Text.Utf8.decodeLossy bytes.toList)
  | .error fault => .error fault.message

def supply {m : Type → Type} [Monad m] {α : Type} (disk : Disk m)
    (task : (String → Except String String) → Logged α) : m (Logged α) := do
  let paths := (task fun _ => .error "").reads
  let texts ← paths.mapM fun path => do return (path, textOf (← disk.read path))
  return task fun path => (texts.lookup path).getD (.error "")

end SourceAtlas.Loader
