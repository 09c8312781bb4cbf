import SourceAtlas.Scan.Walk
import SourceAtlas.Scan.Assemble
import SourceAtlas.CSource.Summary
import SourceAtlas.Loader.Basic

/-! The description of a directory of C sources as a tree. -/

namespace SourceAtlas.Scan

/-- What stands for an assessment that is still to be made. -/
def pendingAssessment : String := "To be analyzed by LLM"

/-- What a file's name, path and time tell of it. -/
def outline (path : List String) (modified : Instant) : Entry :=
  let name := path.getLast?.getD ""
  let place := "/".intercalate path
  { name, kind := .file
    path := some place
    readme := some (stubReadme name)
    extra := [("last_modified", .str modified.text),
      ("refactoring_potential", .str pendingAssessment), ("source_code_path", .str place)] }

/-- The entry of a file with the given octets. Octets that are no text do not hide the rest. -/
def describe (path : List String) (bytes : ByteArray) (modified : Instant) : Entry :=
  let text := Text.Utf8.decodeLossy bytes.toList
  let summary := CSource.summarize text
  let base := outline path modified
  { base with
    size := some (UInt64.ofNat bytes.size)
    dependencies := CSource.includes text.toList
    inputs := summary.parameterNames
    outputs := summary.returnTypes
    content := some { extra := Json.Members.ordered (Json.canonicalMembers summary.toMembers) }
    extra := Json.Members.insert "optimization_opportunities"
      (.arr (summary.opportunities.map .str)) base.extra }

/-- The node of a file that was taken in; `root` is the directory as it was called. -/
def node (root : String) (path : List String) : Item → Logged Node
  | .file bytes modified => pure (.mk (describe path bytes modified) none)
  | .locked reason size modified => do
    Logged.warn ("Error reading " ++ Path.join root ("/".intercalate path) ++ ": " ++
      reason.message)
    return .mk { outline path modified with size := some (UInt64.ofNat size) } none
  | _ => pure (.file (path.getLast?.getD ""))

/-- The name of a directory: the last step of its path without links or, at the top of the disk, of
the path by which it was called. -/
def rootName (root : String) (path : List String) : String :=
  (path.getLast?.or (Path.fileName? root)).getD "root"

def tree (root : String) (survey : Survey) : Logged Node := do
  let nodes ← (files survey).mapM fun (path, item) => do
    return (path.dropLast, ← node root path item)
  return assemble (rootName root survey.path) nodes

end SourceAtlas.Scan
