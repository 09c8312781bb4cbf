import SourceAtlas.Cli.Run

/-! The program: its requests go to the machine's own disk, and its report to the two channels of
output. -/

namespace SourceAtlas.Main

open SourceAtlas.Cli

def faultOf : IO.Error → Fault
  | .noFileOrDirectory _ _ _ => .notFound
  | .noSuchThing _ _ _ => .notFound
  | .permissionDenied _ _ _ => .denied
  | .inappropriateType _ code _ => if code = 20 then .notDirectory else .isDirectory
  | e => .other (toString e)

/-- The result of an action, or the fault that stopped it. -/
def attempt {α : Type} (action : IO α) : IO (Except Fault α) := do
  try return .ok (← action)
  catch e => return .error (faultOf e)

def realPath (path : String) : IO String := do return (← IO.FS.realPath path).toString

/-- Names of the files that hold lists of patterns or mark a repository. -/
def listNames : List String := [".ignore", ".gitignore", ".git", "exclude"]

/-- What is below a directory; with `deep` false, only the lists of patterns in it. Of the records
of a repository, only its own list is looked at. -/
partial def entriesOf (path : String) (deep : Bool) : IO (List (String × Item)) := do
  (← (← IO.FS.realPath path).readDir).toList.filterMapM fun entry => do
    let name := entry.fileName
    let here := Path.join path name
    try
      let info ← entry.path.symlinkMetadata
      match info.type with
      | .dir =>
        if name == ".git" then
          let own := Path.join here "info"
          let entries ← if (← attempt (realPath own)).isOk then entriesOf own false else pure []
          return some (name, .directory [("info", .directory entries)])
        else return some (name, .directory (← if deep then entriesOf here true else pure []))
      | .file =>
        let modified : Instant := ⟨info.modified.sec, info.modified.nsec.toNat⟩
        if !deep && !listNames.contains name then return none
        match ← attempt (IO.FS.readBinFile here) with
        | .ok bytes => return some (name, .file bytes modified)
        | .error fault => return some (name, .locked fault info.byteSize.toNat modified)
      | .symlink => return some (name, .link "")
      | .other => return none
    catch _ => return none

def survey (path : String) : IO (Except Fault (Option Survey)) := attempt do
  let place ← IO.FS.realPath path
  if !(← place.isDir) then return none
  let names := (Path.segments place.toString).filter (· ≠ "")
  let above ← (List.range names.length).mapM fun n =>
    entriesOf (FileTree.placeName (names.take n)) false
  return some ⟨names, above, ← entriesOf place.toString true⟩

def disk : Disk IO where
  reaches path := do return (← attempt (realPath path)).isOk
  canonical path := attempt (realPath path)
  read path := attempt (IO.FS.readBinFile path)
  write path text := attempt (IO.FS.writeFile path text)
  survey := survey

def usageText : UsageError → String
  | .help | .nothingGiven =>
    "Usage: codemap [--project <PROJECT>] <serve|links|show|export|scan|init|check>"
  | .version => "codemap 0.1.0"
  | .missingCommand => "error: a command is required"
  | .unknownCommand => "error: no such command"
  | .unknownArgument => "error: unexpected argument"
  | .invalidValue => "error: a value is missing or not among the possible ones"
  | .rejectedValue => "error: a value cannot be read"
  | .surplusValue => "error: a value for an option that takes none"
  | .missingArgument => "error: a required argument is missing"
  | .conflict => "error: arguments that cannot be used together"

/-- Shows a report and gives its exit code. -/
def present (report : Report) : IO UInt32 := do
  let stdout ← IO.getStdout
  let stderr ← IO.getStderr
  for line in report.lines do
    match line with
    | .out text => stdout.putStr text
    | .err text => stderr.putStr text
  return UInt32.ofNat report.code

end SourceAtlas.Main

open SourceAtlas in
/-- Runs a command line. Help and version are answers; any other fault of the command line ends with
code 2. There is no listener here, so a service never starts. -/
def main (args : List String) : IO UInt32 := do
  match Cli.Invocation.parse args with
  | .ok invocation =>
    let report ← invocation.run Main.disk
    Main.present (if report.service.isSome then report.unserved "no listener is available"
      else report)
  | .error fault =>
    if fault = .help || fault = .version then
      IO.println (Main.usageText fault)
      return 0
    else
      IO.eprintln (Main.usageText fault)
      return 2
