import SourceAtlas.Config.Basic
import SourceAtlas.Files.Disk

/-! Loading the configuration of a project from its directory. -/

namespace SourceAtlas

inductive ConfigError where
  | unreadable (reason : String)
  | invalid
  deriving DecidableEq, Repr

def ConfigError.message : ConfigError → String
  | .unreadable reason => "Failed to read config file: " ++ reason
  | .invalid => "Failed to parse config file: not valid settings"

namespace Config

def ofContent (content : Except Fault ByteArray) : Except ConfigError Config :=
  match content with
  | .error fault => .error (.unreadable fault.message)
  | .ok bytes =>
    match Text.Utf8.decode? bytes.toList with
    | none => .error (.unreadable "stream did not contain valid UTF-8")
    | some text => (parse? text).elim (.error .invalid) .ok

/-- The settings of the project in a directory, with their paths seen from there. A project without
a file of settings has the defaults. -/
def load {m : Type → Type} [Monad m] (disk : Disk m) (project : String) :
    m (Except ConfigError Config) := do
  let path := Path.join project fileName
  if ← disk.reaches path then
    return (ofContent (← disk.read path)).map (·.rootedAt project)
  else return .ok (({} : Config).rootedAt project)

end Config

end SourceAtlas
