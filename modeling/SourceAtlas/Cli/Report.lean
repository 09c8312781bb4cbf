import SourceAtlas.Geometry.Scalar
import SourceAtlas.Diagram.Dimensions
import SourceAtlas.Loader.Basic

/-! What a command leaves behind: lines for the reader, an exit code and, for the command that
serves, what to serve. -/

namespace SourceAtlas.Cli

/-- Text for one of the two channels of output. -/
inductive Line where
  | out (text : String)
  | err (text : String)
  deriving DecidableEq, Repr

namespace Line

def plain (text : String) : Line := .out (text ++ "\n")

def error (message : String) : Line := .err ("error: " ++ message ++ "\n")

def warning (message : String) : Line := .err ("warning: " ++ message ++ "\n")

def hint (message : String) : Line := .err ("hint: " ++ message ++ "\n")

def success (message : String) : Line := plain ("✓ " ++ message)

def status (message : String) : Line := plain ("→ " ++ message)

/-- The title of a part, set off by an empty line. -/
def title (text : String) : Line := plain ("\n" ++ text)

def metric (label value : String) : Line := plain ("  " ++ label ++ ": " ++ value)

end Line

structure Service where
  structurePath : String
  sourceRoot : String
  dims : Dimensions Float
  host : String
  port : Nat
  browse : Bool

def Service.address (s : Service) : String := s.host ++ ":" ++ toString s.port

structure Report where
  code : Nat
  lines : List Line
  service : Option Service := none

namespace Report

def stdout (r : Report) : String :=
  String.join (r.lines.map fun l => match l with
    | .out text => text
    | .err _ => "")

def stderr (r : Report) : String :=
  String.join (r.lines.map fun l => match l with
    | .err text => text
    | .out _ => "")

def unserved (r : Report) (reason : String) : Report :=
  ⟨1, r.lines ++ [.error ("Server failed: " ++ reason)], none⟩

end Report

/-- A part of a command: it writes lines, and may end the command with an exit code. -/
abbrev Task (m : Type → Type) := ExceptT Nat (StateT (List Line) m)

namespace Task

variable {m : Type → Type} [Monad m] {α : Type}

def say (lines : List Line) : Task m Unit := modify (· ++ lines)

def refuse (message : String) (more : List Line) : Task m α := do
  say (.error message :: more)
  throw 1

/-- Goes on with a result, or ends the command with what is said of the error. -/
def orRefuse {ε : Type} (message : ε → String) : Except ε α → Task m α
  | .ok a => pure a
  | .error e => refuse (message e) []

/-- Goes on with a result after passing its warnings on. -/
def heed (x : Logged α) : Task m α := do
  say (x.warnings.map .warning)
  return x.value

def ask (request : m α) : Task m α := liftM request

def report (task : Task m (Option Service)) : m Report := do
  let (result, lines) ← (ExceptT.run task).run []
  return match result with
    | .ok service => { code := 0, lines, service }
    | .error code => { code, lines }

end Task

end SourceAtlas.Cli
