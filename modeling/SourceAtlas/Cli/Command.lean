import SourceAtlas.Cli.Arguments
import SourceAtlas.Links.View
import SourceAtlas.Diagram.Renderer
import SourceAtlas.Server.Target

/-! The commands and the command lines that call them. -/

namespace SourceAtlas.Cli

structure Overrides where
  structurePath : Option String := none
  sourceRoot : Option String := none
  deriving DecidableEq, Repr

inductive LinksFormat where
  | text
  | json
  deriving DecidableEq, Repr

inductive PanelFormat where
  | markdown
  | html
  | json
  deriving DecidableEq, Repr

inductive Command where
  /-- Serve the document over HTTP. -/
  | serve (data : Overrides) (port : Option Nat) (host : Option String) (browse strict : Bool)
  /-- Print the links of a view. -/
  | links (view : View) (data : Overrides) (format : LinksFormat)
  /-- Print the panel of a node, found by position or else by name. -/
  | panel (name : Option String) (id : Option Nat) (data : Overrides) (withSource : Bool)
      (format : PanelFormat)
  /-- Write a drawing to a file. -/
  | draw (renderer : Renderer) (view : View) (expand : List String) (data : Overrides)
      (output : String)
  /-- Describe a directory of sources. -/
  | scan (directory : String) (output : Option String)
  /-- Write a file of settings to start from. -/
  | init (directory : String)
  /-- Look for faults in the document. -/
  | check (data : Overrides)
  deriving DecidableEq, Repr

/-- A command for the project in a directory. -/
structure Invocation where
  project : String
  command : Command
  deriving DecidableEq, Repr

def viewFault (s : String) : Option UsageError :=
  if (View.parse? s).isSome then none else some .rejectedValue

def rendererFault (s : String) : Option UsageError :=
  if (Renderer.parse? s).isSome then none else some .rejectedValue

/-- A path may not be empty. -/
def pathFault (s : String) : Option UsageError := if s.isEmpty then some .invalidValue else none

/-- A word has to be one of a fixed set. -/
def choiceFault (words : List String) (s : String) : Option UsageError :=
  if words.contains s then none else some .invalidValue

/-- A port number in decimal digits, with or without a sign. -/
def port? (s : String) : Option Nat :=
  let (negative, digits) := match s.toList with
    | '-' :: ds => (true, ds)
    | '+' :: ds => (false, ds)
    | ds => (false, ds)
  (Server.unsigned? (String.ofList digits)).bind fun n =>
    if digits.head? = some '+' || UInt16.size ≤ n || (negative && n ≠ 0) then none else some n

def portFault (s : String) : Option UsageError :=
  if (port? s).isSome then none else some .rejectedValue

def positionFault (s : String) : Option UsageError :=
  if (Server.unsigned? s).isSome then none else some .rejectedValue

def commonOptions : List Parameter :=
  [{ name := "project", fault := pathFault },
   { name := "help", short := some 'h', role := .asks .help }]

def dataOptions : List Parameter :=
  [{ name := "structure", fault := pathFault }, { name := "source-root", fault := pathFault }]

def commandNames : List String :=
  ["serve", "links", "show", "export", "scan", "init", "check", "help"]

def topGrammar : Grammar where
  options := { name := "version", short := some 'V', role := .asks .version } :: commonOptions
  commands := commandNames

def grammar : String → Grammar
  | "serve" => { options := commonOptions ++ dataOptions ++ [
      { name := "port", fault := portFault }, { name := "host" },
      { name := "open", role := .flag }, { name := "strict", role := .flag }] }
  | "links" => {
      options := commonOptions ++ dataOptions ++ [
        { name := "format", short := some 'f', fault := choiceFault ["text", "json"] }]
      word := some { name := "view", fault := viewFault } }
  | "show" => {
      options := commonOptions ++ dataOptions ++ [
        { name := "id", fault := positionFault }, { name := "source", role := .flag },
        { name := "format", short := some 'f', fault := choiceFault ["markdown", "html", "json"] }]
      word := some { name := "name" } }
  | "export" => { options := commonOptions ++ dataOptions ++ [
      { name := "view", fault := rendererFault }, { name := "links", fault := viewFault },
      { name := "expand", role := .repeated },
      { name := "output", short := some 'o', fault := pathFault }] }
  | "scan" => {
      options := commonOptions ++ [{ name := "output", short := some 'o', fault := pathFault }]
      word := some { name := "directory", fault := pathFault } }
  | "init" => { options := commonOptions, word := some { name := "directory", fault := pathFault } }
  | "check" => { options := commonOptions ++ dataOptions }
  | _ => { options := commonOptions }

def Given.overrides (g : Given) : Overrides := ⟨g.value? "structure", g.value? "source-root"⟩

/-- The view given, or the first of all. -/
def Given.view (g : Given) (name : String) : View :=
  ((g.value? name).bind View.parse?).getD .hierarchy

def Command.build (name : String) (g : Given) : Except UsageError Command :=
  match name with
  | "serve" => .ok (.serve g.overrides ((g.value? "port").bind port?) (g.value? "host")
      (g.has "open") (g.has "strict"))
  | "links" => .ok (.links (g.view "view") g.overrides
      (if g.value? "format" = some "json" then .json else .text))
  | "show" =>
    if g.has "name" && g.has "id" then .error .conflict
    else if !g.has "name" && !g.has "id" then .error .missingArgument
    else .ok (.panel (g.value? "name") ((g.value? "id").bind Server.unsigned?) g.overrides
      (g.has "source") (match g.value? "format" with
        | some "html" => .html
        | some "json" => .json
        | _ => .markdown))
  | "export" =>
    match g.value? "output" with
    | none => .error .missingArgument
    | some output => .ok (.draw (((g.value? "view").bind Renderer.parse?).getD .tree)
        (g.view "links") ((g.get? "expand").getD []) g.overrides output)
  | "scan" =>
    match g.value? "directory" with
    | none => .error .missingArgument
    | some directory => .ok (.scan directory (g.value? "output"))
  | "init" => .ok (.init ((g.value? "directory").getD "."))
  | "check" => .ok (.check g.overrides)
  | _ => .error .unknownCommand

def helpOn : List String → UsageError
  | [] => .help
  | [name] => if commandNames.contains name then .help else .unknownCommand
  | _ => .unknownCommand

def readCommand (name : String) (args : List String) : Except UsageError (Given × Command) := do
  let (p, _) ← (grammar name).read {} args
  let p ← p.settle
  return (p.given, ← Command.build name p.given)

/-- Reads a command line. Options before the command are settled after the command; the project
given with the command counts more than the one given before it. -/
def Invocation.parse (args : List String) : Except UsageError Invocation := do
  match ← topGrammar.read {} args with
  | (_, some ("help", rest)) => .error (helpOn rest)
  | (p, some (name, rest)) =>
    let (given, command) ← readCommand name rest
    let p ← p.settle
    return ⟨((given.value? "project").or (p.given.value? "project")).getD ".", command⟩
  | (p, none) =>
    let p ← p.settle
    .error (if p.given.isEmpty then .nothingGiven else .missingCommand)

end SourceAtlas.Cli
