/-! Reading the words of a command line. Options come in any order and mix with the one word that a
command may take besides; an option's value follows it, or is attached to it. A value is looked at
only when the next option or word shows that it is complete, and an unknown word is reported at
once: so of two faults the one that is met first need not be the one reported. -/

namespace SourceAtlas.Cli

/-- Why a command line is turned down; help and version are asked for in the same way. -/
inductive UsageError where
  | help
  | version
  /-- There is nothing at all on the command line. -/
  | nothingGiven
  | missingCommand
  | unknownCommand
  | unknownArgument
  /-- An option without its value, or a value that is not one of a fixed set. -/
  | invalidValue
  /-- A value that cannot be read. -/
  | rejectedValue
  /-- A value for an option that takes none. -/
  | surplusValue
  | missingArgument
  | conflict
  deriving DecidableEq, Repr

/-- What an option stands for. -/
inductive Role where
  /-- It is there or not. -/
  | flag
  /-- It has a value and comes once. -/
  | single
  /-- It has a value and may come again. -/
  | repeated
  /-- It ends the reading. -/
  | asks (reply : UsageError)
  deriving DecidableEq, Repr

/-- An option, or the word that a command takes. `fault` tells what is wrong with a value, if
anything is. -/
structure Parameter where
  name : String
  role : Role := .single
  short : Option Char := none
  fault : String → Option UsageError := fun _ => none

def Parameter.hasValue (p : Parameter) : Bool := p.role = .single || p.role = .repeated

/-- What may stand on a command line: options, at most one word, and names of commands, at which
reading stops. -/
structure Grammar where
  options : List Parameter
  word : Option Parameter := none
  commands : List String := []

/-- The values given, by the names of their parameters. -/
abbrev Given := List (String × List String)

def Given.get? (g : Given) (name : String) : Option (List String) := g.lookup name

def Given.value? (g : Given) (name : String) : Option String := (g.get? name).bind List.head?

def Given.has (g : Given) (name : String) : Bool := (g.get? name).isSome

def Given.add (g : Given) (name : String) (values : List String) : Given :=
  match g with
  | [] => [(name, values)]
  | (other, old) :: rest =>
    if other = name then (other, old ++ values) :: rest
    else (other, old) :: Given.add rest name values

/-- How far the reading has come: what is settled, the parameter whose values are still to be looked
at, whether the word has been met, and whether options are over. -/
structure Progress where
  given : Given := []
  pending : Option (Parameter × List String) := none
  hasWord : Bool := false
  literal : Bool := false

namespace Progress

def awaits (p : Progress) : Bool :=
  match p.pending with
  | some (_, []) => true
  | _ => false

def enter (p : Progress) (parameter : Parameter) (values : List String) :
    Except UsageError Progress :=
  let known := p.given.has parameter.name
  if parameter.hasValue && values.isEmpty then .error .invalidValue
  else match parameter.role with
    | .asks reply => .error reply
    | role =>
      if known && role ≠ .repeated then .error .conflict
      else match values.findSome? parameter.fault with
        | some e => .error e
        | none => .ok { p with given := p.given.add parameter.name values }

def settle (p : Progress) : Except UsageError Progress :=
  match p.pending with
  | none => .ok p
  | some (parameter, values) => { p with pending := none }.enter parameter values

def takeOption (p : Progress) (parameter : Parameter) (attached : Option String) :
    Except UsageError Progress :=
  if parameter.hasValue then do
    let p ← p.settle
    match attached with
    | some value => p.enter parameter [value]
    | none => .ok { p with pending := some (parameter, []) }
  else if attached.isSome then .error .surplusValue
  else do (← p.settle).enter parameter []

end Progress

namespace Grammar

/-- Takes in an option that is written with two dashes. -/
def takeLong (g : Grammar) (p : Progress) (text : List Char) : Except UsageError Progress :=
  let name := String.ofList (text.takeWhile (· ≠ '='))
  let attached := match text.dropWhile (· ≠ '=') with
    | [] => none
    | _ :: value => some (String.ofList value)
  match g.options.find? (·.name = name) with
  | some parameter => p.takeOption parameter attached
  | none => .error .unknownArgument

/-- Takes in options that are written with one dash. What follows the letter of an option with a
value is that value, with or without an equals sign. -/
def takeShort (g : Grammar) (p : Progress) : List Char → Except UsageError Progress
  | [] => .ok p
  | c :: cs =>
    match g.options.find? (·.short = some c) with
    | none => .error .unknownArgument
    | some parameter =>
      if parameter.hasValue then
        p.takeOption parameter (match cs with
          | [] => none
          | '=' :: value => some (String.ofList value)
          | value => some (String.ofList value))
      else do takeShort g (← p.takeOption parameter none) cs

def takeWord (g : Grammar) (p : Progress) (text : String) : Except UsageError Progress :=
  match g.word, p.hasWord with
  | some parameter, false => do
    return { (← p.settle) with pending := some (parameter, [text]), hasWord := true }
  | _, _ =>
    if g.commands.isEmpty || (p.literal && g.commands.contains text) then .error .unknownArgument
    else .error .unknownCommand

def take (g : Grammar) (p : Progress) (text : String) : Except UsageError Progress :=
  if p.literal then g.takeWord p text
  else match text.toList with
    | ['-', '-'] => .ok { p with literal := true }
    | '-' :: '-' :: rest => g.takeLong p rest
    | '-' :: c :: rest => g.takeShort p (c :: rest)
    | _ =>
      match p.pending with
      | some (parameter, []) => .ok { p with pending := some (parameter, [text]) }
      | _ => g.takeWord p text

/-- Reads arguments up to the end, or to the name of a command, which comes with what follows it. -/
def read (g : Grammar) (p : Progress) :
    List String → Except UsageError (Progress × Option (String × List String))
  | [] => .ok (p, none)
  | text :: rest =>
    if !p.literal && !p.awaits && g.commands.contains text then .ok (p, some (text, rest))
    else do read g (← g.take p text) rest

end Grammar

end SourceAtlas.Cli
