import SourceAtlas.CSource.Declaration

/-! Function definitions, told by their shape alone: `type name(parameters) {`. The lines behind the
opening brace belong to the function up to the line with which its braces are balanced; they are
summarized line by line. -/

namespace SourceAtlas.CSource

open Text

structure Parameter where
  type : String
  name : String
  deriving DecidableEq, Repr

structure Call where
  name : String
  line : Nat
  deriving DecidableEq, Repr

/-- A word that branches or repeats. -/
inductive Keyword where
  | ifWord
  | elseWord
  | forWord
  | whileWord
  deriving DecidableEq, Repr

def Keyword.name : Keyword → String
  | .ifWord => "if"
  | .elseWord => "else"
  | .forWord => "for"
  | .whileWord => "while"

/-- All keywords, in the order in which a line is searched for them. -/
def Keyword.all : List Keyword := [.ifWord, .elseWord, .forWord, .whileWord]

structure ControlFlow where
  keyword : Keyword
  line : Nat
  deriving DecidableEq, Repr

structure Function where
  name : String
  returnType : String
  parameters : List Parameter
  startLine : Nat
  endLine : Nat
  locals : List Declaration
  calls : List Call
  controlFlow : List ControlFlow
  complexity : Nat
  inputs : List String
  outputs : List String
  dependencies : List String
  deriving DecidableEq, Repr

/-- The head of a function: its type, its name and the text between the parentheses. -/
structure Header where
  typed : Typed
  parameters : List Char
  deriving DecidableEq

/-- The head of a function at the front of a text, up to its opening brace, and its length. -/
def headerAt? (cs : List Char) : Option (Header × Nat) := do
  let phrase := cs.takeWhile inPhrase
  let rest := cs.dropWhile inPhrase
  if cs.head?.any isWord then
    let typed ← typed? (trimEnd phrase)
    match rest with
    | '(' :: rest =>
      let parameters := rest.takeWhile (· ≠ ')')
      match rest.dropWhile (· ≠ ')') with
      | _ :: rest =>
        let gap := rest.takeWhile isBlank
        match rest.dropWhile isBlank with
        | '\x7b' :: _ =>
          some (⟨typed, parameters⟩, phrase.length + parameters.length + gap.length + 3)
        | _ => none
      | [] => none
    | _ => none
  else none

/-- A parameter: the last word is its name, the words before it are its type. -/
def parameter? (cs : List Char) : Option Parameter :=
  let words := fields cs
  words.getLast?.map fun name =>
    ⟨String.ofList (joinWith [' '] words.dropLast), String.ofList name⟩

def parametersOf (cs : List Char) : List Parameter := (splitAt ',' cs).filterMap parameter?

/-- The lines of a function's body: those up to the one with which the open braces, `depth` of them
at first, are balanced, or all lines. -/
def bodyLines (depth : Int) : List (List Char) → List (List Char)
  | [] => []
  | cs :: rest =>
    let depth := depth + cs.count '\x7b' - cs.count '\x7d'
    if depth = 0 then [cs] else cs :: bodyLines depth rest

/-- The calls on a line: the words with an opening parenthesis behind them. -/
def callsIn (cs : List Char) (line : Nat) : List Call :=
  (words cs).filterMap fun (word, rest) =>
    if (rest.dropWhile isBlank).head? = some '(' then some ⟨String.ofList word, line⟩ else none

/-- The first keyword, in the order of search, that occurs on a line as a word. -/
def controlFlow? (cs : List Char) (line : Nat) : Option ControlFlow :=
  (Keyword.all.find? fun k => (words cs).any fun (word, _) => word == k.name.toList).map
    fun k => ⟨k, line⟩

/-- Whether a line begins with a branch, a loop or a junction of conditions. -/
def branches (cs : List Char) : Bool :=
  ["if", "for", "while", "&&", "||"].any fun start => start.toList.isPrefixOf (trim cs)

/-- One more than the number of lines that branch. -/
def complexityOf (body : List (List Char)) : Nat := 1 + body.countP branches

/-- Summarizes a function from its head, the line of its first character and the text behind its
opening brace. -/
def functionOf (header : Header) (startLine : Nat) (rest : List Char) : Function :=
  let body := bodyLines 1 (lines rest)
  let numbered := body.zipIdx (startLine + 1)
  let params := parametersOf header.parameters
  let returnType := String.ofList header.typed.type
  let calls := numbered.flatMap fun (cs, line) => callsIn cs line
  { name := String.ofList header.typed.name
    returnType
    parameters := params
    startLine
    endLine := startLine + body.length
    locals := numbered.filterMap fun (cs, line) => declaration? cs line
    calls
    controlFlow := numbered.filterMap fun (cs, line) => controlFlow? cs line
    complexity := complexityOf body
    inputs := params.map (·.name)
    outputs := if returnType = "void" then [] else [returnType]
    dependencies := sortedSet (calls.map (·.name)) }

def functions (text : List Char) : List Function :=
  (allMatches headerAt? 0 0 text).map fun (pos, header, length) =>
    functionOf header ((text.take pos).count '\n' + 1) (text.drop (pos + length))

end SourceAtlas.CSource
