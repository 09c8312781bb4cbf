import SourceAtlas.CSource.Phrase

/-! Declarations of variables: `type name;` or `type name[12];`. One on a line of its own counts as
a local variable or a struct member; a global may also stand behind other text and may begin with a
storage class. -/

namespace SourceAtlas.CSource

open Text

structure Declaration where
  type : String
  name : String
  arraySize : Option String
  line : Nat
  deriving DecidableEq, Repr

/-- A declaration at file level, as far as its text tells. -/
structure Global where
  name : String
  type : String
  storageClass : Option String
  arraySize : Option String
  line : Nat
  deriving DecidableEq, Repr

/-- A type and a name with the size of an array. -/
structure Declarator where
  typed : Typed
  arraySize : Option (List Char)

/-- The rest of a declaration behind its name: the size of an array, if any, and the semicolon. -/
def arrayPart? : List Char → Option (Option (List Char))
  | ';' :: _ => some none
  | '[' :: cs =>
    let size := cs.takeWhile isDecimal
    match cs.dropWhile isDecimal with
    | ']' :: ';' :: _ => if size.isEmpty then none else some (some size)
    | _ => none
  | _ => none

/-- A declaration at the front of a text, behind white space. -/
def declarator? (cs : List Char) : Option Declarator := do
  let cs := cs.dropWhile isBlank
  let typed ← typed? (cs.takeWhile inPhrase)
  let arraySize ← arrayPart? (cs.dropWhile inPhrase)
  return ⟨typed, arraySize⟩

def declaration? (cs : List Char) (line : Nat) : Option Declaration :=
  (declarator? cs).map fun d =>
    { type := String.ofList d.typed.type
      name := String.ofList d.typed.name
      arraySize := d.arraySize.map String.ofList
      line }

/-- A global at the front of a text: its storage class, if the declaration goes on behind it. -/
def globalAt? (cs : List Char) : Option (Option String × Declarator) :=
  let stored (keyword : String) : Option (Option String × Declarator) :=
    ((after? keyword cs).bind declarator?).map fun d => (some keyword, d)
  stored "extern" <|> stored "static" <|> (declarator? cs).map fun d => (none, d)

def globalIn? : List Char → Option (Option String × Declarator)
  | [] => none
  | c :: cs => globalAt? (c :: cs) <|> globalIn? cs

def isDirective (cs : List Char) : Bool := (cs.dropWhile isBlank).head? == some '#'

def global? (cs : List Char) (line : Nat) : Option Global :=
  if isDirective cs then none
  else (globalIn? cs).map fun (storageClass, d) =>
    { name := String.ofList d.typed.name
      type := String.ofList d.typed.type
      storageClass
      arraySize := d.arraySize.map String.ofList
      line }

def globals (text : List Char) : List Global :=
  ((lines text).zipIdx 1).filterMap fun (cs, line) => global? cs line

end SourceAtlas.CSource
