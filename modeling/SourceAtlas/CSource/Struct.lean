import SourceAtlas.CSource.Declaration

/-! Struct definitions, line by line: a line `struct name {` opens one, the next line `};` closes
it, and the lines between may declare members. An opening line inside another definition starts
over. -/

namespace SourceAtlas.CSource

open Text

structure Struct where
  name : String
  members : List Declaration
  startLine : Nat
  endLine : Nat
  deriving DecidableEq, Repr

def structStart? (cs : List Char) : Option (List Char) := do
  let cs ← after? "struct" (cs.dropWhile isBlank)
  let gap := cs.takeWhile isBlank
  let cs := cs.dropWhile isBlank
  let name := cs.takeWhile isWord
  let rest := (cs.dropWhile isWord).dropWhile isBlank
  if gap.isEmpty || name.isEmpty || rest.head? ≠ some '\x7b' then none else some name

def isStructEnd (cs : List Char) : Bool :=
  match cs.dropWhile isBlank with
  | '\x7d' :: rest => (rest.dropWhile isBlank).head? == some ';'
  | _ => false

def structsFrom (current : Option Struct) : List (List Char × Nat) → List Struct
  | [] => []
  | (cs, line) :: rest =>
    match structStart? cs with
    | some name => structsFrom (some ⟨String.ofList name, [], line, line⟩) rest
    | none =>
      match current with
      | none => structsFrom none rest
      | some s =>
        if isStructEnd cs then { s with endLine := line } :: structsFrom none rest
        else
          structsFrom (some { s with members := s.members ++ (declaration? cs line).toList }) rest

def structs (text : List Char) : List Struct := structsFrom none ((lines text).zipIdx 1)

end SourceAtlas.CSource
