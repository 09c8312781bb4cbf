import SourceAtlas.Scan.Pattern
import SourceAtlas.Files.Item
import SourceAtlas.Text.Utf8

/-! Which entries of a directory a scan looks at. Lists of patterns may stand in every directory
from the top of the disk down; the innermost list that speaks of an entry decides, and within a list
the last pattern that does. Where no list speaks, hidden entries are left out. -/

namespace SourceAtlas.Scan

/-- The patterns that stand in a directory. -/
structure Rules where
  /-- Those of the directory's own list. -/
  general : List Pattern := []
  /-- Those that hold only inside a repository. -/
  shared : List Pattern := []
  /-- Those that the repository keeps to itself. -/
  excluded : List Pattern := []
  /-- Whether the directory is the top of a repository. -/
  isRepository : Bool := false

def octetLines (bytes : List UInt8) : List (List UInt8) :=
  bytes.foldr (fun b lines => match lines with
    | line :: rest => if b = 10 then [] :: line :: rest else (b :: line) :: rest
    | [] => [[b]]) [[]]

/-- The texts at the start of a list. -/
def readable : List (Option String) → List String
  | some s :: rest => s :: readable rest
  | _ => []

def withoutMark (s : String) : List Char := s.toList.dropWhile (· == '\ufeff')

/-- The patterns in a file, up to the first line that is no text. -/
def patternsIn (item : Option Item) : List Pattern :=
  match item with
  | some (.file bytes _) =>
    let lines := readable ((octetLines bytes.toList).map Text.Utf8.decode?)
    let first := (lines.take 1).map withoutMark
    (first ++ (lines.drop 1).map String.toList).filterMap Pattern.parse?
  | _ => []

def Rules.ofEntries (es : List (String × Item)) : Rules where
  general := patternsIn (es.lookup ".ignore")
  shared := patternsIn (es.lookup ".gitignore")
  excluded := patternsIn ((es.lookup ".git").bind (Item.get? ["info", "exclude"]))
  isRepository := (es.lookup ".git").isSome

inductive Verdict where
  | dropped
  | kept
  deriving DecidableEq, Repr

/-- The verdict of the last pattern that covers a path, if any does. -/
def verdict (patterns : List Pattern) (path : List String) (isDirectory : Bool) : Option Verdict :=
  (patterns.reverse.find? (·.covers path isDirectory)).map fun p =>
    if p.keeps then .kept else .dropped

/-- The rules that hold in a directory, from the innermost, each with the way from its own directory
to this one. -/
abbrev Scope := List (List String × Rules)

namespace Scope

/-- The scope inside the directory of a given name and with the given entries. -/
def enter (scope : Scope) (name : String) (es : List (String × Item)) : Scope :=
  ([], Rules.ofEntries es) :: scope.map fun (way, rules) => (way ++ [name], rules)

/-- The rules from the innermost up to the top of the repository. -/
def upToRepository : Scope → Scope
  | [] => []
  | layer :: rest => if layer.2.isRepository then [layer] else layer :: upToRepository rest

/-- The verdict of the innermost of the chosen lists that speaks of an entry. -/
def ask (scope : Scope) (list : Rules → List Pattern) (name : String) (isDirectory : Bool) :
    Option Verdict :=
  scope.findSome? fun (way, rules) => Scan.verdict (list rules) (way ++ [name]) isDirectory

/-- The verdict on an entry. General lists come first; the lists of a repository hold only inside
one. -/
def verdict (scope : Scope) (name : String) (isDirectory : Bool) : Option Verdict :=
  let repository := if scope.any (·.2.isRepository) then upToRepository scope else []
  (scope.ask (·.general) name isDirectory).or
    ((repository.ask (·.shared) name isDirectory).or (repository.ask (·.excluded) name isDirectory))

def admits (scope : Scope) (name : String) (isDirectory : Bool) : Bool :=
  match scope.verdict name isDirectory with
  | some v => v = .kept
  | none => name.toList.head? != some '.'

end Scope

end SourceAtlas.Scan
