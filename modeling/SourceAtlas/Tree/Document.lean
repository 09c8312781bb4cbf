import SourceAtlas.Tree.Basic
import SourceAtlas.Json.Reader
import SourceAtlas.Json.Printer

/-! Structure documents: the JSON form of a tree. Members are taken in the order they stand and the
first fault decides. Writing puts the known members first, in a fixed order, and then the carried
ones ordered by key. -/

namespace SourceAtlas

/-- Why a text is no structure document: its JSON is broken, or it is JSON of another shape. -/
inductive Document.Fault where
  | malformed
  | mismatched
  deriving DecidableEq, Repr

namespace Document

def knownKeys : List String :=
  ["name", "type", "size", "path", "children", "dependencies", "inputs", "outputs", "readme",
   "content"]

def text : Json → Except Fault String
  | .str s => .ok s
  | _ => .error .mismatched

def optionalText : Json → Except Fault (Option String)
  | .null => .ok none
  | v => (text v).map some

def texts : Json → Except Fault (List String)
  | .arr items => items.mapM text
  | _ => .error .mismatched

def optionalSize : Json → Except Fault (Option UInt64)
  | .null => .ok none
  | .num (.int i) =>
    if 0 ≤ i ∧ i.toNat < UInt64.size then .ok (some i.toNat.toUInt64) else .error .mismatched
  | _ => .error .mismatched

def kindNamed : String → Except Fault Kind
  | "directory" => .ok .directory
  | "file" => .ok .file
  | _ => .error .mismatched

/-- A kind: its word, or an object whose only key is that word and whose value is null. Other shapes
count as broken text. -/
def kind : Json → Except Fault Kind
  | .str s => kindNamed s
  | .obj [] => .error .malformed
  | .obj ((k, v) :: rest) => do
    let kind ← kindNamed k
    match v, rest with
    | .null, [] => .ok kind
    | .null, _ :: _ => .error .malformed
    | _, _ => .error .mismatched
  | _ => .error .malformed

/-- The members of a content block: the source text, and what is only carried along. -/
def contentMembers (seen : Bool) (acc : Content) : Json.Members → Except Fault Content
  | [] => .ok acc
  | (key, value) :: rest =>
    if key = "source" then
      if seen then .error .mismatched
      else do
        let source ← optionalText value
        contentMembers true { acc with source } rest
    else contentMembers seen { acc with extra := acc.extra.insert key value.canonical } rest

def optionalContent : Json → Except Fault (Option Content)
  | .null => .ok none
  | .obj members => (contentMembers false {} members).map some
  | _ => .error .mismatched

/-- A node as far as its members have been read. -/
structure Draft where
  seen : List String := []
  name : Option String := none
  kind : Option Kind := none
  size : Option UInt64 := none
  path : Option String := none
  children : Option (List Node) := none
  dependencies : List String := []
  inputs : List String := []
  outputs : List String := []
  readme : Option String := none
  content : Option Content := none
  extra : Json.Members := []

/-- The finished node; a name and a kind have to be there. -/
def Draft.finish (d : Draft) : Except Fault Node :=
  match d.name, d.kind with
  | some name, some kind =>
    .ok (.mk { name, kind, size := d.size, path := d.path, dependencies := d.dependencies,
               inputs := d.inputs, outputs := d.outputs, readme := d.readme,
               content := d.content, extra := d.extra } d.children)
  | _, _ => .error .mismatched

/-- Takes in a member other than the child list. -/
def Draft.take (d : Draft) (key : String) (value : Json) : Except Fault Draft :=
  match key with
  | "name" => do return { d with name := some (← text value) }
  | "type" => do return { d with kind := some (← Document.kind value) }
  | "size" => do return { d with size := ← optionalSize value }
  | "path" => do return { d with path := ← optionalText value }
  | "dependencies" => do return { d with dependencies := ← texts value }
  | "inputs" => do return { d with inputs := ← texts value }
  | "outputs" => do return { d with outputs := ← texts value }
  | "readme" => do return { d with readme := ← optionalText value }
  | "content" => do return { d with content := ← optionalContent value }
  | _ => .ok { d with extra := d.extra.insert key value.canonical }

mutual
def node : Json → Except Fault Node
  | .obj members => membersFrom {} members
  | _ => .error .mismatched

/-- The node that the remaining members complete. A known member may stand only once. -/
def membersFrom (d : Draft) : List (String × Json) → Except Fault Node
  | [] => d.finish
  | (key, value) :: rest =>
    if d.seen.contains key then .error .mismatched
    else
      let d := if knownKeys.contains key then { d with seen := key :: d.seen } else d
      if key = "children" then
        match childList value with
        | .ok children => membersFrom { d with children } rest
        | .error e => .error e
      else
        match d.take key value with
        | .ok d => membersFrom d rest
        | .error e => .error e

/-- A list of nodes that may be left out. -/
def childList : Json → Except Fault (Option (List Node))
  | .null => .ok none
  | .arr items =>
    match nodes items with
    | .ok ns => .ok (some ns)
    | .error e => .error e
  | _ => .error .mismatched

def nodes : List Json → Except Fault (List Node)
  | [] => .ok []
  | v :: vs =>
    match node v with
    | .error e => .error e
    | .ok n =>
      match nodes vs with
      | .error e => .error e
      | .ok ns => .ok (n :: ns)
end

/-- The tree that a structure document describes; every directory has a child list. -/
def parse (text : String) : Except Fault Node :=
  match Json.parse? text with
  | none => .error .malformed
  | some v => (node v).map Node.normalize

def optionalMember (key : String) (value : Option Json) : Json.Members :=
  match value with
  | some v => [(key, v)]
  | none => []

/-- A list of texts, left out when it is empty. -/
def listMember (key : String) (items : List String) : Json.Members :=
  if items.isEmpty then [] else [(key, .arr (items.map .str))]

def ofContent (c : Content) : Json :=
  .obj (optionalMember "source" (c.source.map .str) ++ c.extra)

/-- The members of a node in their fixed order, given the child list. -/
def ofEntry (e : Entry) (children : Option (List Json)) : Json :=
  .obj ([("name", .str e.name), ("type", .str e.kind.name)]
    ++ optionalMember "size" (e.size.map fun n => .num (.int n.toNat))
    ++ optionalMember "path" (e.path.map .str)
    ++ optionalMember "children" (children.map .arr)
    ++ listMember "dependencies" e.dependencies
    ++ listMember "inputs" e.inputs
    ++ listMember "outputs" e.outputs
    ++ optionalMember "readme" (e.readme.map .str)
    ++ optionalMember "content" (e.content.map ofContent)
    ++ e.extra)

mutual
def ofNode : Node → Json
  | .mk e none => ofEntry e none
  | .mk e (some cs) => ofEntry e (some (ofNodes cs))

def ofNodes : List Node → List Json
  | [] => []
  | n :: ns => ofNode n :: ofNodes ns
end

end Document

namespace Node

def compact (n : Node) : String := (Document.ofNode n).compact

def pretty (n : Node) : String := (Document.ofNode n).pretty

/-- The tree as compact JSON text with the keys of every object in order. -/
def compactSorted (n : Node) : String := (Document.ofNode n).canonical.compact

end Node

end SourceAtlas
