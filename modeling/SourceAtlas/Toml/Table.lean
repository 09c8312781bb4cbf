import SourceAtlas.Toml.Basic

/-! Building the tables of a TOML document. A table may be stated once, a dotted key may not reach
into a stated or an inline table, and no key is given twice. -/

namespace SourceAtlas.Toml

namespace Entries

def replace (es : Entries) (key : String) (value : Toml) : Entries :=
  es.map fun e => if e.1 = key then (key, value) else e

def add (es : Entries) (key : String) (value : Toml) : Option Entries :=
  if (es.lookup key).isSome then none else some (es ++ [(key, value)])

/-- Changes the table at the end of a path, making tables of the given form where there are none. A
dotted path may not pass a stated table; no path passes an inline one. An array of tables is passed
through its last table. -/
def update (form : Form) (change : Form → Entries → Option Entries) :
    (path : List String) → (own : Form) → Entries → Option Entries
  | [], own, es => change own es
  | key :: path, _, es =>
    match es.lookup key with
    | none => do
      let sub ← update form change path form []
      return es ++ [(key, .table form sub)]
    | some (.table own sub) =>
      if own = .inline ∨ (form = .dotted ∧ own = .stated) then none
      else do
        let sub ← update form change path own sub
        return es.replace key (.table own sub)
    | some (.tables items) => do
      let last ← items.getLast?
      let last ← update form change path .stated last
      return es.replace key (.tables (items.dropLast ++ [last]))
    | some _ => none

/-- Adds a key at the end of a dotted path. A table that is not itself made by dotted keys does not
take keys from one. -/
def assign (path : List String) (key : String) (value : Toml) (own : Form) (es : Entries) :
    Option Entries :=
  es.update .dotted (fun form es =>
    if decide (form = .dotted) == path.isEmpty then none else es.add key value) path own

/-- States the table with the given key; one that is only implied may still be stated. -/
def state (key : String) (es : Entries) : Option Entries :=
  match es.lookup key with
  | none => some (es ++ [(key, .table .stated [])])
  | some (.table .implied sub) => some (es.replace key (.table .stated sub))
  | some _ => none

def append (key : String) (es : Entries) : Option Entries :=
  match es.lookup key with
  | none => some (es ++ [(key, .tables [[]])])
  | some (.tables items) => some (es.replace key (.tables (items ++ [[]])))
  | some _ => none

/-- Changes the table that a header has opened. -/
def within (change : Form → Entries → Option Entries) :
    (path : List String) → (own : Form) → Entries → Option Entries
  | [], own, es => change own es
  | key :: path, _, es =>
    match es.lookup key with
    | some (.table own sub) => do
      let sub ← within change path own sub
      return es.replace key (.table own sub)
    | some (.tables items) => do
      let last ← items.getLast?
      let last ← within change path .stated last
      return es.replace key (.tables (items.dropLast ++ [last]))
    | _ => none

end Entries

inductive Statement where
  /-- A key at the end of a dotted path, with its value. -/
  | assign (path : List String) (key : String) (value : Toml)
  /-- The header of a table. -/
  | header (path : List String) (key : String)
  /-- The header of a further table of an array. -/
  | item (path : List String) (key : String)

/-- A document as far as it is built: its entries and the path of the table that is open. -/
structure Draft where
  entries : Entries := []
  current : List String := []

def Draft.take (d : Draft) : Statement → Option Draft
  | .assign path key value => do
    let entries ← d.entries.within (fun own es => es.assign path key value own) d.current .stated
    return { d with entries }
  | .header path key => do
    let entries ← d.entries.update .implied (fun _ es => es.state key) path .stated
    return ⟨entries, path ++ [key]⟩
  | .item path key => do
    let entries ← d.entries.update .implied (fun _ es => es.append key) path .stated
    return ⟨entries, path ++ [key]⟩

/-- The entries of a document, if its lines fit together. -/
def build? (statements : List Statement) : Option Entries :=
  (statements.foldlM Draft.take {}).map (·.entries)

end SourceAtlas.Toml
