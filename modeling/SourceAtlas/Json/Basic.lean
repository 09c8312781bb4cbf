/-! JSON values. An object is a list of members in the order they stand, so that a reader of
documents can still see a key given twice; `Json.canonical` is the form that keeps the last value
of each key and orders the keys. -/

namespace SourceAtlas

/-- A number of a document: an integer of 64 bits, signed or not, or a double given by its bits. -/
inductive Json.Number where
  | int (value : Int)
  | double (bits : UInt64)
  deriving DecidableEq, Repr

inductive Json where
  | null
  | bool (value : Bool)
  | num (value : Json.Number)
  | str (value : String)
  | arr (items : List Json)
  | obj (members : List (String × Json))
  deriving Repr

namespace Json

abbrev Members := List (String × Json)

/-- Puts a member into a list ordered by key; an earlier value of the key is replaced. -/
def Members.insert (key : String) (value : Json) : Members → Members
  | [] => [(key, value)]
  | (k, v) :: rest =>
    if key < k then (key, value) :: (k, v) :: rest
    else if key = k then (key, value) :: rest
    else (k, v) :: Members.insert key value rest

def Members.ordered (members : Members) : Members :=
  members.foldl (fun acc (k, v) => Members.insert k v acc) []

mutual
/-- The same value with the members of every object ordered by key and no key twice. -/
def canonical : Json → Json
  | .null => .null
  | .bool b => .bool b
  | .num n => .num n
  | .str s => .str s
  | .arr items => .arr (canonicalItems items)
  | .obj members => .obj (Members.ordered (canonicalMembers members))

def canonicalItems : List Json → List Json
  | [] => []
  | v :: vs => canonical v :: canonicalItems vs

def canonicalMembers : List (String × Json) → List (String × Json)
  | [] => []
  | (k, v) :: ms => (k, canonical v) :: canonicalMembers ms
end

end Json

end SourceAtlas
