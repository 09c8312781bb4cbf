import SourceAtlas.Time.Instant
import SourceAtlas.Files.Fault

/-! What a disk holds, as a tree of named items. A path is the list of names from the top. -/

namespace SourceAtlas

/-- Something that a name on a disk may stand for. -/
inductive Item where
  /-- A file with its octets. -/
  | file (bytes : ByteArray) (modified : Instant)
  /-- A file that cannot be read. -/
  | locked (reason : Fault) (size : Nat) (modified : Instant)
  | directory (entries : List (String × Item))
  /-- A symbolic link. -/
  | link (target : String)

namespace Item

def entries : Item → List (String × Item)
  | .directory es => es
  | _ => []

def isDirectory : Item → Bool
  | .directory _ => true
  | _ => false

/-- The item at a path. Links are not followed. -/
def get? : List String → Item → Option Item
  | [], item => some item
  | name :: rest, item => (item.entries.lookup name).bind (get? rest)

/-- Changes the item under a name; a name that is not there is taken for an empty directory
first. -/
def update (name : String) (change : Item → Item) : List (String × Item) → List (String × Item)
  | [] => [(name, change (.directory []))]
  | (other, item) :: rest =>
    if name = other then (other, change item) :: rest else (other, item) :: update name change rest

/-- Puts an item at a path, making the directories that are missing on the way. -/
def put (new : Item) : List String → Item → Item
  | [], _ => new
  | name :: rest, item => .directory (update name (put new rest) item.entries)

theorem lookup_update (name : String) (change : Item → Item) (es : List (String × Item)) :
    (update name change es).lookup name =
      some (change ((es.lookup name).getD (.directory []))) := by
  induction es with
  | nil => simp [update]
  | cons e es ih =>
    obtain ⟨other, item⟩ := e
    rw [update]
    split
    · next h => simp [h]
    · next h =>
      have h : (name == other) = false := by simpa using h
      simp [List.lookup_cons, h, ih]

/-- What was put at a path is found there. -/
theorem get?_put (new : Item) (path : List String) (item : Item) :
    (put new path item).get? path = some new := by
  induction path generalizing item with
  | nil => rfl
  | cons name rest ih => simp [put, get?, entries, lookup_update, ih]

mutual
def files : Item → List (List String × ByteArray)
  | .file bytes _ => [([], bytes)]
  | .locked _ _ _ => []
  | .directory es => filesAmong es
  | .link _ => []

def filesAmong : List (String × Item) → List (List String × ByteArray)
  | [] => []
  | (name, item) :: rest =>
    (files item).map (fun (path, bytes) => (name :: path, bytes)) ++ filesAmong rest
end

end Item

end SourceAtlas
