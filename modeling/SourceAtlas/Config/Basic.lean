import SourceAtlas.Toml.Reader
import SourceAtlas.Files.Path
import SourceAtlas.Diagram.Dimensions

/-! The configuration of a project: where its document and its sources are, where to serve them and
how large to draw them. Every setting has a default, and settings that are not known do not
count. -/

namespace SourceAtlas

structure Config where
  structurePath : String := "codebase_structure.json"
  sourceRoot : String := "source-original"
  host : String := "127.0.0.1"
  port : Nat := 3000
  width : Float := 960.0
  height : Float := 600.0

namespace Config

def fileName : String := ".codemap.toml"

def text : Toml → Option String
  | .string s => some s
  | _ => none

def port? : Toml → Option Nat
  | .integer n => if 0 ≤ n ∧ n < UInt16.size then some n.toNat else none
  | _ => none

/-- An integer as the nearest double. -/
def ofInteger (n : Int) : Float :=
  let magnitude := Float.ofScientific n.natAbs false 0
  if n < 0 then -magnitude else magnitude

/-- A length; an integer that fits 64 bits will do. -/
def length? : Toml → Option Float
  | .float bits => some (Float.ofBits bits)
  | .integer n =>
    if -0x8000000000000000 ≤ n ∧ n < 0x10000000000000000 then some (ofInteger n) else none
  | _ => none

/-- The values of two settings in a section: a table may hold each of them, and an array holds both
in order. A date stands for an empty table. -/
def pair? (first second : String) : Toml → Option (Option Toml × Option Toml)
  | .table _ es => some (es.lookup first, es.lookup second)
  | .moment => some (none, none)
  | .array (a :: b :: _) => some (some a, some b)
  | .tables (a :: b :: _) => some (some (.table .stated a), some (.table .stated b))
  | _ => none

/-- Reads a setting that may be missing, with its default. -/
def setting {α : Type} (read : Toml → Option α) (default : α) : Option Toml → Option α
  | none => some default
  | some v => read v

def sectionOf (es : Toml.Entries) (name first second : String) :
    Option (Option Toml × Option Toml) :=
  match es.lookup name with
  | none => some (none, none)
  | some v => pair? first second v

/-- The settings that a text gives; nothing when it is not well formed or a value does not fit. -/
def parse? (content : String) : Option Config := do
  let es ← Toml.parse? content
  let (structurePath, sourceRoot) ← sectionOf es "data" "structure" "source_root"
  let (host, port) ← sectionOf es "server" "host" "port"
  let (width, height) ← sectionOf es "render" "width" "height"
  let d : Config := {}
  return {
    structurePath := ← setting text d.structurePath structurePath
    sourceRoot := ← setting text d.sourceRoot sourceRoot
    host := ← setting text d.host host
    port := ← setting port? d.port port
    width := ← setting length? d.width width
    height := ← setting length? d.height height }

def rootedAt (c : Config) (root : String) : Config :=
  { c with
    structurePath := Path.join root c.structurePath
    sourceRoot := Path.join root c.sourceRoot }

def dimensions (c : Config) : Dimensions Float := Dimensions.ofSize c.width c.height

/-- A file of settings to start from; it states the defaults. -/
def template : String :=
  "# codemap configuration

[data]
# Codebase-structure document to serve and render.
structure = \"codebase_structure.json\"
# Directory that file `path` fields are relative to (source hydration).
source_root = \"source-original\"

[server]
host = \"127.0.0.1\"
port = 3000

[render]
# Surface size for SVG export.
width = 960
height = 600
"

end Config

end SourceAtlas
