/-! Values of a TOML document. A table remembers how it came about, since that decides which later
lines may still add to it. -/

namespace SourceAtlas

/-- How a table came about. -/
inductive Toml.Form where
  /-- By a header that names something below it. -/
  | implied
  /-- By a dotted key. -/
  | dotted
  /-- By a header of its own; also the whole document. -/
  | stated
  /-- In braces; nothing can be added later. -/
  | inline
  deriving DecidableEq, Repr

/-- A TOML value. Dates and times have no use here and are only recognized. -/
inductive Toml where
  | string (value : String)
  | integer (value : Int)
  | float (bits : UInt64)
  | boolean (value : Bool)
  | moment
  | array (items : List Toml)
  | table (form : Toml.Form) (entries : List (String × Toml))
  | tables (items : List (List (String × Toml)))
  deriving Repr

abbrev Toml.Entries := List (String × Toml)

end SourceAtlas
