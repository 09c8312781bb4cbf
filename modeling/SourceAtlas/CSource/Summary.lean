import SourceAtlas.CSource.Function
import SourceAtlas.CSource.Struct
import SourceAtlas.CSource.Directive
import SourceAtlas.Json.Basic

/-! The summary of a C source text: its functions, structs, globals and defined names. -/

namespace SourceAtlas.CSource

structure Summary where
  functions : List Function
  structs : List Struct
  globals : List Global
  defines : List Define

def summarize (text : String) : Summary :=
  let cs := text.toList
  { functions := functions cs
    structs := structs cs
    globals := globals cs
    defines := defines cs }

namespace Summary

def parameterNames (s : Summary) : List String :=
  Text.sortedSet (s.functions.flatMap fun f => f.parameters.map (·.name))

/-- The distinct return types other than `void`, in order. -/
def returnTypes (s : Summary) : List String :=
  Text.sortedSet ((s.functions.map (·.returnType)).filter (· ≠ "void"))

/-- What makes the text a candidate for rework. -/
def opportunities (s : Summary) : List String :=
  (if 20 < s.functions.length then ["High number of functions"] else [])
    ++ (if s.functions.any (15 < ·.complexity) then
      ["Functions with high cyclomatic complexity"] else [])
    ++ (if 10 < s.globals.length then ["High number of global variables"] else [])

end Summary

def optionalText (s : Option String) : Json := (s.map Json.str).getD .null

def count (n : Nat) : Json := .num (.int n)

def texts (xs : List String) : Json := .arr (xs.map .str)

def Parameter.toJson (p : Parameter) : Json := .obj [("type", .str p.type), ("name", .str p.name)]

def Declaration.toJson (d : Declaration) : Json :=
  .obj [("type", .str d.type), ("name", .str d.name), ("array_size", optionalText d.arraySize),
    ("line_number", count d.line)]

def Call.toJson (c : Call) : Json := .obj [("name", .str c.name), ("line_number", count c.line)]

def ControlFlow.toJson (c : ControlFlow) : Json :=
  .obj [("type", .str c.keyword.name), ("line_number", count c.line)]

def Function.toJson (f : Function) : Json :=
  .obj [("name", .str f.name), ("return_type", .str f.returnType),
    ("parameters", .arr (f.parameters.map Parameter.toJson)), ("start_line", count f.startLine),
    ("end_line", count f.endLine), ("local_variables", .arr (f.locals.map Declaration.toJson)),
    ("function_calls", .arr (f.calls.map Call.toJson)),
    ("control_flow", .arr (f.controlFlow.map ControlFlow.toJson)),
    ("complexity", count f.complexity), ("inputs", texts f.inputs), ("outputs", texts f.outputs),
    ("dependencies", texts f.dependencies)]

def Struct.toJson (s : Struct) : Json :=
  .obj [("name", .str s.name), ("members", .arr (s.members.map Declaration.toJson)),
    ("start_line", count s.startLine), ("end_line", count s.endLine)]

def Global.toJson (g : Global) : Json :=
  .obj [("name", .str g.name), ("type", .str g.type),
    ("storage_class", optionalText g.storageClass), ("array_size", optionalText g.arraySize),
    ("line_number", count g.line)]

def Define.toJson (d : Define) : Json :=
  .obj [("name", .str d.name), ("value", .str d.value), ("line_number", count d.line)]

def Summary.toMembers (s : Summary) : Json.Members :=
  [("functions", .arr (s.functions.map Function.toJson)),
   ("structs", .arr (s.structs.map Struct.toJson)),
   ("globals", .arr (s.globals.map Global.toJson)),
   ("defines", .arr (s.defines.map Define.toJson))]

end SourceAtlas.CSource
