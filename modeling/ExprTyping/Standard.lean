import ExprTyping.Env.Basic

namespace ExprTyping.Standard

def paramA : Ty := .param "A"

def paramB : Ty := .param "B"

def global (id : String) (params : List Ty) (result : Ty) (typeParams : List String := []) :
    Overload :=
  { id, params, result, typeParams }

def receiver (id : String) (params : List Ty) (result : Ty)
    (typeParams : List String := []) : Overload :=
  { id, params, result, receiver := true, typeParams }

def binary (stem : String) (operands : List (String × Ty)) (result : Ty → Ty) : List Overload :=
  operands.map fun (suffix, t) => global (stem ++ "_" ++ suffix) [t, t] (result t)

def conversions (name : String) (target : Ty) (sources : List (String × Ty)) : List Overload :=
  sources.map fun (suffix, t) => global (suffix ++ "_to_" ++ name) [t] target

def timestampPart (part : String) : List Overload :=
  [receiver ("timestamp_to_" ++ part) [.timestamp] .int,
   receiver ("timestamp_to_" ++ part ++ "_with_tz") [.timestamp, .string] .int]

def typeNames : List (String × Ty) :=
  [("bool", .bool), ("bytes", .bytes), ("double", .double), ("null_type", .null), ("int", .int),
   ("uint", .uint), ("string", .string), ("list", .list paramA), ("map", .map paramA paramB),
   ("type", .type), ("dyn", .dyn)]

def logical : List FunctionDecl :=
  [⟨"_?_:_", [global "conditional" [.bool, paramA, paramA] paramA ["A"]]⟩,
   ⟨"_&&_", [global "logical_and" [.bool, .bool] .bool]⟩,
   ⟨"_||_", [global "logical_or" [.bool, .bool] .bool]⟩,
   ⟨"!_", [global "logical_not" [.bool] .bool]⟩,
   ⟨"@not_strictly_false", [global "not_strictly_false" [.bool] .bool]⟩]

def equality : List FunctionDecl :=
  [⟨"_==_", [global "equals" [paramA, paramA] .bool ["A"]]⟩,
   ⟨"_!=_", [global "not_equals" [paramA, paramA] .bool ["A"]]⟩]

def numeric : List (String × Ty) := [("int64", .int), ("uint64", .uint), ("double", .double)]

def arithmetic : List FunctionDecl :=
  [⟨"_+_",
    binary "add" (numeric ++ [("string", .string), ("bytes", .bytes)]) id ++
      [global "add_list" [.list paramA, .list paramA] (.list paramA) ["A"],
       global "add_timestamp_duration" [.timestamp, .duration] .timestamp,
       global "add_duration_timestamp" [.duration, .timestamp] .timestamp,
       global "add_duration_duration" [.duration, .duration] .duration]⟩,
   ⟨"_-_",
    binary "subtract" numeric id ++
      [global "subtract_timestamp_timestamp" [.timestamp, .timestamp] .duration,
       global "subtract_timestamp_duration" [.timestamp, .duration] .timestamp,
       global "subtract_duration_duration" [.duration, .duration] .duration]⟩,
   ⟨"_*_", binary "multiply" numeric id⟩,
   ⟨"_/_", binary "divide" numeric id⟩,
   ⟨"_%_", binary "modulo" (numeric.take 2) id⟩,
   ⟨"-_", [global "negate_int64" [.int] .int, global "negate_double" [.double] .double]⟩]

def comparable : List (String × Ty) :=
  [("bool", .bool), ("int64", .int), ("uint64", .uint), ("double", .double), ("string", .string),
   ("bytes", .bytes), ("timestamp", .timestamp), ("duration", .duration)]

def relations : List FunctionDecl :=
  [("_<_", "less"), ("_<=_", "less_equals"), ("_>_", "greater"), ("_>=_", "greater_equals")].map
    fun (name, stem) => ⟨name, binary stem comparable fun _ => .bool⟩

def indexing : List FunctionDecl :=
  [⟨"_[_]",
    [global "index_list" [.list paramA, .int] paramA ["A"],
     global "index_map" [.map paramA paramB, paramA] paramB ["A", "B"]]⟩]

/-- The operator `_in_` is the former name of `@in`. -/
def membership : List FunctionDecl :=
  ["@in", "_in_"].map fun name =>
    ⟨name,
     [global "in_list" [paramA, .list paramA] .bool ["A"],
      global "in_map" [paramA, .map paramA paramB] .bool ["A", "B"]]⟩

def size : List FunctionDecl :=
  [⟨"size",
    [global "size_string" [.string] .int,
     global "size_bytes" [.bytes] .int,
     global "size_list" [.list paramA] .int ["A"],
     global "size_map" [.map paramA paramB] .int ["A", "B"],
     receiver "string_size" [.string] .int,
     receiver "bytes_size" [.bytes] .int,
     receiver "list_size" [.list paramA] .int ["A"],
     receiver "map_size" [.map paramA paramB] .int ["A", "B"]]⟩]

def conversionFunctions : List FunctionDecl :=
  [⟨"type", [global "type" [paramA] (.typeOf paramA) ["A"]]⟩,
   ⟨"int",
    conversions "int64" .int
      [("int64", .int), ("uint64", .uint), ("double", .double), ("string", .string),
       ("timestamp", .timestamp), ("duration", .duration)]⟩,
   ⟨"uint",
    conversions "uint64" .uint
      [("uint64", .uint), ("int64", .int), ("double", .double), ("string", .string)]⟩,
   ⟨"double",
    conversions "double" .double
      [("double", .double), ("int64", .int), ("uint64", .uint), ("string", .string)]⟩,
   ⟨"bool", conversions "bool" .bool [("bool", .bool), ("string", .string)]⟩,
   ⟨"string",
    conversions "string" .string
      [("string", .string), ("int64", .int), ("uint64", .uint), ("double", .double),
       ("bytes", .bytes), ("timestamp", .timestamp), ("duration", .duration)]⟩,
   ⟨"bytes", conversions "bytes" .bytes [("bytes", .bytes), ("string", .string)]⟩,
   ⟨"timestamp",
    conversions "timestamp" .timestamp
      [("timestamp", .timestamp), ("string", .string), ("int64", .int)]⟩,
   ⟨"duration", conversions "duration" .duration [("duration", .duration), ("string", .string)]⟩,
   ⟨"dyn", [global "to_dyn" [paramA] .dyn ["A"]]⟩]

def strings : List FunctionDecl :=
  [("contains", "contains_string"), ("endsWith", "ends_with_string"),
   ("startsWith", "starts_with_string")].map
    (fun (name, id) => ⟨name, [receiver id [.string, .string] .bool]⟩) ++
  [⟨"matches",
    [global "matches" [.string, .string] .bool,
     receiver "matches_string" [.string, .string] .bool]⟩]

def dates : List FunctionDecl :=
  [("getFullYear", "year"), ("getMonth", "month"), ("getDayOfYear", "day_of_year"),
   ("getDayOfMonth", "day_of_month"), ("getDate", "day_of_month_1_based"),
   ("getDayOfWeek", "day_of_week")].map
    fun (name, part) => ⟨name, timestampPart part⟩

def times : List FunctionDecl :=
  [("getHours", "hours"), ("getMinutes", "minutes"), ("getSeconds", "seconds"),
   ("getMilliseconds", "milliseconds")].map
    fun (name, part) =>
      ⟨name, timestampPart part ++ [receiver ("duration_to_" ++ part) [.duration] .int]⟩

def functions : List FunctionDecl :=
  logical ++ equality ++ arithmetic ++ relations ++ indexing ++ membership ++ size ++
    conversionFunctions ++ strings ++ dates ++ times

def decls : List Decl :=
  typeNames.map (fun (name, t) => .ident { name, ty := .typeOf t }) ++ functions.map .function

def function? (name : String) : Option FunctionDecl := functions.find? (·.name == name)

end Standard

def Env.standard (container : Container) (provider : Provider) : Env :=
  { container, provider, scopes := Scopes.install {} Standard.decls }

end ExprTyping
