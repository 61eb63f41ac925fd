namespace PgPipeline

structure Oid where
  number : Int32
  deriving DecidableEq, Repr, Inhabited

inductive Layout where
  | bool
  | int2
  | int4
  | int8
  | float4
  | float8
  | text
  | bytea
  | uuid
  | timestamp
  | timestamptz
  | date
  | time
  | timetz
  | json
  | jsonb
  | numeric
  | array
  /-- A type without a representation of its own: its bytes are kept as they are. -/
  | raw
  deriving DecidableEq, Repr

namespace Oid

def unspecified : Oid := ⟨0⟩
def bool : Oid := ⟨16⟩
def bytea : Oid := ⟨17⟩
def char : Oid := ⟨18⟩
def name : Oid := ⟨19⟩
def int8 : Oid := ⟨20⟩
def int2 : Oid := ⟨21⟩
def int4 : Oid := ⟨23⟩
def text : Oid := ⟨25⟩
def json : Oid := ⟨114⟩
def float4 : Oid := ⟨700⟩
def float8 : Oid := ⟨701⟩
def boolArray : Oid := ⟨1000⟩
def byteaArray : Oid := ⟨1001⟩
def int2Array : Oid := ⟨1005⟩
def int4Array : Oid := ⟨1007⟩
def textArray : Oid := ⟨1009⟩
def varcharArray : Oid := ⟨1015⟩
def int8Array : Oid := ⟨1016⟩
def float4Array : Oid := ⟨1021⟩
def float8Array : Oid := ⟨1022⟩
def bpchar : Oid := ⟨1042⟩
def varchar : Oid := ⟨1043⟩
def date : Oid := ⟨1082⟩
def time : Oid := ⟨1083⟩
def timestamp : Oid := ⟨1114⟩
def timestampArray : Oid := ⟨1115⟩
def dateArray : Oid := ⟨1182⟩
def timestamptz : Oid := ⟨1184⟩
def timestamptzArray : Oid := ⟨1185⟩
def numericArray : Oid := ⟨1231⟩
def timetz : Oid := ⟨1266⟩
def numeric : Oid := ⟨1700⟩
def uuid : Oid := ⟨2950⟩
def uuidArray : Oid := ⟨2951⟩
def jsonb : Oid := ⟨3802⟩
def jsonbArray : Oid := ⟨3807⟩

def scalarLayouts : List (Oid × Layout) :=
  [(bool, .bool), (int2, .int2), (int4, .int4), (int8, .int8), (float4, .float4),
    (float8, .float8), (text, .text), (varchar, .text), (bpchar, .text), (char, .text),
    (name, .text), (bytea, .bytea), (uuid, .uuid), (timestamp, .timestamp),
    (timestamptz, .timestamptz), (date, .date), (time, .time), (timetz, .timetz), (json, .json),
    (jsonb, .jsonb), (numeric, .numeric)]

def arrayTypes : List (Oid × Oid) :=
  [(bool, boolArray), (bytea, byteaArray), (int2, int2Array), (int4, int4Array),
    (int8, int8Array), (text, textArray), (varchar, varcharArray), (float4, float4Array),
    (float8, float8Array), (timestamp, timestampArray), (timestamptz, timestamptzArray),
    (date, dateArray), (numeric, numericArray), (uuid, uuidArray), (jsonb, jsonbArray)]

def isArray (oid : Oid) : Bool := arrayTypes.any fun p => p.2 == oid

def layout (oid : Oid) : Layout :=
  match scalarLayouts.lookup oid with
  | some l => l
  | none => if oid.isArray then .array else .raw

def arrayOf (element : Oid) : Oid := (arrayTypes.lookup element).getD unspecified

def isTextLike (oid : Oid) : Bool := oid.layout = .text

def isInteger (oid : Oid) : Bool := oid == int2 || oid == int4 || oid == int8

def isFloat (oid : Oid) : Bool := oid == float4 || oid == float8

end Oid

inductive Format where
  | text
  | binary
  deriving DecidableEq, Repr, Inhabited

def Format.code : Format → Int16
  | .text => 0
  | .binary => 1

/-- Every code but zero stands for the binary format. -/
def Format.ofCode (code : Int16) : Format := if code = 0 then .text else .binary

end PgPipeline
