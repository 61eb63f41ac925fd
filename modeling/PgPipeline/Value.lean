import PgPipeline.ArrayLiteral
import PgPipeline.Bytes
import PgPipeline.Calendar
import PgPipeline.Number.FloatText
import PgPipeline.Oid
import PgPipeline.Text.Utf8

namespace PgPipeline

structure Uuid where
  bytes : Bytes
  length_eq : bytes.length = 16
  deriving DecidableEq, Repr

def Uuid.text (u : Uuid) : String :=
  let ds := Bytes.hexChars u.bytes
  String.ofList <|
    ds.take 8 ++ '-' :: (ds.drop 8).take 4 ++ '-' :: (ds.drop 12).take 4
      ++ '-' :: (ds.drop 16).take 4 ++ '-' :: ds.drop 20

inductive Value where
  | null
  | bool (b : Bool)
  | int2 (n : Int16)
  | int4 (n : Int32)
  | int8 (n : Int64)
  | float4 (bits : UInt32)
  | float8 (bits : UInt64)
  | text (s : String)
  | bytea (data : Bytes)
  | uuid (u : Uuid)
  | timestamp (micros : Int64)
  | timestamptz (micros : Int64)
  | date (days : Int32)
  | time (micros : Int64)
  | json (document : String)
  | numeric (digits : String)
  | array (element : Oid) (values : List Value)
  | raw (oid : Oid) (data : Bytes)
  deriving Repr, Inhabited

namespace Value

def isNull : Value → Bool
  | null => true
  | _ => false

def oid : Value → Oid
  | null => .unspecified
  | bool _ => .bool
  | int2 _ => .int2
  | int4 _ => .int4
  | int8 _ => .int8
  | float4 _ => .float4
  | float8 _ => .float8
  | text _ => .text
  | bytea _ => .bytea
  | uuid _ => .uuid
  | timestamp _ => .timestamp
  | timestamptz _ => .timestamptz
  | date _ => .date
  | time _ => .time
  | json _ => .jsonb
  | numeric _ => .numeric
  | array element _ => .arrayOf element
  | raw oid _ => oid

/-- Decimals and arrays are sent as text, everything else in the binary format. -/
def preferredFormat : Value → Format
  | numeric _ => .text
  | array _ _ => .text
  | _ => .binary

def epochDay : Int := 730120

def dateOfDays? (days : Int) : Option Date := Date.ofDayNumber? (days + epochDay)

def timestampChars? (micros : Int) : Option (List Char) :=
  (dateOfDays? (micros.fdiv dayMicros)).map fun d =>
    d.text ++ ' ' :: clockText (micros.fmod dayMicros).toNat

def timeChars? (micros : Int) : Option (List Char) :=
  if 0 ≤ micros ∧ micros < dayMicros then some (clockText micros.toNat) else none

/-- Calendar text, or the bare number outside the calendar. -/
def calendarText (chars? : Option (List Char)) (suffix : String) (n : Int) : String :=
  match chars? with
  | some chars => String.ofList chars ++ suffix
  | none => toString n

/-- An element of an array literal from the text of a value: a nested array and the null word stand
as they are, everything else is quoted where it has to be. -/
def asElement : Value → List Char → List Char
  | null, chars => chars
  | array _ _, chars => chars
  | _, chars => ArrayLiteral.formatElement chars

mutual

def toText : Value → String
  | null => "NULL"
  | bool b => if b then "t" else "f"
  | int2 n => toString n.toInt
  | int4 n => toString n.toInt
  | int8 n => toString n.toInt
  | float4 bits => Number.floatText (Number.widen bits)
  | float8 bits => Number.floatText bits
  | text s => s
  | json document => document
  | numeric digits => digits
  | bytea data => "\\x" ++ Bytes.hex data
  | uuid u => u.text
  | timestamp micros => calendarText (timestampChars? micros.toInt) "" micros.toInt
  | timestamptz micros => calendarText (timestampChars? micros.toInt) "+00" micros.toInt
  | date days =>
    calendarText ((dateOfDays? days.toInt).map Date.text) "" days.toInt
  | time micros => calendarText (timeChars? micros.toInt) "" micros.toInt
  | array _ values => String.ofList (ArrayLiteral.brace (elementForms values))
  | raw _ data => Utf8.lossy data

def elementForms : List Value → List (List Char)
  | [] => []
  | value :: rest => value.asElement (toText value).toList :: elementForms rest

end

def arrayLiteral (values : List Value) : String :=
  String.ofList (ArrayLiteral.brace (elementForms values))

def instantMicros (d : Date) (t : Clock) : Int :=
  (d.dayNumber - epochDay) * dayMicros + t.micros

def ofDate (d : Date) : Value := date (Int32.ofInt (d.dayNumber - epochDay))

def ofClock (t : Clock) : Value := time (Int64.ofInt t.micros)

def ofDateTime (d : Date) (t : Clock) : Value := timestamp (Int64.ofInt (instantMicros d t))

def ofUniversalTime (d : Date) (t : Clock) : Value :=
  timestamptz (Int64.ofInt (instantMicros d t))

end Value

end PgPipeline
