import PgPipeline.Value.Binary
import PgPipeline.Wire.Backend

namespace PgPipeline

structure Row where
  columns : List Column
  values : List (Option Bytes)
  deriving DecidableEq, Repr

namespace Row

def size (r : Row) : Nat := r.values.length

/-- The bytes of a value; absent for a null value and beyond the end. -/
def raw? (r : Row) (index : Nat) : Option Bytes := (r.values[index]?).bind id

inductive Error where
  | outOfRange (index count : Nat)
  | noColumn (name : String)
  | conversion (fault : ConversionError)
  deriving DecidableEq, Repr

def Error.failure : Error → Failure
  | outOfRange index count => .argument s!"column index {index} out of range ({count} columns)"
  | noColumn name => .argument s!"no column named {name}"
  | conversion fault => fault.failure

/-- Reads a value by the type and format of its column; without a column it is kept as it is. -/
def get (r : Row) (index : Nat) : Except Error Value :=
  match r.values[index]? with
  | none => .error (.outOfRange index r.size)
  | some none => .ok .null
  | some (some data) =>
    match r.columns[index]? with
    | some column => (Value.decode column.type column.format data).mapError .conversion
    | none => .ok (.raw .unspecified data)

def getByName (r : Row) (name : String) : Except Error Value :=
  match r.columns.findIdx? fun c => c.name == name with
  | some index => r.get index
  | none => .error (.noColumn name)

def decode (r : Row) : Except Error (List Value) := (List.range r.size).mapM r.get

end Row

/-- The number of rows that a command tag reports: its last word, or zero if that is no number. -/
def rowsOfTag (tag : String) : Nat :=
  let word := (tag.toList.reverse.takeWhile (· != ' ')).reverse
  match (Number.IntegerRange.unsigned 64).read word with
  | .ok n => n.toNat
  | .error _ => 0

end PgPipeline
