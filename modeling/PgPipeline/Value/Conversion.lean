import PgPipeline.ArrayLiteral
import PgPipeline.Failure
import PgPipeline.Number.FloatText
import PgPipeline.Oid
import PgPipeline.Text.Utf8

namespace PgPipeline

inductive ConversionError where
  | noBinaryForm (oid : Oid)
  | wrongLength (oid : Oid) (length : Nat)
  | malformedText (oid : Oid) (fault : Utf8.Malformed)
  | truncated
  | dimensionCount (count : Int32)
  | negativeLength
  | tooManyElements (dimensions : List Nat) (available : Nat)
  | integer (typeName : String) (fault : Number.IntegerError)
  | float (typeName : String) (fault : Number.FloatError)
  | literal (fault : ArrayLiteral.Error)
  deriving DecidableEq, Repr

namespace ConversionError

def message : ConversionError → String
  | noBinaryForm oid => s!"Oid({oid.number.toInt}) has no binary encoding, send it as text"
  | wrongLength oid length => s!"Invalid length {length} for type {oid.number.toInt}"
  | malformedText oid fault => s!"Invalid UTF-8 for type {oid.number.toInt}: {fault.message}"
  | truncated => "Truncated binary value"
  | dimensionCount count => s!"Invalid array dimensions: {count.toInt}"
  | negativeLength => "Negative array length"
  | tooManyElements dimensions available =>
    let lengths := ", ".intercalate (dimensions.map toString)
    s!"Array dimensions [{lengths}] exceed the {available} bytes available"
  | integer typeName fault => s!"Invalid {typeName}: {fault.message}"
  | float typeName fault => s!"Invalid {typeName}: {fault.message}"
  | literal fault => fault.message

def failure (e : ConversionError) : Failure := .conversion e.message

end ConversionError

end PgPipeline
