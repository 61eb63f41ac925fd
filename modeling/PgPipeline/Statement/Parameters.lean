import PgPipeline.Value.Binary

namespace PgPipeline

inductive Param where
  | value (v : Value)
  | repeated (vs : List Value)
  deriving Repr

inductive ParameterError where
  | tooMany (count : Nat)
  | noValues (position : Nat)
  | countMismatch (position count expected : Nat)
  | mixedTypes (position : Nat) (first other : Oid)
  | conversion (fault : ConversionError)
  deriving DecidableEq, Repr

/-- The protocol counts parameters in a signed word of two bytes. -/
def maxParams : Nat := 32767

namespace ParameterError

def message : ParameterError → String
  | tooMany count => s!"{count} parameters exceed the protocol limit of {maxParams}"
  | noValues position => s!"parameter ${position} has no values"
  | countMismatch position count expected =>
    s!"parameter ${position} has {count} values, expected {expected}"
  | mixedTypes position first other =>
    s!"parameter ${position} mixes types {first.number.toInt} and {other.number.toInt}"
  | conversion fault => fault.message

def failure (e : ParameterError) : Failure :=
  match e with
  | conversion fault => fault.failure
  | _ => .validation e.message

end ParameterError

abbrev Signature := List Oid

structure EncodedParams where
  types : Signature
  formats : List Format
  rows : List (List (Option Bytes))
  deriving DecidableEq, Repr

namespace EncodedParams

def empty : EncodedParams := ⟨[], [], []⟩

def repetitions (e : EncodedParams) : Nat := e.rows.length

end EncodedParams

namespace Param

/-- The number of repetitions that the repeated parameters agree on; `position` counts from one. -/
def repetitions (count : Option Nat) (position : Nat) : List Param → Except ParameterError Nat
  | [] => .ok (count.getD 1)
  | value _ :: rest => repetitions count (position + 1) rest
  | repeated vs :: rest =>
    if vs.isEmpty then .error (.noValues position)
    else
      match count with
      | none => repetitions (some vs.length) (position + 1) rest
      | some n =>
        if n = vs.length then repetitions count (position + 1) rest
        else .error (.countMismatch position vs.length n)

/-- The type and format that the values of a repeated parameter share; null values take the type of
the others. -/
def sharedType (position : Nat) (vs : List Value) : Except ParameterError (Oid × Format) :=
  match vs.filter fun v => !v.isNull with
  | [] => .ok (.unspecified, .binary)
  | first :: rest =>
    match rest.find? fun v => v.oid != first.oid with
    | some other => .error (.mixedTypes position first.oid other.oid)
    | none => .ok (first.oid, first.preferredFormat)

structure EncodedColumn where
  type : Oid
  format : Format
  values : List (Option Bytes)

def encodeColumn (count position : Nat) : Param → Except ParameterError EncodedColumn
  | value v => do
    let bytes ← (v.encode v.preferredFormat).mapError .conversion
    return ⟨v.oid, v.preferredFormat, List.replicate count bytes⟩
  | repeated vs => do
    let (type, format) ← sharedType position vs
    let values ← (vs.mapM (Value.encode format)).mapError .conversion
    return ⟨type, format, values⟩

def encodeColumns (count position : Nat) : List Param → Except ParameterError (List EncodedColumn)
  | [] => .ok []
  | p :: rest => do
    let first ← p.encodeColumn count position
    let others ← encodeColumns count (position + 1) rest
    return first :: others

def rows : Nat → List (List (Option Bytes)) → List (List (Option Bytes))
  | 0, _ => []
  | n + 1, columns =>
    columns.map (fun column => column.headD none) :: rows n (columns.map List.tail)

def encodeAll (params : List Param) : Except ParameterError EncodedParams := do
  if maxParams < params.length then throw (.tooMany params.length)
  let count ← repetitions none 1 params
  let columns ← encodeColumns count 1 params
  return ⟨columns.map (·.type), columns.map (·.format), rows count (columns.map (·.values))⟩

end Param

end PgPipeline
