import PgPipeline.Statement.Parameters

namespace PgPipeline

inductive BatchError where
  | noRows
  | ragged (index count expected : Nat)
  | noParameters
  deriving DecidableEq, Repr

namespace BatchError

def message : BatchError → String
  | noRows => "batch has no parameter rows"
  | ragged index count expected => s!"batch row {index} has {count} values, expected {expected}"
  | noParameters => "batch rows must carry at least one parameter"

def failure (e : BatchError) : Failure := .validation e.message

end BatchError

namespace Param

def raggedRow? (width : Nat) (rows : List (List Value)) : Option (Nat × Nat) :=
  (rows.findIdx? fun row => row.length != width).map fun i => (i, (rows[i]?.getD []).length)

def ofColumns : Nat → List (List Value) → List Param
  | 0, _ => []
  | n + 1, rows =>
    repeated (rows.map fun row => row.headD .null) :: ofColumns n (rows.map List.tail)

def ofRows (rows : List (List Value)) : Except BatchError (List Param) :=
  match rows with
  | [] => .error .noRows
  | first :: _ =>
    match raggedRow? first.length rows with
    | some (index, count) => .error (.ragged index count first.length)
    | none => if first.isEmpty then .error .noParameters else .ok (ofColumns first.length rows)

end Param

end PgPipeline
