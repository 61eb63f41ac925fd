import PgPipeline.Row
import PgPipeline.Statement.Parameters

namespace PgPipeline

inductive Interruption where
  | failed (failure : Failure)
  /-- A caller's code broke off, with a text if it left one. -/
  | crashed (text : Option String)
  deriving DecidableEq, Repr

def Interruption.failure : Interruption → Failure
  | failed f => f
  | crashed text => .protocol ("service panicked: " ++ text.getD "unknown panic")

structure Summary where
  tag : String
  rowsAffected : Nat
  columns : List Column
  deriving DecidableEq, Repr

/-- The code that takes the rows of a submission; what it does depends on the rows taken before. -/
structure Consumer (ρ : Type) where
  onRow : List Row → Row → Except Interruption Unit
  onComplete : List Row → Summary → Except Interruption ρ

structure QueryResult where
  columns : List Column
  rows : List (List Value)
  tag : String
  rowsAffected : Nat

namespace Consumer

variable {ρ σ : Type}

def readRow (row : Row) : Except Interruption (List Value) :=
  row.decode.mapError fun e => .failed e.failure

def collect : Consumer QueryResult where
  onRow _ row := (readRow row).map fun _ => ()
  onComplete taken summary := do
    let rows ← taken.mapM readRow
    return ⟨summary.columns, rows, summary.tag, summary.rowsAffected⟩

def count : Consumer Nat where
  onRow _ _ := .ok ()
  onComplete _ summary := .ok summary.rowsAffected

def map (f : ρ → σ) (c : Consumer ρ) : Consumer σ where
  onRow := c.onRow
  onComplete taken summary := (c.onComplete taken summary).map f

end Consumer

structure Submission (ρ : Type) where
  number : Nat
  query : String
  params : List Param
  consumer : Consumer ρ
  taken : List Row
  refusal : Option Failure
  retries : Nat

namespace Submission

variable {ρ : Type}

def create (number : Nat) (query : String) (params : List Param) (consumer : Consumer ρ) :
    Submission ρ :=
  ⟨number, query, params, consumer, [], none, 1⟩

def offer (s : Submission ρ) (row : Row) : Except Interruption (Submission ρ) :=
  match s.consumer.onRow s.taken row with
  | .ok _ => .ok { s with taken := s.taken ++ [row] }
  | .error (.failed f) => .ok { s with refusal := some f }
  | .error (.crashed text) => .error (.crashed text)

/-- The result of a submission whose command succeeded. A cancelled one fails whatever came in, and
a refused row counts before the end is told. -/
def conclude (s : Submission ρ) (cancelled : Bool) (summary : Summary) :
    Except Interruption (Except Failure ρ) :=
  if cancelled then .ok (.error .cancelled)
  else
    match s.refusal with
    | some f => .ok (.error f)
    | none =>
      match s.consumer.onComplete s.taken summary with
      | .ok result => .ok (.ok result)
      | .error (.failed f) => .ok (.error f)
      | .error (.crashed text) => .error (.crashed text)

def numbers (ss : List (Submission ρ)) : List Nat := ss.map (·.number)

def insert (s : Submission ρ) (ss : List (Submission ρ)) : List (Submission ρ) :=
  (ss.takeWhile fun t => t.number < s.number) ++ s :: ss.dropWhile fun t => t.number < s.number

end Submission

end PgPipeline
