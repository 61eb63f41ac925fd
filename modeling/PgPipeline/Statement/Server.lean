import PgPipeline.Statement.Cache
import PgPipeline.Wire.Frontend

/-!
A server that keeps prepared statements.

The server takes messages in order. It prepares a statement under the name it is told, drops one
that is closed, and refuses to execute one that it does not have. After it has refused a message it
passes over all that follows, up to the next Sync.
-/

namespace PgPipeline

structure Verdict where
  answers : List BackendMessage
  refusal : Option ReportFields
  transaction : TransactionStatus
  deriving DecidableEq, Repr

structure StatementServer where
  names : List String
  /-- A message was refused and no Sync has come since. -/
  skipping : Bool
  deriving DecidableEq, Repr

namespace StatementServer

def empty : StatementServer := ⟨[], false⟩

def unknownStatement (name : String) : ReportFields :=
  [(Bytes.ascii 'S', "ERROR"), (Bytes.ascii 'C', unknownStatementCode),
    (Bytes.ascii 'M', "prepared statement \"" ++ name ++ "\" does not exist")]

def respond (s : StatementServer) (answers : List BackendMessage) :
    Option ReportFields → List BackendMessage × StatementServer
  | none => (answers, s)
  | some report => (answers ++ [.errorResponse report], { s with skipping := true })

def perform (s : StatementServer) (verdict : Verdict) (m : FrontendMessage) :
    List BackendMessage × StatementServer :=
  match m with
  | .parse name _ _ => ([.parseComplete], { s with names := name :: s.names })
  | .close .statement name =>
    ([.closeComplete], { s with names := s.names.filter (· ≠ name) })
  | .close .portal _ => ([.closeComplete], s)
  | .describe _ _ => s.respond verdict.answers verdict.refusal
  | .bind _ name _ _ _ =>
    if name ∈ s.names then
      s.respond (if verdict.refusal.isNone then [.bindComplete] else []) verdict.refusal
    else s.respond [] (some (unknownStatement name))
  | .execute _ _ => s.respond verdict.answers verdict.refusal
  | .sync => ([.readyForQuery verdict.transaction], s)
  | _ => ([], s)

def take (s : StatementServer) (verdict : Verdict) (m : FrontendMessage) :
    List BackendMessage × StatementServer :=
  if s.skipping ∧ m ≠ .sync then ([], s) else { s with skipping := false }.perform verdict m

/-- Takes messages in order; the verdicts are those about the first, the second, and so on. -/
def takeAll (s : StatementServer) (verdicts : Nat → Verdict) :
    List FrontendMessage → List BackendMessage × StatementServer
  | [] => ([], s)
  | m :: rest =>
    let (answers, s) := s.take (verdicts 0) m
    let (later, s) := s.takeAll (fun i => verdicts (i + 1)) rest
    (answers ++ later, s)

def serve (verdicts : Nat → Verdict) (ms : List FrontendMessage) :
    List BackendMessage × StatementServer :=
  empty.takeAll verdicts ms

end StatementServer

end PgPipeline
