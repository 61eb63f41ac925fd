namespace PgPipeline

structure ServerReport where
  severity : String
  code : String
  message : String
  detail : Option String
  hint : Option String
  deriving DecidableEq, Repr

/-- The SQLSTATE of a reference to a prepared statement that the server does not know. -/
def unknownStatementCode : String := "26000"

inductive Failure where
  | connect (text : String)
  | authentication (text : String)
  | protocol (text : String)
  | statementNotFound (name : String)
  | io (text : String)
  | cancelled
  | server (report : ServerReport)
  | conversion (text : String)
  | argument (text : String)
  | validation (text : String)
  | configuration (text : String)
  | tls (text : String)
  | closed
  | staleBuffer (slot : Nat) (generation : Nat)
  deriving DecidableEq, Repr

namespace Failure

def message : Failure → String
  | .connect text => s!"Connect error: {text}"
  | .authentication text => s!"Authentication failed: {text}"
  | .protocol text => s!"Protocol error: {text}"
  | .statementNotFound name => s!"Prepared statement not found: {name}"
  | .io text => s!"I/O error: {text}"
  | .cancelled => "Submission cancelled"
  | .server r => s!"{r.severity}: {r.message} ({r.code})"
  | .conversion text => s!"Type error: {text}"
  | .argument text => s!"Invalid argument: {text}"
  | .validation text => s!"Validation error: {text}"
  | .configuration text => s!"Configuration error: {text}"
  | .tls text => s!"TLS error: {text}"
  | .closed => "Connection is closed"
  | .staleBuffer slot generation =>
    s!"Stale buffer handle (slot {slot}, generation {generation})"

def code? : Failure → Option String
  | .server r => some r.code
  | _ => none

def isStatementNotFound : Failure → Bool
  | .statementNotFound _ => true
  | .server r => r.code == unknownStatementCode
  | _ => false

def isFatal : Failure → Bool
  | .connect _ => true
  | .authentication _ => true
  | .protocol _ => true
  | .io _ => true
  | .tls _ => true
  | .closed => true
  | _ => false

end Failure

abbrev ReportFields := List (UInt8 × String)

namespace ReportFields

def insert (fields : ReportFields) (key : UInt8) (text : String) : ReportFields :=
  if fields.any (fun f => f.1 == key) then
    fields.map fun f => if f.1 == key then (key, text) else f
  else fields ++ [(key, text)]

def get? (fields : ReportFields) (key : Char) : Option String :=
  fields.lookup (UInt8.ofNat key.toNat)

end ReportFields

/-- The report of an error message; severity, code and text that are missing are empty. -/
def ServerReport.ofFields (fields : ReportFields) : ServerReport where
  severity := (fields.get? 'S').getD ""
  code := (fields.get? 'C').getD ""
  message := (fields.get? 'M').getD ""
  detail := fields.get? 'D'
  hint := fields.get? 'H'

end PgPipeline
