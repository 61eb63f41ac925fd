import PgPipeline.Connection

namespace PgPipeline

def ServerReport.isFinal (r : ServerReport) : Bool := r.severity == "FATAL" || r.severity == "PANIC"

def ServerReport.isUnknownStatement (r : ServerReport) : Bool := r.code == unknownStatementCode

namespace Connection

variable {ρ : Type}

def withHead (c : Connection ρ) (name : String) (next : Flight ρ → List (Flight ρ) → Turn ρ) :
    Turn ρ :=
  match c.inFlight with
  | flight :: rest => next flight rest
  | [] => .fail c (.protocol (name ++ " with no submission in flight"))

def updateHead (c : Connection ρ) (name : String) (f : Flight ρ → Flight ρ) : Turn ρ :=
  c.withHead name fun flight rest => .done { c with inFlight := f flight :: rest }

/-- Notes an error; only the first one of a submission counts, and a final one ends all. -/
def onError (c : Connection ρ) (name : String) (report : ServerReport) : Turn ρ :=
  if report.isFinal then .fail c (.server report)
  else c.updateHead name fun flight => { flight with error := flight.error.or (some report) }

/-- Learns the columns of the head's statement. All results are asked for in the binary format, so
that is the format of the columns whatever the description says. -/
def onRowDescription (c : Connection ρ) (name : String) (columns : List Column) : Turn ρ :=
  c.withHead name fun flight rest =>
    let binary := columns.map fun column => { column with format := .binary }
    let cache := c.cache.learnColumns flight.statement binary
    .done { c with
      cache, inFlight := { flight with columns := cache.columns? flight.statement } :: rest }

def onNoData (c : Connection ρ) (name : String) : Turn ρ :=
  c.withHead name fun flight _ =>
    .done (if flight.preparedHere then
      { c with cache := c.cache.learnColumns flight.statement [] } else c)

/-- Passes a row to the head's consumer, unless it was given up or has refused a row. -/
def onDataRow (c : Connection ρ) (name : String) (values : List (Option Bytes)) : Turn ρ :=
  c.withHead name fun flight rest =>
    let columns := flight.columns.getD ((c.cache.columns? flight.statement).getD [])
    let flight := { flight with columns := some columns }
    let c := { c with inFlight := flight :: rest }
    let s := flight.submission
    if c.isCancelled s.number || s.refusal.isSome then .done c
    else
      let row : Row := ⟨columns, values⟩
      let c := c.enter [.offered s.number row]
      match s.offer row with
      | .ok submission => .done { c with inFlight := { flight with submission } :: rest }
      | .error i => ⟨c, some i⟩

def onCommandComplete (c : Connection ρ) (name tag : String) : Turn ρ :=
  c.updateHead name fun flight =>
    { flight with rowsAffected := flight.rowsAffected + rowsOfTag tag, tag }

/-- Finishes a submission whose command succeeded. Its consumer is told unless the submission was
given up or a row was refused. If the consumer breaks off, the submission has no result any more. -/
def finishSuccess (c : Connection ρ) (flight : Flight ρ) : Turn ρ :=
  let s := flight.submission
  let cancelled := c.isCancelled s.number
  let c :=
    if cancelled || s.refusal.isSome then c else c.enter [.concluded s.number flight.summary]
  match s.conclude cancelled flight.summary with
  | .ok result => .done (c.resolve s.number result)
  | .error i => ⟨c.enter [.resolved ⟨s.number, .error .closed⟩], some i⟩

def finishUnknownStatement (c : Connection ρ) (flight : Flight ρ) : Connection ρ :=
  let s := flight.submission
  let name := c.cache.nameOf flight.statement
  let c := { c with cache := c.cache.invalidate flight.key name }
  if 0 < s.retries ∧ ¬ c.isCancelled s.number then
    { c with pending := Submission.insert { s with retries := s.retries - 1 } c.pending }
  else c.resolve s.number (.error (.statementNotFound name))

/-- Finishes a submission that failed. A statement that was never confirmed is forgotten. -/
def finishFailure (c : Connection ρ) (flight : Flight ρ) (report : ServerReport) : Connection ρ :=
  let cache :=
    if flight.preparedHere ∧ ¬ flight.prepareConfirmed then
      c.cache.invalidate flight.key (c.cache.nameOf flight.statement)
    else c.cache
  { c with cache }.resolve flight.submission.number (.error (.server report))

def finish (c : Connection ρ) (flight : Flight ρ) : Turn ρ :=
  match flight.error with
  | none => c.finishSuccess flight
  | some report =>
    .done (if report.isUnknownStatement then c.finishUnknownStatement flight
      else c.finishFailure flight report)

def onReadyForQuery (c : Connection ρ) (name : String) (status : TransactionStatus) : Turn ρ :=
  let c := { c with transaction := status }
  c.withHead name fun flight rest =>
    ({ c with inFlight := rest }.enter [.finished flight.submission.number]).finish flight

def onQueryMessage (c : Connection ρ) (m : BackendMessage) : Turn ρ :=
  match m with
  | .errorResponse fields => c.onError m.name (.ofFields fields)
  | .parseComplete => c.updateHead m.name fun flight => { flight with prepareConfirmed := true }
  | .rowDescription columns => c.onRowDescription m.name columns
  | .noData => c.onNoData m.name
  | .dataRow values => c.onDataRow m.name values
  | .commandComplete tag => c.onCommandComplete m.name tag
  | .emptyQueryResponse => c.updateHead m.name id
  | .bindComplete => c.updateHead m.name id
  | .closeComplete => c.updateHead m.name id
  | .parameterDescription _ => c.updateHead m.name id
  | .portalSuspended => c.updateHead m.name id
  | .readyForQuery status => c.onReadyForQuery m.name status
  | _ => .fail c (.protocol s!"unexpected {m.name} while processing queries")

end Connection

end PgPipeline
