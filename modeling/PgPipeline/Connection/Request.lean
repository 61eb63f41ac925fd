import PgPipeline.Connection
import PgPipeline.Statement.Batch

namespace PgPipeline.Connection

variable {ρ : Type}

def open? (config : Config) (nonces : Nat → List Char) : Except ConfigError (Connection ρ) :=
  config.validate.map fun _ => start config nonces

def submit (c : Connection ρ) (query : String) (params : List Param) (consumer : Consumer ρ) :
    Nat × Connection ρ :=
  let number := c.inbox.nextNumber
  let inbox := { c.inbox with nextNumber := number + 1 }
  match c.inbox.closedBy with
  | some cause => (number, { c with inbox }.enter [.resolved ⟨number, .error cause⟩])
  | none =>
    let s := Submission.create number query params consumer
    (number, { c with inbox := { inbox with queue := inbox.queue ++ [s] } })

def query (c : Connection ρ) (answer : QueryResult → ρ) (query : String) (values : List Value) :
    Nat × Connection ρ :=
  c.submit query (values.map .value) (Consumer.collect.map answer)

def execute (c : Connection ρ) (answer : Nat → ρ) (query : String) (values : List Value) :
    Nat × Connection ρ :=
  c.submit query (values.map .value) (Consumer.count.map answer)

def executeBatch (c : Connection ρ) (answer : Nat → ρ) (query : String)
    (rows : List (List Value)) : Except BatchError (Nat × Connection ρ) :=
  (Param.ofRows rows).map fun params => c.submit query params (Consumer.count.map answer)

def awaitReady (c : Connection ρ) : Nat × Connection ρ :=
  let waiter := c.inbox.nextWaiter
  let inbox := { c.inbox with nextWaiter := waiter + 1 }
  (waiter,
    match c.inbox.readiness with
    | .pending waiters =>
      { c with inbox := { inbox with readiness := .pending (waiters ++ [waiter]) } }
    | .ready info => { c with inbox }.enter [.informed waiter (.ok info)]
    | .failed f => { c with inbox }.enter [.informed waiter (.error f)])

def requestClose (c : Connection ρ) : Connection ρ :=
  { c with inbox := { c.inbox with closeRequested := true } }

def cancel (c : Connection ρ) (number : Nat) : Connection ρ :=
  if number < c.inbox.nextNumber ∧ ¬ c.isCancelled number then
    { c with inbox := { c.inbox with cancelled := number :: c.inbox.cancelled } }
  else c

end PgPipeline.Connection
