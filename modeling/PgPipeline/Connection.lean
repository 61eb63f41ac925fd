import PgPipeline.Auth.Scram
import PgPipeline.ByteQueue
import PgPipeline.Config
import PgPipeline.Sequencer
import PgPipeline.Statement.Cache
import PgPipeline.Submission
import PgPipeline.Tls.Certificate
import PgPipeline.Wire.Frame
import PgPipeline.Wire.Frontend

/-!
The state of a connection and the record of what has happened to it.

Callers leave submissions in the inbox; the connection moves them to `pending`, sends them when it
is ready, and keeps them `inFlight`, in the order of sending, until their answers are complete. What
passes between the connection, the server and the callers is entered in a record in its order.

Left out is what decides nothing here. The state of a submission (queued, sent, awaiting a response)
is only ever printed. An option of the socket that cannot be set would end the connection with that
error. An encrypted channel is transparent: it gives plain bytes as they come in and takes them as the
socket does, so what it holds back in records of its own counts as written. Names are resolved before
a connection begins, and nothing is logged.
-/

namespace PgPipeline

inductive Stage where
  | disconnected
  | connecting
  | authenticating
  | ready
  | closing
  | closed
  deriving DecidableEq, Repr

namespace Stage

def label : Stage → String
  | disconnected => "Disconnected"
  | connecting => "Connecting"
  | authenticating => "Authenticating"
  | ready => "Ready"
  | closing => "Closing"
  | closed => "Closed"

def rank : Stage → Nat
  | disconnected => 0
  | connecting => 1
  | authenticating => 2
  | ready => 3
  | closing => 4
  | closed => 5

def isEnding : Stage → Bool
  | closing => true
  | closed => true
  | _ => false

end Stage

structure ServerInfo where
  parameters : List (String × String)
  process : Int32
  secret : Int32
  encrypted : Bool
  mechanism : Option Mechanism
  deriving DecidableEq, Repr

namespace ServerInfo

def unknown : ServerInfo := ⟨[], 0, 0, false, none⟩

def parameter? (i : ServerInfo) (name : String) : Option String := i.parameters.lookup name

end ServerInfo

inductive AuthPhase where
  | started
  | challenged (client : Scram.Client)
  /-- The client's proof is sent and the server's signature is due. -/
  | proven (client : Scram.Client)
  | verified
  deriving DecidableEq, Repr

inductive Transport where
  | plain
  | encrypted (certificate : Option Bytes)
  deriving DecidableEq, Repr

def Transport.binding? : Transport → Option Bytes
  | plain => none
  | encrypted certificate => certificate.map Certificate.endPointDigest

structure Flight (ρ : Type) where
  submission : Submission ρ
  statement : StatementId
  key : StatementKey
  preparedHere : Bool
  prepareConfirmed : Bool
  columns : Option (List Column)
  tag : String
  rowsAffected : Nat
  /-- The first error that the server reported. -/
  error : Option ServerReport

namespace Flight

variable {ρ : Type}

def start (submission : Submission ρ) (statement : StatementId) (key : StatementKey)
    (preparedHere : Bool) : Flight ρ :=
  ⟨submission, statement, key, preparedHere, false, none, "", 0, none⟩

def summary (f : Flight ρ) : Summary := ⟨f.tag, f.rowsAffected, f.columns.getD []⟩

end Flight

inductive Readiness where
  | pending (waiters : List Nat)
  | ready (info : ServerInfo)
  | failed (failure : Failure)
  deriving DecidableEq, Repr

structure Inbox (ρ : Type) where
  nextNumber : Nat
  nextWaiter : Nat
  queue : List (Submission ρ)
  closeRequested : Bool
  /-- Why the connection takes no more submissions. -/
  closedBy : Option Failure
  readiness : Readiness
  stage : Stage
  cancelled : List Nat

structure Resolution (ρ : Type) where
  number : Nat
  result : Except Failure ρ

/-- What passes between a connection, its server and its callers. -/
inductive Entry (ρ : Type) where
  | moved (stage : Stage)
  | received (message : BackendMessage)
  | queued (messages : List FrontendMessage)
  /-- The piece queued last is the batch of a submission and executes this statement. -/
  | sent (number : Nat) (statement : String)
  | finished (number : Nat)
  | wrote (data : Bytes)
  | endedChannel
  | offered (number : Nat) (row : Row)
  | concluded (number : Nat) (summary : Summary)
  | resolved (resolution : Resolution ρ)
  | informed (waiter : Nat) (result : Except Failure ServerInfo)

structure Connection (ρ : Type) where
  config : Config
  nonces : Nat → List Char
  exchanges : Nat
  stage : Stage
  transport : Transport
  connected : Bool
  /-- The server has yet to say whether it agrees to encryption. -/
  awaitingEncryption : Bool
  inbound : Inbound
  outbound : ByteQueue
  cache : StatementCache
  inbox : Inbox ρ
  /-- Submissions that wait to be sent, in the order of their numbers. -/
  pending : List (Submission ρ)
  /-- Submissions that wait for answers, in the order in which they were sent. -/
  inFlight : List (Flight ρ)
  sequencer : Sequencer (Resolution ρ)
  auth : AuthPhase
  info : ServerInfo
  transaction : TransactionStatus
  record : List (Entry ρ)

def Inbox.empty {ρ : Type} : Inbox ρ where
  nextNumber := 0
  nextWaiter := 0
  queue := []
  closeRequested := false
  closedBy := none
  readiness := .pending []
  stage := .disconnected
  cancelled := []

namespace Connection

variable {ρ : Type}

def start (config : Config) (nonces : Nat → List Char) : Connection ρ where
  config
  nonces
  exchanges := 0
  stage := .disconnected
  transport := .plain
  connected := false
  awaitingEncryption := false
  inbound := .empty Inbound.defaultLimit
  outbound := .empty
  cache := .empty config.cacheCapacity
  inbox := .empty
  pending := []
  inFlight := []
  sequencer := .start 0
  auth := .started
  info := .unknown
  transaction := .idle
  record := []

def enter (c : Connection ρ) (entries : List (Entry ρ)) : Connection ρ :=
  { c with record := c.record ++ entries }

def moveTo (c : Connection ρ) (stage : Stage) : Connection ρ :=
  if c.stage = stage then c
  else { c with stage, inbox := { c.inbox with stage } }.enter [.moved stage]

def queue (c : Connection ρ) (messages : List FrontendMessage) : Connection ρ :=
  { c with outbound := c.outbound.pushPiece (FrontendMessage.encodeAll messages) }.enter
    [.queued messages]

def isCancelled (c : Connection ρ) (number : Nat) : Bool := c.inbox.cancelled.contains number

def resolve (c : Connection ρ) (number : Nat) (result : Except Failure ρ) : Connection ρ :=
  let (released, sequencer) := c.sequencer.resolve number ⟨number, result⟩
  { c with sequencer }.enter (released.map .resolved)

def resolveAll (c : Connection ρ) (ss : List (Submission ρ)) (result : Except Failure ρ) :
    Connection ρ :=
  ss.foldl (fun c s => c.resolve s.number result) c

end Connection

/-- Where a step leaves a connection, and why it stopped if it did not come to its end. -/
structure Turn (ρ : Type) where
  after : Connection ρ
  interruption : Option Interruption

namespace Turn

variable {ρ : Type}

def done (c : Connection ρ) : Turn ρ := ⟨c, none⟩

def fail (c : Connection ρ) (f : Failure) : Turn ρ := ⟨c, some (.failed f)⟩

def andThen (t : Turn ρ) (next : Connection ρ → Turn ρ) : Turn ρ :=
  match t.interruption with
  | none => next t.after
  | some _ => t

end Turn

end PgPipeline
