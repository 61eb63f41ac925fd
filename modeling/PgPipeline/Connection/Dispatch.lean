import PgPipeline.Connection.Response
import PgPipeline.Connection.Sending
import PgPipeline.Connection.Startup
import PgPipeline.Socket

namespace PgPipeline

inductive LoopEvent where
  | connected
  | readable
  | writable
  | failed (failure : Failure)
  | notified
  | timer
  deriving DecidableEq, Repr

namespace Connection

variable {ρ : Type}

def onMessage (c : Connection ρ) (m : BackendMessage) : Turn ρ :=
  let c := c.enter [.received m]
  match m with
  | .parameterStatus name value =>
    .done { c with
      info := { c.info with parameters := KeyOrder.insert name value c.info.parameters } }
  | .backendKeyData process secret => .done { c with info := { c.info with process, secret } }
  | .noticeResponse _ => .done c
  | .notification .. => .done c
  | m =>
    match c.stage with
    | .authenticating => c.onAuthMessage m
    | .ready => c.onQueryMessage m
    | .closing => c.onQueryMessage m
    | stage => .fail c (.protocol s!"unexpected {m.name} in state {stage.label}")

def onMessages (c : Connection ρ) : List BackendMessage → Turn ρ
  | [] => .done c
  | m :: rest => (c.onMessage m).andThen fun c => c.onMessages rest

def takeMessages (c : Connection ρ) : Turn ρ :=
  let (messages, fault, inbound) := c.inbound.drain
  ({ c with inbound }.onMessages messages).andThen fun c =>
    match fault with
    | none => .done c
    | some e => .fail c e.failure

/-- Takes everything that is complete, the answer about encryption first if it is due. -/
def takeInbound (c : Connection ρ) : Turn ρ :=
  if c.awaitingEncryption then
    match c.inbound.takeRaw? 1 with
    | some (answer, inbound) =>
      ({ c with inbound }.onEncryptionAnswer (answer.headD 0)).andThen takeMessages
    | none => .done c
  else c.takeMessages

def takePieces (c : Connection ρ) : List Bytes → Turn ρ
  | [] => .done c
  | piece :: rest =>
    { c with inbound := c.inbound.feed piece }.takeInbound.andThen fun c => c.takePieces rest

def learnCertificate (c : Connection ρ) (certificate : Option Bytes) : Connection ρ :=
  match c.transport with
  | .encrypted none => { c with transport := .encrypted certificate }
  | _ => c

/-- Reads all that a socket has to give. The end of the input is expected only while closing. -/
def read (c : Connection ρ) (socket : Socket) : Turn ρ :=
  ((c.learnCertificate socket.certificate).takePieces socket.incoming).andThen fun c =>
    match socket.readEnd with
    | .blocked => .done c
    | .finished => if c.stage = .closing then .done (c.moveTo .closed) else .fail c .closed
    | .failed text => .fail c (.io text)

/-- Writes what is queued, as far as the socket takes it. A closing connection is closed when all is
written. -/
def write (c : Connection ρ) (socket : Socket) : Turn ρ :=
  if ¬ c.connected ∨ c.stage = .closed then .done c
  else
    let written := c.outbound.writeTo socket.writes
    let c := { c with outbound := written.queue }.enter
      (if written.sent.isEmpty then [] else [.wrote written.sent])
    match written.ending with
    | .drained => .done (if c.stage = .closing then c.moveTo .closed else c)
    | .blocked => .done c
    | .failed text => .fail c (.io text)

def onTimer (c : Connection ρ) : Turn ρ :=
  if c.stage = .connecting ∨ c.stage = .authenticating then
    let ms := c.config.connectTimeout.getD 0
    .fail c (.connect s!"timed out after {ms}ms connecting to {c.config.host}:{c.config.port}")
  else .done c

def begin (c : Connection ρ) : Connection ρ :=
  if c.stage = .disconnected then c.moveTo .connecting else c

def timeout? (c : Connection ρ) : Option Nat :=
  if c.stage = .disconnected then c.config.connectTimeout else none

def onEvent (c : Connection ρ) (event : LoopEvent) (socket : Socket) : Turn ρ :=
  match event with
  | .connected => .done c.onConnected
  | .readable => c.read socket
  | .writable => .done c
  | .notified => .done c
  | .timer => c.onTimer
  | .failed f => .fail c f

def settle (c : Connection ρ) (socket : Socket) : Turn ρ :=
  if c.stage = .closed then .done c else c.pump.write socket

def dispatch (c : Connection ρ) (event : LoopEvent) (socket : Socket) : Turn ρ :=
  if c.stage = .closed then .done c
  else (c.begin.onEvent event socket).andThen fun c => c.settle socket

end Connection

end PgPipeline
