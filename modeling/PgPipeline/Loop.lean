import PgPipeline.Connection.Dispatch

/-!
A loop that drives many services.

Other threads leave commands in a queue; the loop carries them out, hands every event to the service
it concerns, and wakes services at the times they asked for. A service that fails or breaks off is
told of it once and does not touch the others. What the loop does to its services is kept in a
record, the oldest entry first.

Left out are the waker, by which a command reaches a loop that sleeps, and what a service waits for
at its socket: the system reports what it likes. So a failure to ask the system for other reports, of
which the service is told, is left out as well.
-/

namespace PgPipeline

abbrev Token := Nat

structure Reply (σ : Type) where
  after : σ
  delays : List Nat
  interruption : Option Interruption

structure Behaviour (σ : Type) where
  hasSocket : σ → Bool
  isConnecting : σ → Bool
  isFinished : σ → Bool
  dispatch : σ → LoopEvent → Reply σ
  /-- Takes a failure; the interruption says whether the service broke off over it. -/
  onError : σ → Failure → Reply σ

inductive Command (σ : Type) where
  | register (token : Token) (service : σ)
  | notify (token : Token)
  | deregister (token : Token)

inductive LoopEntry where
  | added (token : Token)
  | dispatched (token : Token) (event : LoopEvent) (interruption : Option Interruption)
  | failed (token : Token) (failure : Failure)
  | removed (token : Token)
  deriving DecidableEq, Repr

structure Registered (σ : Type) where
  token : Token
  service : σ
  serviced : Bool

structure Loop (σ : Type) where
  nextToken : Token
  commands : List (Command σ)
  stopping : Bool
  started : Bool
  services : List (Registered σ)
  timers : List (Nat × Token)
  now : Nat
  registrations : Nat
  active : Nat
  events : Nat
  errors : Nat
  serviced : Nat
  record : List LoopEntry

namespace Loop

variable {σ : Type}

def empty : Loop σ where
  nextToken := 0
  commands := []
  stopping := false
  started := false
  services := []
  timers := []
  now := 0
  registrations := 0
  active := 0
  events := 0
  errors := 0
  serviced := 0
  record := []

def register (l : Loop σ) (service : σ) : Except Failure (Token × Loop σ) :=
  if l.stopping then .error .closed
  else .ok (l.nextToken,
    { l with
      nextToken := l.nextToken + 1, commands := l.commands ++ [.register l.nextToken service] })

def notify (l : Loop σ) (token : Token) : Loop σ :=
  { l with commands := l.commands ++ [.notify token] }

def deregister (l : Loop σ) (token : Token) : Loop σ :=
  { l with commands := l.commands ++ [.deregister token] }

def stop (l : Loop σ) : Loop σ := { l with stopping := true }

def start (l : Loop σ) : Except Failure (Loop σ) :=
  if l.started then .error (.configuration "event loop is already running")
  else .ok { l with started := true }

def service? (l : Loop σ) (token : Token) : Option (Registered σ) :=
  l.services.find? fun r => r.token == token

def replace (l : Loop σ) (r : Registered σ) : Loop σ :=
  { l with services := l.services.map fun old => if old.token == r.token then r else old }

def enter (l : Loop σ) (entry : LoopEntry) : Loop σ := { l with record := l.record ++ [entry] }

/-- Enters a time in the order of times; of equal times the smaller token comes first. -/
def insertTimer (timer : Nat × Token) : List (Nat × Token) → List (Nat × Token)
  | [] => [timer]
  | first :: rest =>
    if timer.1 < first.1 ∨ timer.1 = first.1 ∧ timer.2 < first.2 then timer :: first :: rest
    else first :: insertTimer timer rest

def schedule (l : Loop σ) (token : Token) (delays : List Nat) : Loop σ :=
  { l with timers := delays.foldl (fun ts d => insertTimer (l.now + d, token) ts) l.timers }

def remove (l : Loop σ) (token : Token) : Loop σ :=
  match l.service? token with
  | none => l
  | some _ =>
    { l with
      services := l.services.filter fun r => r.token != token, active := l.active - 1 }.enter
      (.removed token)

/-- Counts an event and, the first time, the service that is handed it. -/
def count (l : Loop σ) (r : Registered σ) : Loop σ :=
  { l with events := l.events + 1, serviced := if r.serviced then l.serviced else l.serviced + 1 }

def reconcile (b : Behaviour σ) (l : Loop σ) (token : Token) : Loop σ :=
  match l.service? token with
  | none => l
  | some r => if b.isFinished r.service then l.remove token else l

/-- Tells a service of its failure; one that breaks off over it is dropped. -/
def fail (b : Behaviour σ) (l : Loop σ) (r : Registered σ) (f : Failure) : Loop σ :=
  let reply := b.onError r.service f
  let l := ({ l with errors := l.errors + 1 }.enter (.failed r.token f)).replace
    { r with service := reply.after }
  let l := l.schedule r.token reply.delays
  match reply.interruption with
  | none => l.reconcile b r.token
  | some _ => l.remove r.token

def dispatch (b : Behaviour σ) (l : Loop σ) (token : Token) (event : LoopEvent) : Loop σ :=
  match l.service? token with
  | none => l
  | some r =>
    let reply := b.dispatch r.service event
    let after : Registered σ := ⟨token, reply.after, true⟩
    let l := ((l.count r).enter (.dispatched token event reply.interruption)).replace after
    let l := l.schedule token reply.delays
    match reply.interruption with
    | none => l.reconcile b token
    | some i => l.fail b after i.failure

def add (b : Behaviour σ) (l : Loop σ) (token : Token) (service : σ) : Loop σ :=
  let l := { l with registrations := l.registrations + 1 }
  if b.hasSocket service then
    let added : Registered σ := ⟨token, service, false⟩
    let l := { l with active := l.active + 1, services := l.services ++ [added] }
    (l.enter (.added token)).dispatch b token .notified
  else
    let f := Failure.io "service has no socket"
    let reply := b.onError service f
    ({ l with errors := l.errors + 1 }.enter (.failed token f)).schedule token reply.delays

/-- Carries out a command; asking for attention is left for later. -/
def obey (b : Behaviour σ) (l : Loop σ) : Command σ → Loop σ
  | .register token service => l.add b token service
  | .notify _ => l
  | .deregister token => l.remove token

/-- The services that attention was asked for, each once, in the order of asking. -/
def notified (commands : List (Command σ)) : List Token :=
  commands.foldl
    (fun tokens command =>
      match command with
      | .notify token => if token ∈ tokens then tokens else tokens ++ [token]
      | _ => tokens)
    []

def drain (b : Behaviour σ) (l : Loop σ) : Loop σ :=
  let commands := l.commands
  let l := commands.foldl (obey b) { l with commands := [] }
  (notified commands).foldl (fun l token => l.dispatch b token .notified) l

structure SocketReport where
  connection : Except String Bool
  error : Option Failure
  readable : Bool
  writable : Bool

def onReport (b : Behaviour σ) (l : Loop σ) (token : Token) (report : SocketReport) : Loop σ :=
  let deliver (l : Loop σ) : Loop σ :=
    match report.error with
    | some f => l.dispatch b token (.failed f)
    | none =>
      let l := if report.readable then l.dispatch b token .readable else l
      if report.writable then l.dispatch b token .writable else l
  match l.service? token with
  | none => l
  | some r =>
    if b.isConnecting r.service then
      match report.connection with
      | .ok true => deliver (l.dispatch b token .connected)
      | .ok false => l
      | .error text => l.dispatch b token (.failed (.connect text))
    else deliver l

def elapse (b : Behaviour σ) (l : Loop σ) (duration : Nat) : Loop σ :=
  let now := l.now + duration
  let (due, later) := l.timers.partition fun timer => timer.1 ≤ now
  due.foldl (fun l timer => l.dispatch b timer.2 .timer) { l with now, timers := later }

def dismiss (b : Behaviour σ) (l : Loop σ) (r : Registered σ) : Loop σ :=
  let reply := b.onError r.service .closed
  ((l.enter (.failed r.token .closed)).replace { r with service := reply.after }).remove r.token

/-- Tells the services that were never added that the loop ends. Nothing guards the loop here: when
one of them breaks off over it, what stands behind it is left alone. -/
def dismissWaiting (b : Behaviour σ) (l : Loop σ) : List (Command σ) → Loop σ
  | [] => l
  | .register token service :: rest =>
    let l := l.enter (.failed token .closed)
    match (b.onError service .closed).interruption with
    | none => l.dismissWaiting b rest
    | some _ => l
  | .notify _ :: rest => l.dismissWaiting b rest
  | .deregister _ :: rest => l.dismissWaiting b rest

def finish (b : Behaviour σ) (l : Loop σ) : Loop σ :=
  let l := l.services.foldl (dismiss b) l
  { l with commands := [] }.dismissWaiting b l.commands

end Loop

namespace Connection

variable {ρ : Type}

def behaviour : Behaviour (Connection ρ × Socket) where
  hasSocket _ := true
  isConnecting s := !s.1.connected && s.1.stage != .closed
  isFinished s := s.1.stage == .closed
  dispatch s event :=
    let turn := s.1.dispatch event s.2
    ⟨(turn.after, s.2), s.1.timeout?.toList, turn.interruption⟩
  onError s f := ⟨(s.1.abort f, s.2), [], none⟩

end Connection

end PgPipeline
