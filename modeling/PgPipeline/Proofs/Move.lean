import Mathlib.Logic.Relation
import PgPipeline.Connection.History

/-!
The atomic moves of a connection.

`Turn.Move` lists what can happen to a connection in one go, with what holds whenever it happens.
Every history is a sequence of such moves (`run_moves`), so what every move keeps holds of every
connection that a history leads to (`run_invariant`). `Turn.Serves` is said of a relation that holds
of each part of a step of the loop, which is a sequence of these parts (`dispatch_steps`).
-/

namespace PgPipeline

variable {ρ : Type}

/-- The consumer never breaks off. -/
def Consumer.Steady (c : Consumer ρ) : Prop :=
  (∀ taken row text, c.onRow taken row ≠ .error (.crashed text)) ∧
    ∀ taken summary text, c.onComplete taken summary ≠ .error (.crashed text)

def Action.Allows (K : Consumer ρ → Prop) : Action ρ → Prop
  | .submit _ _ consumer => K consumer
  | _ => True

open Relation (ReflTransGen)

namespace Turn

open Connection

/-- One move; consumers of submissions are of a kind. -/
inductive Move (K : Consumer ρ → Prop) : Turn ρ → Turn ρ → Prop
  | submit {t : Turn ρ} (query : String) (params : List Param) (consumer : Consumer ρ)
      (allowed : K consumer) :
      Move K t (t.request fun c => (c.submit query params consumer).2)
  | cancel {t : Turn ρ} (number : Nat) : Move K t (t.request fun c => c.cancel number)
  | awaitReady {t : Turn ρ} : Move K t (t.request fun c => c.awaitReady.2)
  | requestClose {t : Turn ρ} : Move K t (t.request requestClose)
  | tell {t : Turn ρ} (cause : Failure) : Move K t (.done (t.after.abort cause))
  | begin {c : Connection ρ} (new : c.stage = .disconnected) :
      Move K (.done c) (.done (c.moveTo .connecting))
  | connect {c : Connection ρ} (alive : c.stage ≠ .closed) :
      Move K (.done c) (.done c.onConnected)
  | breakOff {c : Connection ρ} (i : Interruption) : Move K (.done c) ⟨c, some i⟩
  | feed {c : Connection ρ} (inbound : Inbound) : Move K (.done c) (.done { c with inbound })
  | learn {c : Connection ρ} (certificate : Option Bytes) :
      Move K (.done c) (.done (c.learnCertificate certificate))
  | answer {c : Connection ρ} (byte : UInt8) (alive : c.stage ≠ .closed) :
      Move K (.done c) (c.onEncryptionAnswer byte)
  | message {c : Connection ρ} (m : BackendMessage) (alive : c.stage ≠ .closed) :
      Move K (.done c) (c.onMessage m)
  | part {c : Connection ρ} (leaving : c.stage = .closing) :
      Move K (.done c) (.done (c.moveTo .closed))
  | collect {c : Connection ρ} : Move K (.done c) (.done c.collect)
  | close {c : Connection ρ} : Move K (.done c) (.done c.beginClose)
  | drop {c : Connection ρ} : Move K (.done c) (.done c.dropCancelled)
  | send {c : Connection ρ} {s : Submission ρ} {rest : List (Submission ρ)}
      (ready : c.stage = .ready) (first : c.pending = s :: rest)
      (kept : c.isCancelled s.number = false) :
      Move K (.done c) (.done (({ c with pending := rest } : Connection ρ).send s))
  | write {c : Connection ρ} (socket : Socket) : Move K (.done c) (c.write socket)

/-- The relation holds of each part of a step that the loop asks for; that the socket is connected is
told apart, since a loop tells so at most once. -/
structure Serves (R : Turn ρ → Turn ρ → Prop) : Prop where
  begin {c : Connection ρ} (new : c.stage = .disconnected) :
    R (.done c) (.done (c.moveTo .connecting))
  breakOff {c : Connection ρ} (i : Interruption) : R (.done c) ⟨c, some i⟩
  feed {c : Connection ρ} (inbound : Inbound) : R (.done c) (.done { c with inbound })
  learn {c : Connection ρ} (certificate : Option Bytes) :
    R (.done c) (.done (c.learnCertificate certificate))
  answer {c : Connection ρ} (byte : UInt8) (alive : c.stage ≠ .closed)
    (awaiting : c.awaitingEncryption = true) : R (.done c) (c.onEncryptionAnswer byte)
  message {c : Connection ρ} (m : BackendMessage) (alive : c.stage ≠ .closed) :
    R (.done c) (c.onMessage m)
  part {c : Connection ρ} (leaving : c.stage = .closing) :
    R (.done c) (.done (c.moveTo .closed))
  collect {c : Connection ρ} : R (.done c) (.done c.collect)
  close {c : Connection ρ} : R (.done c) (.done c.beginClose)
  drop {c : Connection ρ} : R (.done c) (.done c.dropCancelled)
  send {c : Connection ρ} {s : Submission ρ} {rest : List (Submission ρ)}
    (ready : c.stage = .ready) (first : c.pending = s :: rest)
    (kept : c.isCancelled s.number = false) :
    R (.done c) (.done (({ c with pending := rest } : Connection ρ).send s))
  write {c : Connection ρ} (socket : Socket) : R (.done c) (c.write socket)

theorem Move.serves {K : Consumer ρ → Prop} : Serves (Move (ρ := ρ) K) :=
  ⟨.begin, .breakOff, .feed, .learn, fun byte alive _ => .answer byte alive, .message, .part,
    .collect, .close, .drop, .send, .write⟩

abbrev Moves (K : Consumer ρ → Prop) : Turn ρ → Turn ρ → Prop := ReflTransGen (Move K)

variable {K : Consumer ρ → Prop}

theorem Move.weaken {L : Consumer ρ → Prop} {t u : Turn ρ} (le : ∀ consumer, K consumer → L consumer)
    (move : Move K t u) : Move L t u := by
  cases move with
  | submit query params consumer allowed => exact .submit query params consumer (le _ allowed)
  | cancel number => exact .cancel number
  | awaitReady => exact .awaitReady
  | requestClose => exact .requestClose
  | tell cause => exact .tell cause
  | begin new => exact .begin new
  | connect alive => exact .connect alive
  | breakOff i => exact .breakOff i
  | feed inbound => exact .feed inbound
  | learn certificate => exact .learn certificate
  | answer byte alive => exact .answer byte alive
  | message m alive => exact .message m alive
  | part leaving => exact .part leaving
  | collect => exact .collect
  | close => exact .close
  | drop => exact .drop
  | send ready first kept => exact .send ready first kept
  | write socket => exact .write socket

theorem eq_done {t : Turn ρ} (h : t.interruption = none) : t = done t.after := by
  obtain ⟨c, i⟩ := t
  exact congrArg (Turn.mk c) h

theorem andThen_steps {R : Turn ρ → Turn ρ → Prop} {t u : Turn ρ} {f : Connection ρ → Turn ρ}
    (first : ReflTransGen R t u)
    (second : u.interruption = none → ReflTransGen R (done u.after) (f u.after)) :
    ReflTransGen R t (u.andThen f) := by
  unfold Turn.andThen
  split
  · next h =>
    rw [eq_done h] at first
    exact first.trans (second h)
  · exact first

end Turn

namespace Connection

open Turn

theorem moveTo_stage (c : Connection ρ) (stage : Stage) : (c.moveTo stage).stage = stage := by
  unfold moveTo
  split
  · assumption
  · rfl

theorem finish_stage (c : Connection ρ) (flight : Flight ρ) :
    (c.finish flight).after.stage = c.stage := by
  unfold finish finishSuccess finishUnknownStatement finishFailure
  split
  · dsimp only
    split <;> split <;> rfl
  · dsimp only [done]
    split
    · split <;> rfl
    · rfl

theorem onQueryMessage_stage (c : Connection ρ) (m : BackendMessage) :
    (c.onQueryMessage m).after.stage = c.stage := by
  unfold onQueryMessage onError onRowDescription onNoData onDataRow onCommandComplete
    onReadyForQuery updateHead withHead
  cases m <;> dsimp only [Turn.done, Turn.fail, enter] <;> try rfl
  all_goals repeat' split
  all_goals first | rfl | exact finish_stage _ _

theorem onAuthMessage_stage (c : Connection ρ) (m : BackendMessage) :
    (c.onAuthMessage m).after.stage = c.stage ∨ (c.onAuthMessage m).after.stage = .ready := by
  unfold onAuthMessage onAuthenticationOk beginExchange onChallenge onSignature withPassword
  cases m <;> dsimp only [Turn.done, Turn.fail, queue, enter] <;> try exact Or.inl rfl
  case readyForQuery status =>
    split
    · exact Or.inr (moveTo_stage _ _)
    · exact Or.inl rfl
  all_goals repeat' split
  all_goals exact Or.inl rfl

theorem onMessage_alive {c : Connection ρ} (alive : c.stage ≠ .closed) (m : BackendMessage) :
    (c.onMessage m).after.stage ≠ .closed := by
  have auth := onAuthMessage_stage (c.enter [.received m]) m
  have query := onQueryMessage_stage (c.enter [.received m]) m
  unfold onMessage
  dsimp only
  split
  all_goals try exact alive
  split
  · rcases auth with h | h <;> rw [h]
    · exact alive
    · decide
  · exact query ▸ alive
  · exact query ▸ alive
  · exact alive

theorem sendStartup_alive (c : Connection ρ) : c.sendStartup.stage ≠ .closed := by
  rw [sendStartup, moveTo_stage]
  decide

theorem onEncryptionAnswer_alive {c : Connection ρ} (alive : c.stage ≠ .closed) (byte : UInt8) :
    (c.onEncryptionAnswer byte).after.stage ≠ .closed := by
  unfold onEncryptionAnswer encrypt Turn.andThen
  dsimp only
  repeat' split
  all_goals first
    | exact alive
    | exact sendStartup_alive _

theorem learnCertificate_stage (c : Connection ρ) (certificate : Option Bytes) :
    (c.learnCertificate certificate).stage = c.stage := by
  unfold learnCertificate
  split <;> rfl

theorem begin_alive {c : Connection ρ} (alive : c.stage ≠ .closed) : c.begin.stage ≠ .closed := by
  unfold begin
  split
  · rw [moveTo_stage]
    decide
  · exact alive

theorem send_pending (c : Connection ρ) (p q : List (Submission ρ)) (s : Submission ρ) :
    ({ (({ c with pending := p } : Connection ρ).send s) with pending := q } : Connection ρ) =
      ({ c with pending := q } : Connection ρ).send s := by
  unfold send
  have same : ({ c with pending := p } : Connection ρ).prepare s =
    ({ c with pending := q } : Connection ρ).prepare s := rfl
  rw [same]
  cases ({ c with pending := q } : Connection ρ).prepare s <;> rfl

theorem send_frame (c : Connection ρ) (s : Submission ρ) :
    (c.send s).stage = c.stage ∧ (c.send s).pending = c.pending ∧ (c.send s).inbox = c.inbox := by
  unfold send
  split <;> exact ⟨rfl, rfl, rfl⟩

theorem resolveAll_frame (c : Connection ρ) (ss : List (Submission ρ))
    (result : Except Failure ρ) :
    (c.resolveAll ss result).pending = c.pending ∧ (c.resolveAll ss result).inbox = c.inbox := by
  unfold resolveAll
  induction ss generalizing c with
  | nil => exact ⟨rfl, rfl⟩
  | cons s rest ih => exact ih (c.resolve s.number result)

theorem dropCancelled_kept (c : Connection ρ) :
    ∀ s ∈ c.dropCancelled.pending, c.dropCancelled.isCancelled s.number = false := by
  unfold dropCancelled
  dsimp only
  rw [List.partition_eq_filter_filter]
  dsimp only
  obtain ⟨pending, inbox⟩ := resolveAll_frame
    ({ c with pending := c.pending.filter (not ∘ fun s => c.isCancelled s.number) } : Connection ρ)
    (c.pending.filter fun s => c.isCancelled s.number) (.error .cancelled)
  rw [pending]
  intro s hs
  rw [isCancelled, inbox]
  simpa [isCancelled] using (List.mem_filter.mp hs).2

section

variable {R : Turn ρ → Turn ρ → Prop} (serves : Serves R)

include serves

theorem onMessages_steps {c : Connection ρ} (alive : c.stage ≠ .closed)
    (ms : List BackendMessage) :
    ReflTransGen R (done c) (c.onMessages ms) ∧ (c.onMessages ms).after.stage ≠ .closed := by
  induction ms generalizing c with
  | nil => exact ⟨.refl, alive⟩
  | cons m rest ih =>
    have next := onMessage_alive alive m
    refine ⟨andThen_steps (.single (serves.message m alive)) fun _ => (ih next).1, ?_⟩
    simp only [onMessages, Turn.andThen]
    split
    · exact (ih next).2
    · exact next

theorem takeMessages_steps {c : Connection ρ} (alive : c.stage ≠ .closed) :
    ReflTransGen R (done c) c.takeMessages ∧ c.takeMessages.after.stage ≠ .closed := by
  rcases h : c.inbound.drain with ⟨messages, fault, inbound⟩
  have all := onMessages_steps serves (c := { c with inbound }) alive messages
  simp only [takeMessages, h]
  constructor
  · refine andThen_steps (.trans (.single (serves.feed inbound)) all.1) fun _ => ?_
    cases fault with
    | none => exact .refl
    | some e => exact .single (serves.breakOff _)
  · unfold Turn.andThen
    split
    · cases fault <;> exact all.2
    · exact all.2

theorem takeInbound_steps {c : Connection ρ} (alive : c.stage ≠ .closed) :
    ReflTransGen R (done c) c.takeInbound ∧ c.takeInbound.after.stage ≠ .closed := by
  unfold takeInbound
  split
  · next awaiting =>
    split
    · next answer inbound _ =>
      have fed : ReflTransGen R (done c) (onEncryptionAnswer { c with inbound } (answer.headD 0)) :=
        .tail (.single (serves.feed inbound))
          (serves.answer (c := { c with inbound }) _ alive awaiting)
      have next := onEncryptionAnswer_alive (c := { c with inbound }) alive (answer.headD 0)
      refine ⟨andThen_steps fed fun _ => (takeMessages_steps serves next).1, ?_⟩
      unfold Turn.andThen
      split
      · exact (takeMessages_steps serves next).2
      · exact next
    · exact ⟨.refl, alive⟩
  · exact takeMessages_steps serves alive

theorem takePieces_steps {c : Connection ρ} (alive : c.stage ≠ .closed) (pieces : List Bytes) :
    ReflTransGen R (done c) (c.takePieces pieces) := by
  induction pieces generalizing c with
  | nil => exact .refl
  | cons piece rest ih =>
    have fed := takeInbound_steps serves (c := { c with inbound := c.inbound.feed piece }) alive
    exact andThen_steps (.trans (.single (serves.feed _)) fed.1) fun _ => ih fed.2

theorem read_steps {c : Connection ρ} (alive : c.stage ≠ .closed) (socket : Socket) :
    ReflTransGen R (done c) (c.read socket) := by
  have learnt : (c.learnCertificate socket.certificate).stage ≠ .closed := by
    rwa [learnCertificate_stage]
  refine andThen_steps (.trans (.single (serves.learn _)) (takePieces_steps serves learnt _))
    fun _ => ?_
  cases socket.readEnd with
  | blocked => exact .refl
  | finished =>
    dsimp only
    split
    · next leaving => exact .single (serves.part leaving)
    · exact .single (serves.breakOff _)
  | failed text => exact .single (serves.breakOff _)

theorem sendPending_steps {c : Connection ρ} (ready : c.stage = .ready)
    (kept : ∀ s ∈ c.pending, c.isCancelled s.number = false) :
    ReflTransGen R (done c) (done c.sendPending) := by
  obtain ⟨ss, h⟩ : ∃ ss, c.pending = ss := ⟨_, rfl⟩
  unfold sendPending
  rw [h] at kept ⊢
  induction ss generalizing c with
  | nil =>
    have same : ({ c with pending := [] } : Connection ρ) = c := by rw [← h]
    rw [same]
    exact .refl
  | cons s rest ih =>
    obtain ⟨stage, pending, inbox⟩ := send_frame ({ c with pending := rest } : Connection ρ) s
    have still (r : Submission ρ) (hr : r ∈ rest) :
        (({ c with pending := rest } : Connection ρ).send s).isCancelled r.number = false := by
      rw [isCancelled, inbox]
      exact kept r (List.mem_cons_of_mem _ hr)
    have step := ih (stage.trans ready) still pending
    rw [send_pending c rest [] s] at step
    exact .trans (.single (serves.send ready h (kept s List.mem_cons_self))) step

theorem pump_steps (c : Connection ρ) : ReflTransGen R (done c) (done c.pump) := by
  unfold pump
  dsimp only
  split
  · exact .tail (.single serves.collect) serves.close
  · have dropped : ReflTransGen R (done c) (done c.collect.dropCancelled) :=
      .tail (.single serves.collect) serves.drop
    split
    · next ready => exact dropped.trans (sendPending_steps serves ready (dropCancelled_kept _))
    · exact dropped

theorem onEvent_steps {c : Connection ρ} (alive : c.stage ≠ .closed) (event : LoopEvent)
    (socket : Socket)
    (connect : event = .connected → R (done c.begin) (done c.begin.onConnected)) :
    ReflTransGen R (done c) (c.begin.onEvent event socket) := by
  have begun : ReflTransGen R (done c) (done c.begin) := by
    unfold begin
    split
    · next new => exact .single (serves.begin new)
    · exact .refl
  refine begun.trans ?_
  cases event with
  | connected => exact .single (connect rfl)
  | readable => exact read_steps serves (begin_alive alive) socket
  | writable => exact .refl
  | notified => exact .refl
  | timer =>
    simp only [onEvent, onTimer]
    split
    · exact .single (serves.breakOff _)
    · exact .refl
  | failed f => exact .single (serves.breakOff _)

theorem dispatch_steps (c : Connection ρ) (event : LoopEvent) (socket : Socket)
    (connect : c.stage ≠ .closed → event = .connected →
      R (done c.begin) (done c.begin.onConnected)) :
    ReflTransGen R (done c) (c.dispatch event socket) := by
  unfold dispatch
  split
  · exact .refl
  · next alive =>
    refine andThen_steps (onEvent_steps serves alive event socket (connect alive)) fun _ => ?_
    unfold settle
    split
    · exact .refl
    · exact .tail (pump_steps serves _) (serves.write socket)

end

theorem onEvent_moves {K : Consumer ρ → Prop} {c : Connection ρ} (alive : c.stage ≠ .closed)
    (event : LoopEvent) (socket : Socket) : Moves K (done c) (c.begin.onEvent event socket) :=
  onEvent_steps Move.serves alive event socket fun _ => .connect (begin_alive alive)

theorem dispatch_moves {K : Consumer ρ → Prop} (c : Connection ρ) (event : LoopEvent)
    (socket : Socket) : Moves K (done c) (c.dispatch event socket) :=
  dispatch_steps Move.serves c event socket fun alive _ => .connect (begin_alive alive)

end Connection

namespace Turn

variable {K : Consumer ρ → Prop}

theorem act_moves (t : Turn ρ) {a : Action ρ} (h : a.Allows K) : Moves K t (t.act a) := by
  cases a with
  | submit query params consumer => exact .single (.submit query params consumer h)
  | cancel number => exact .single (.cancel number)
  | awaitReady => exact .single .awaitReady
  | requestClose => exact .single .requestClose
  | dispatch event socket =>
    exact andThen_steps (f := fun c => c.dispatch event socket) (.refl (a := t))
      fun _ => Connection.dispatch_moves _ _ _
  | tell cause => exact .single (.tell _)

theorem run_moves (t : Turn ρ) {actions : List (Action ρ)} (h : ∀ a ∈ actions, a.Allows K) :
    Moves K t (t.run actions) := by
  induction actions generalizing t with
  | nil => exact .refl
  | cons a rest ih =>
    exact .trans (act_moves t (h a List.mem_cons_self))
      (ih (t.act a) fun b hb => h b (List.mem_cons_of_mem _ hb))

theorem moves_invariant {P : Turn ρ → Prop} (step : ∀ {t u}, Move K t u → P t → P u)
    {t u : Turn ρ} (h : Moves K t u) (start : P t) : P u := by
  induction h with
  | refl => exact start
  | tail _ last ih => exact step last ih

theorem run_invariant {P : Turn ρ → Prop} {t : Turn ρ} (start : P t)
    (step : ∀ {t u}, Move K t u → P t → P u) {actions : List (Action ρ)}
    (h : ∀ a ∈ actions, a.Allows K) : P (t.run actions) :=
  moves_invariant step (run_moves t h) start

theorem allows_any (a : Action ρ) : a.Allows fun _ => True := by
  cases a <;> trivial

end Turn

end PgPipeline
