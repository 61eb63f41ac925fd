import PgPipeline.Proofs.ByteQueue
import PgPipeline.Proofs.Course
import PgPipeline.Proofs.Ending
import PgPipeline.Proofs.Greeting

namespace PgPipeline

open FrontendMessage (encodeAll)

variable {ρ : Type}

namespace Entry

def writtenBytes : Entry ρ → Bytes
  | .wrote data => data
  | _ => []

end Entry

namespace Record

def written (es : List (Entry ρ)) : Bytes := es.flatMap Entry.writtenBytes

@[simp] theorem written_append (as bs : List (Entry ρ)) :
    written (as ++ bs) = written as ++ written bs := List.flatMap_append

variable {es : List (Entry ρ)}

theorem written_eq_nil (h : ∀ data, .wrote data ∉ es) : written es = [] := by
  refine List.flatMap_eq_nil_iff.mpr fun e he => ?_
  cases e with
  | wrote data => exact absurd he (h data)
  | _ => rfl

theorem queued_eq_nil (h : ∀ e ∈ es, e.ofStream = false) : queued es = [] := by
  refine List.flatMap_eq_nil_iff.mpr fun e he => ?_
  have silent := h e he
  cases e <;> first | rfl | cases silent

end Record

theorem FrontendMessage.encodeAll_append (as bs : List FrontendMessage) :
    encodeAll (as ++ bs) = encodeAll as ++ encodeAll bs := List.flatMap_append

namespace Connection

variable {c d e : Connection ρ}

structure Silent (c d : Connection ρ) : Prop where
  outbound : d.outbound = c.outbound
  record : ∃ es, d.record = c.record ++ es ∧ ∀ e ∈ es, e.ofStream = false

theorem Still.silent (h : Still c d) : Silent c d := by
  obtain ⟨es, record, quiet⟩ := h.record
  exact ⟨h.outbound, es, record, fun e he => (quiet e he).2⟩

namespace Silent

theorem of_eq (outbound : d.outbound = c.outbound) (record : d.record = c.record) : Silent c d :=
  ⟨outbound, [], by rw [record, List.append_nil], by simp⟩

theorem refl (c : Connection ρ) : Silent c c := of_eq rfl rfl

theorem trans (h : Silent c d) (k : Silent d e) : Silent c e := by
  obtain ⟨as, first, quiet⟩ := h.record
  obtain ⟨bs, second, still⟩ := k.record
  refine ⟨k.outbound.trans h.outbound, as ++ bs, ?_, fun x hx => ?_⟩
  · rw [second, first, List.append_assoc]
  · rcases List.mem_append.mp hx with hx | hx
    · exact quiet x hx
    · exact still x hx

theorem enter {es : List (Entry ρ)} (h : ∀ e ∈ es, e.ofStream = false) : Silent c (c.enter es) :=
  ⟨rfl, es, rfl, h⟩

theorem moveTo (c : Connection ρ) (stage : Stage) : Silent c (c.moveTo stage) := by
  unfold Connection.moveTo
  split
  · exact refl c
  · exact ⟨rfl, [.moved stage], rfl, by simp [Entry.ofStream]⟩

theorem failAll (c : Connection ρ) (cause : Failure) : Silent c (c.failAll cause) := by
  have refused : Silent c (c.refuseAll cause) := by
    unfold refuseAll
    dsimp only
    split
    · refine ⟨rfl, _, rfl, fun e he => ?_⟩
      obtain ⟨w, _, rfl⟩ := List.mem_map.mp he
      rfl
    · exact of_eq rfl rfl
  exact refused.trans (Still.failAll c cause).silent

theorem becomeReady (c : Connection ρ) : Silent c c.becomeReady := by
  refine (moveTo c .ready).trans ⟨rfl, _, rfl, fun e he => ?_⟩
  obtain ⟨w, _, rfl⟩ := List.mem_map.mp he
  rfl

theorem awaitReady (c : Connection ρ) : Silent c c.awaitReady.2 := by
  unfold Connection.awaitReady
  dsimp only
  split
  · exact of_eq rfl rfl
  all_goals exact ⟨rfl, _, rfl, by simp [Entry.ofStream]⟩

theorem message (m : BackendMessage) (stage : c.stage ≠ .authenticating) :
    Silent c (c.onMessage m).after := by
  have taken : Silent c (c.enter [.received m]) := enter (by simp [Entry.ofStream])
  rcases onMessage_cases c m with ⟨_, _, e⟩ | ⟨_, now, _⟩ | ⟨_, _, e⟩ | ⟨_, _, _, _, e⟩
  · exact e ▸ taken.trans (of_eq rfl rfl)
  · exact absurd now stage
  · exact e ▸ taken.trans (Still.answered (onQueryMessage_answered _ m)).silent
  · exact e ▸ taken

end Silent

structure Adds (c d : Connection ρ) : Prop where
  record : ∃ es, d.record = c.record ++ es ∧ (∀ data, .wrote data ∉ es) ∧
    d.outbound.toBytes = c.outbound.toBytes ++ encodeAll (Record.queued es)

namespace Adds

theorem of_silent (h : Silent c d) : Adds c d := by
  obtain ⟨es, record, silent⟩ := h.record
  refine ⟨es, record, fun data wrote => (by cases silent _ wrote), ?_⟩
  rw [h.outbound, Record.queued_eq_nil silent]
  exact (List.append_nil _).symm

theorem of_eq (outbound : d.outbound = c.outbound) (record : d.record = c.record) : Adds c d :=
  of_silent (.of_eq outbound record)

theorem trans (h : Adds c d) (k : Adds d e) : Adds c e := by
  obtain ⟨as, first, quiet, before⟩ := h.record
  obtain ⟨bs, second, still, after⟩ := k.record
  refine ⟨as ++ bs, ?_, fun data wrote => ?_, ?_⟩
  · rw [second, first, List.append_assoc]
  · rcases List.mem_append.mp wrote with wrote | wrote
    · exact quiet data wrote
    · exact still data wrote
  · rw [after, before, Record.queued_append, FrontendMessage.encodeAll_append, List.append_assoc]

theorem queue (c : Connection ρ) (messages : List FrontendMessage) : Adds c (c.queue messages) := by
  refine ⟨[.queued messages], rfl, by simp, (ByteQueue.toBytes_pushPiece _ _).trans ?_⟩
  simp [Record.queued, Entry.queuedMessages]

theorem send (c : Connection ρ) (s : Submission ρ) : Adds c (c.send s) := by
  unfold Connection.send
  split
  · next p _ =>
    have cached : Adds c { c with cache := p.cache } := of_eq rfl rfl
    refine (cached.trans (queue _ p.batch.messages)).trans (of_silent ?_)
    exact ⟨rfl, [.sent s.number p.batch.statement.name], rfl, by simp [Entry.ofStream]⟩
  · exact of_silent (Still.resolve c s.number _).silent

theorem sendStartup (c : Connection ρ) : Adds c c.sendStartup :=
  (queue c [c.config.startupMessage]).trans (of_silent (.moveTo _ .authenticating))

theorem onConnected (c : Connection ρ) : Adds c c.onConnected := by
  unfold Connection.onConnected
  dsimp only
  split
  · have connected : Adds c { c with connected := true } := of_eq rfl rfl
    exact connected.trans (sendStartup _)
  · have asking : Adds c { c with connected := true, awaitingEncryption := true } := of_eq rfl rfl
    exact asking.trans (queue _ _)

theorem onEncryptionAnswer (c : Connection ρ) (byte : UInt8) :
    Adds c (c.onEncryptionAnswer byte).after := by
  have answered : Adds c { c with awaitingEncryption := false } := of_eq rfl rfl
  have encrypted : Adds c { c with
      awaitingEncryption := false, transport := .encrypted none,
      info := { c.info with encrypted := true } } := of_eq rfl rfl
  unfold Connection.onEncryptionAnswer encrypt Turn.andThen
  dsimp only
  repeat' split
  all_goals first
    | exact answered
    | exact encrypted
    | exact answered.trans (sendStartup _)
    | exact encrypted.trans (sendStartup _)

theorem onAuthMessage (c : Connection ρ) (m : BackendMessage) :
    Adds c (c.onAuthMessage m).after := by
  have greeted := onAuthMessage_greeted c m
  generalize c.onAuthMessage m = t at greeted
  cases greeted with
  | refused | satisfied | verified => exact of_eq rfl rfl
  | disclosed => exact queue c _
  | began | proved => exact (queue c _).trans (of_eq rfl rfl)
  | opened status =>
    have told : Adds c { c with transaction := status } := of_eq rfl rfl
    exact told.trans (of_silent (.becomeReady _))

theorem onMessage (c : Connection ρ) (m : BackendMessage) : Adds c (c.onMessage m).after := by
  by_cases stage : c.stage = .authenticating
  · have taken : Adds c (c.enter [.received m]) := of_silent (.enter (by simp [Entry.ofStream]))
    rcases onMessage_cases c m with ⟨_, _, e⟩ | ⟨_, _, e⟩ | ⟨_, _, e⟩ | ⟨_, _, _, _, e⟩
    · exact e ▸ taken.trans (of_eq rfl rfl)
    · exact e ▸ taken.trans (onAuthMessage _ m)
    · exact e ▸ taken.trans (of_silent (Still.answered (onQueryMessage_answered _ m)).silent)
    · exact e ▸ taken
  · exact of_silent (.message m stage)

theorem leave (c : Connection ρ) :
    Adds c (((c.failAll .closed).queue [.terminate]).endChannel.moveTo .closing) :=
  ((of_silent (.failAll c .closed)).trans (queue _ _)).trans
    (of_silent ((Still.endChannel _).silent.trans (.moveTo _ _)))

end Adds

/-- What was written and what is queued are together all messages. -/
def Flows (c : Connection ρ) : Prop :=
  Record.written c.record ++ c.outbound.toBytes = encodeAll (Record.queued c.record)

structure Leaving (c : Connection ρ) : Prop where
  cause : c.inbox.closedBy = some .closed
  holds : c.outbound.toBytes ≠ []
  last : ∃ messages, Record.queued c.record = messages ++ [.terminate]

theorem Flows.adds (h : c.Flows) (adds : Adds c d) : d.Flows := by
  obtain ⟨es, record, quiet, outbound⟩ := adds.record
  rw [Flows, record, outbound, Record.written_append, Record.written_eq_nil quiet, List.append_nil,
    Record.queued_append, FrontendMessage.encodeAll_append, ← List.append_assoc, h]

theorem Flows.flush (h : c.Flows) (answers : List WriteAnswer) :
    (c.flush (c.outbound.writeTo answers)).Flows := by
  have bytes := c.outbound.writeTo_bytes answers
  generalize c.outbound.writeTo answers = w at bytes
  have written :
      Record.written (ρ := ρ) (if w.sent.isEmpty then [] else [.wrote w.sent]) = w.sent := by
    split
    · next nothing => exact (List.isEmpty_iff.mp nothing).symm
    · exact List.append_nil _
  have queued : Record.queued (ρ := ρ) (if w.sent.isEmpty then [] else [.wrote w.sent]) = [] := by
    split <;> rfl
  unfold Flows Connection.flush
  dsimp only [enter]
  rw [Record.written_append, written, Record.queued_append, queued, List.append_nil,
    List.append_assoc, bytes]
  exact h

/-- What was written is a beginning of all messages, and what is queued is the rest of them until the
connection is closed. -/
structure Conveys (c : Connection ρ) : Prop where
  written : Record.written c.record <+: encodeAll (Record.queued c.record)
  flows : c.stage ≠ .closed → c.Flows

theorem Flows.conveys (h : c.Flows) : c.Conveys :=
  ⟨⟨c.outbound.toBytes, h⟩, fun _ => h⟩

theorem abort_quiet (alive : c.stage ≠ .closed) (cause : Failure) :
    (c.abort cause).stage = .closed ∧ (c.abort cause).inbox.closedBy = some cause ∧
      (c.abort cause).outbound = .empty ∧
      Record.queued (c.abort cause).record = Record.queued c.record ∧
      Record.written (c.abort cause).record = Record.written c.record := by
  have silent : Silent c ((c.moveTo .closed).failAll cause) :=
    (Silent.moveTo c .closed).trans (.failAll _ cause)
  obtain ⟨es, record, quiet⟩ := silent.record
  have unwritten : Record.written es = [] :=
    Record.written_eq_nil fun data wrote => by cases quiet _ wrote
  refine ⟨abort_stage c cause, ?_⟩
  rw [Connection.abort, if_neg alive]
  refine ⟨(failAll_frame (c.moveTo .closed) cause).2.1, rfl, ?_, ?_⟩
  all_goals dsimp only
  all_goals rw [record]
  · rw [Record.queued_append, Record.queued_eq_nil quiet, List.append_nil]
  · rw [Record.written_append, unwritten, List.append_nil]

namespace Conveys

theorem start (config : Config) (nonces : Nat → List Char) :
    (Connection.start (ρ := ρ) config nonces).Conveys := Flows.conveys rfl

theorem adds (h : c.Conveys) (alive : d.stage ≠ .closed → c.stage ≠ .closed) (adds : Adds c d) :
    d.Conveys := by
  refine ⟨?_, fun going => (h.flows (alive going)).adds adds⟩
  obtain ⟨es, record, quiet, _⟩ := adds.record
  rw [record, Record.written_append, Record.written_eq_nil quiet, List.append_nil,
    Record.queued_append, FrontendMessage.encodeAll_append]
  exact h.written.trans (List.prefix_append _ _)

theorem silent (h : c.Conveys) (stage : d.stage = c.stage) (silent : Silent c d) : d.Conveys :=
  h.adds (fun going => stage ▸ going) (.of_silent silent)

theorem abort (h : c.Conveys) (cause : Failure) : (c.abort cause).Conveys := by
  by_cases alive : c.stage = .closed
  · rw [Connection.abort, if_pos alive]
    exact h
  · obtain ⟨closed, _, _, queued, written⟩ := abort_quiet alive cause
    refine ⟨?_, fun going => absurd closed going⟩
    rw [queued, written]
    exact h.written

theorem beginClose (h : c.Conveys) : c.beginClose.Conveys := by
  unfold Connection.beginClose
  split
  · next ready => exact h.adds (fun _ => ready ▸ by decide) (.leave c)
  · exact h.abort .closed

theorem write (h : c.Conveys) (socket : Socket) : (c.write socket).after.Conveys := by
  rcases c.write_cases socket with ⟨e, _⟩ | ⟨_, alive, writes⟩
  · exact e ▸ h
  · have flushed := ((h.flows alive).flush socket.writes).conveys
    generalize c.write socket = t at writes
    cases writes with
    | left ending leaving =>
      exact flushed.adds (fun _ => leaving ▸ by decide) (.of_silent (.moveTo _ .closed))
    | drained | blocked | failed => exact flushed

theorem step {K : Consumer ρ → Prop} {t u : Turn ρ} (move : Turn.Move K t u)
    (h : t.after.Conveys) : u.after.Conveys := by
  cases move with
  | submit query params consumer allowed =>
    exact h.silent (submit_stage _ query params consumer) (Still.submit _ query params consumer).silent
  | cancel number => exact h.silent (Turn.Idle.cancel_stage _ number) (Still.cancel _ number).silent
  | awaitReady => exact h.silent (Turn.Idle.awaitReady_stage _) (.awaitReady _)
  | requestClose => exact h.silent rfl (.of_eq rfl rfl)
  | tell cause => exact h.abort cause
  | begin new => exact h.adds (fun _ => new ▸ by decide) (.of_silent (.moveTo _ .connecting))
  | connect alive => exact h.adds (fun _ => alive) (.onConnected _)
  | breakOff i => exact h
  | feed inbound => exact h.silent rfl (.of_eq rfl rfl)
  | learn certificate =>
    exact h.silent (learnCertificate_stage _ certificate) (Still.learnCertificate _ certificate).silent
  | answer byte alive => exact h.adds (fun _ => alive) (.onEncryptionAnswer _ byte)
  | message m alive => exact h.adds (fun _ => alive) (.onMessage _ m)
  | part leaving => exact h.adds (fun _ => leaving ▸ by decide) (.of_silent (.moveTo _ .closed))
  | collect => exact h.silent rfl (.of_eq rfl rfl)
  | close => exact h.beginClose
  | drop => exact h.silent (dropCancelled_stage _) (Still.dropCancelled _).silent
  | @send c s rest ready first kept =>
    have taken : Adds c { c with pending := rest } := .of_eq rfl rfl
    exact h.adds (fun _ => ready ▸ by decide) (taken.trans (.send _ s))
  | write socket => exact h.write socket

end Conveys

theorem Leaving.silent (h : c.Leaving) (same : d.inbox.closedBy = c.inbox.closedBy)
    (silent : Silent c d) : d.Leaving := by
  obtain ⟨es, record, quiet⟩ := silent.record
  refine ⟨same.trans h.cause, ?_, ?_⟩
  · rw [silent.outbound]
    exact h.holds
  · rw [record, Record.queued_append, Record.queued_eq_nil quiet, List.append_nil]
    exact h.last

/-- A connection that is closing has yet to take its leave. -/
def Leaves (c : Connection ρ) : Prop := c.stage = .closing → c.Leaving

namespace Leaves

theorem of_stage (staying : c.stage ≠ .closing) : c.Leaves := fun closing => absurd closing staying

theorem silent (h : c.Leaves) (stage : d.stage = c.stage)
    (same : d.inbox.closedBy = c.inbox.closedBy) (silent : Silent c d) : d.Leaves :=
  fun closing => (h (stage ▸ closing)).silent same silent

theorem still (h : c.Leaves) (still : Still c d) : d.Leaves :=
  h.silent (congrArg Shell.stage still.shell) (congrArg Shell.closedBy still.shell) still.silent

theorem beginClose (c : Connection ρ) : c.beginClose.Leaves := by
  unfold Connection.beginClose
  split
  · intro _
    -- What is queued last is the leave, and the queue ends with its bytes.
    have silent : Silent ((c.failAll .closed).queue [.terminate])
        (((c.failAll .closed).queue [.terminate]).endChannel.moveTo .closing) :=
      (Still.endChannel _).silent.trans (.moveTo _ _)
    obtain ⟨es, record, quiet⟩ := silent.record
    refine ⟨?_, ?_, Record.queued (c.failAll .closed).record, ?_⟩
    · exact (congrArg Work.closedBy (Aside.leave (c.failAll .closed)).work).trans
        (failAll_frame c .closed).2.1
    · rw [silent.outbound]
      refine fun nothing => List.append_ne_nil_of_right_ne_nil _ ?_
        ((ByteQueue.toBytes_pushPiece _ _).symm.trans nothing)
      decide
    · rw [record, Record.queued_append, Record.queued_eq_nil quiet, List.append_nil]
      exact Record.queued_append _ _
  · exact of_stage (by rw [abort_stage]; decide)

theorem onMessage (h : c.Leaves) (alive : c.stage ≠ .closed) (m : BackendMessage) :
    (c.onMessage m).after.Leaves := by
  intro closing
  have before : c.stage = .closing := by
    have ending := EndsForCause.onMessage_ending (c := c) (m := m) (closing ▸ rfl)
    cases stage : c.stage <;> simp [stage, Stage.isEnding] at ending
    · rfl
    · exact absurd stage alive
  exact (h before).silent (EndsForCause.onMessage_closedBy c m) (.message m (before ▸ by decide))

theorem write (h : c.Leaves) (socket : Socket) : (c.write socket).after.Leaves := by
  rcases c.write_cases socket with ⟨e, _⟩ | ⟨_, _, writes⟩
  · exact e ▸ h
  · have drained := c.outbound.writeTo_drained socket.writes
    generalize c.outbound.writeTo socket.writes = w at writes drained
    have flushed (left : w.queue.toBytes ≠ []) : (c.flush w).Leaves := by
      intro closing
      obtain ⟨cause, _, last⟩ := h closing
      refine ⟨cause, left, ?_⟩
      have queued : Record.queued (c.flush w).record = Record.queued c.record := by
        unfold Connection.flush
        dsimp only [enter]
        split <;> simp [Record.queued, Entry.queuedMessages]
      exact queued ▸ last
    generalize c.write socket = t at writes
    cases writes with
    | left ending leaving => exact of_stage (by rw [Turn.done, moveTo_stage]; decide)
    | drained ending staying => exact of_stage staying
    | blocked ending => exact flushed fun nothing => by simp [drained.mpr nothing] at ending
    | failed ending => exact flushed fun nothing => by simp [drained.mpr nothing] at ending

end Leaves

end Connection

namespace Turn

open Connection

theorem moves_conveys {K : Consumer ρ → Prop} {t u : Turn ρ} (moves : Moves K t u)
    (h : t.after.Conveys) : u.after.Conveys :=
  moves_invariant (P := fun t => t.after.Conveys) Conveys.step moves h

theorem run_conveys (config : Config) (nonces : Nat → List Char) (actions : List (Action ρ)) :
    ((done (.start config nonces)).run actions).after.Conveys :=
  moves_conveys (run_moves _ fun a _ => allows_any a) (.start config nonces)

theorem drive_conveys (config : Config) (nonces : Nat → List Char) (actions : List (Action ρ)) :
    ((done (.start config nonces)).drive actions).after.Conveys :=
  moves_conveys (drive_moves _ actions) (.start config nonces)

theorem leaves_serves :
    Serves (ρ := ρ) fun t u =>
      t.after.Course ∧ t.after.Leaves → u.after.Course ∧ u.after.Leaves where
  begin {c} new := fun ⟨course, _⟩ => ⟨Course.serves.begin new course,
    .of_stage (by simp [Turn.done, moveTo_stage])⟩
  breakOff _ h := h
  feed inbound h := ⟨Course.serves.feed inbound h.1, h.2.still (.of_eq rfl rfl rfl)⟩
  learn certificate h := ⟨Course.serves.learn certificate h.1,
    h.2.still (.learnCertificate _ certificate)⟩
  answer {c} byte alive awaiting := fun ⟨course, _⟩ => by
    refine ⟨Course.serves.answer byte alive awaiting course, .of_stage fun closing => ?_⟩
    -- The question about encryption is open only before messages pass.
    have after : (c.onEncryptionAnswer byte).after.stage.isEnding = true := closing ▸ rfl
    have ending : c.stage.isEnding = true := Idle.onEncryptionAnswer_ending after
    cases stage : c.stage <;> simp [stage, Stage.isEnding] at ending
    · have asked := (course.talks (stage ▸ rfl)).2
      exact Bool.false_ne_true (asked.symm.trans awaiting)
    · exact alive stage
  message m alive h := ⟨Course.serves.message m alive h.1, h.2.onMessage alive m⟩
  part leaving h := ⟨Course.serves.part leaving h.1, .of_stage (by rw [done, moveTo_stage]; decide)⟩
  collect h := ⟨Course.serves.collect h.1, h.2.still (.of_eq rfl rfl rfl)⟩
  close h := ⟨Course.serves.close h.1, .beginClose _⟩
  drop h := ⟨Course.serves.drop h.1, h.2.still (.dropCancelled _)⟩
  send {c s rest} ready first kept := fun ⟨course, _⟩ => by
    refine ⟨Course.serves.send ready first kept course, .of_stage ?_⟩
    rw [Turn.done, (send_frame _ s).1, ready]
    decide
  write socket h := ⟨Course.serves.write socket h.1, h.2.write socket⟩

theorem leaves_persists : Persists (ρ := ρ) fun c => c.Course ∧ c.Leaves where
  serves := leaves_serves
  connect {c} alive fresh := fun ⟨course, _⟩ => by
    refine ⟨course.onConnected alive fresh, .of_stage fun closing => ?_⟩
    have ending : c.stage.isEnding = true := Idle.onConnected_ending (closing ▸ rfl)
    cases stage : c.stage <;> simp [stage, Stage.isEnding] at ending
    · exact Bool.false_ne_true (fresh.symm.trans (course.talks (stage ▸ rfl)).1)
    · exact alive stage
  request {t a} asked := fun ⟨course, leaves⟩ => by
    refine ⟨course_persists.request asked course, ?_⟩
    cases a with
    | submit query params consumer => exact leaves.still (.submit _ query params consumer)
    | cancel number => exact leaves.still (.cancel _ number)
    | awaitReady =>
      refine leaves.silent ?_ ?_ (.awaitReady _)
      all_goals
        unfold act request Connection.awaitReady
        dsimp only
        split <;> rfl
    | requestClose => exact leaves.still (.of_eq rfl rfl rfl)
    | dispatch event socket => exact absurd rfl (asked event socket)
    | tell cause => exact .of_stage (by rw [act, done, abort_stage]; decide)

theorem drive_leaving (config : Config) (nonces : Nat → List Char) (actions : List (Action ρ)) :
    ((done (.start config nonces)).drive actions).after.Leaves :=
  (leaves_persists.drive ⟨.start config nonces, fun closing => by cases closing⟩ actions).2

end Turn

end PgPipeline
