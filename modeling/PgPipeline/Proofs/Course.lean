import PgPipeline.Loop.History
import PgPipeline.Proofs.Answer
import PgPipeline.Proofs.Settling

namespace PgPipeline

variable {ρ : Type}

def Stage.isTalking : Stage → Bool
  | authenticating => true
  | ready => true
  | closing => true
  | _ => false

namespace Entry

def ofCourse : Entry ρ → Bool
  | .moved _ => true
  | .informed .. => true
  | _ => false

def ofStream : Entry ρ → Bool
  | .queued _ => true
  | .wrote _ => true
  | _ => false

def waiter? : Entry ρ → Option Nat
  | .informed waiter _ => some waiter
  | _ => none

end Entry

namespace Record

/-- Every stage that is entered comes after the one before, the first one after the one given. -/
def Climbs : Stage → List (Entry ρ) → Prop
  | _, [] => True
  | s, e :: rest => (∀ next, e = .moved next → s.rank < next.rank) ∧ Climbs (e.stageAfter s) rest

def informed (es : List (Entry ρ)) : List Nat := es.filterMap Entry.waiter?

variable {s : Stage} {as bs es : List (Entry ρ)}

@[simp] theorem informed_append : informed (as ++ bs) = informed as ++ informed bs :=
  List.filterMap_append

theorem climbs_append : Climbs s (as ++ bs) ↔ Climbs s as ∧ Climbs (stageFrom s as) bs := by
  induction as generalizing s with
  | nil => simp [Climbs, stageFrom]
  | cons e rest ih =>
    rw [List.cons_append, Climbs, Climbs, ih, and_assoc]
    rfl

theorem Climbs.rank_le (h : Climbs s es) : s.rank ≤ (stageFrom s es).rank := by
  induction es generalizing s with
  | nil => exact Nat.le_refl _
  | cons e rest ih =>
    refine Nat.le_trans ?_ (ih h.2)
    cases e with
    | moved next => exact Nat.le_of_lt (h.1 next rfl)
    | _ => exact Nat.le_refl _

theorem climbs_still (h : ∀ next, .moved next ∉ es) : Climbs s es ∧ stageFrom s es = s := by
  induction es with
  | nil => exact ⟨trivial, rfl⟩
  | cons e rest ih =>
    have stage : e.stageAfter s = s := by
      cases e with
      | moved next => exact absurd List.mem_cons_self (h next)
      | _ => rfl
    obtain ⟨climbs, same⟩ := ih fun next mem => h next (List.mem_cons_of_mem _ mem)
    refine ⟨⟨?_, stage.symm ▸ climbs⟩, ?_⟩
    · rintro next rfl
      exact absurd List.mem_cons_self (h next)
    · rw [stageFrom, List.foldl_cons, stage]
      exact same

theorem informed_eq_nil (h : ∀ e ∈ es, e.ofCourse = false) : informed es = [] := by
  refine List.filterMap_eq_nil_iff.mpr fun e he => ?_
  have still := h e he
  cases e <;> first | rfl | cases still

theorem informed_map (waiters : List Nat) (result : Except Failure ServerInfo) :
    informed (ρ := ρ) (waiters.map fun w => .informed w result) = waiters := by
  rw [informed, List.filterMap_map]
  exact List.filterMap_some

end Record

structure Shell where
  stage : Stage
  shown : Stage
  connected : Bool
  awaitingEncryption : Bool
  readiness : Readiness
  nextWaiter : Nat
  closedBy : Option Failure

namespace Connection

def shell (c : Connection ρ) : Shell :=
  ⟨c.stage, c.inbox.stage, c.connected, c.awaitingEncryption, c.inbox.readiness, c.inbox.nextWaiter,
    c.inbox.closedBy⟩

structure Still (c d : Connection ρ) : Prop where
  shell : d.shell = c.shell
  outbound : d.outbound = c.outbound
  record : ∃ es, d.record = c.record ++ es ∧ ∀ e ∈ es, e.ofCourse = false ∧ e.ofStream = false

namespace Still

variable {c d e : Connection ρ}

theorem of_eq (shell : d.shell = c.shell) (outbound : d.outbound = c.outbound)
    (record : d.record = c.record) : Still c d :=
  ⟨shell, outbound, [], by rw [record, List.append_nil], by simp⟩

theorem refl (c : Connection ρ) : Still c c := of_eq rfl rfl rfl

theorem trans (h : Still c d) (k : Still d e) : Still c e := by
  obtain ⟨as, first, quiet⟩ := h.record
  obtain ⟨bs, second, still⟩ := k.record
  refine ⟨k.shell.trans h.shell, k.outbound.trans h.outbound, as ++ bs, ?_, fun x hx => ?_⟩
  · rw [second, first, List.append_assoc]
  · rcases List.mem_append.mp hx with hx | hx
    · exact quiet x hx
    · exact still x hx

theorem enter {es : List (Entry ρ)} (h : ∀ e ∈ es, e.ofCourse = false ∧ e.ofStream = false) :
    Still c (c.enter es) :=
  ⟨rfl, rfl, es, rfl, h⟩

theorem resolve (c : Connection ρ) (n : Nat) (result : Except Failure ρ) :
    Still c (c.resolve n result) := by
  refine ⟨rfl, rfl, _, rfl, fun e he => ?_⟩
  obtain ⟨r, _, rfl⟩ := List.mem_map.mp he
  exact ⟨rfl, rfl⟩

theorem resolveAll (c : Connection ρ) (ss : List (Submission ρ)) (result : Except Failure ρ) :
    Still c (c.resolveAll ss result) := by
  unfold Connection.resolveAll
  induction ss generalizing c with
  | nil => exact refl c
  | cons s rest ih => exact (resolve c s.number result).trans (ih _)

theorem releaseHeld (c : Connection ρ) : Still c c.releaseHeld := by
  refine ⟨rfl, rfl, _, rfl, fun e he => ?_⟩
  obtain ⟨r, _, rfl⟩ := List.mem_map.mp he
  exact ⟨rfl, rfl⟩

theorem failAll (c : Connection ρ) (cause : Failure) :
    Still (c.refuseAll cause) (c.failAll cause) := by
  have emptied : Still (c.refuseAll cause) { c.refuseAll cause with
      inFlight := [], pending := [], inbox := { (c.refuseAll cause).inbox with queue := [] } } :=
    of_eq rfl rfl rfl
  exact (emptied.trans (resolveAll _ _ _)).trans (releaseHeld _)

theorem dropCancelled (c : Connection ρ) : Still c c.dropCancelled := by
  have kept (kept : List (Submission ρ)) : Still c { c with pending := kept } := of_eq rfl rfl rfl
  exact (kept _).trans (resolveAll _ _ _)

theorem submit (c : Connection ρ) (query : String) (params : List Param) (consumer : Consumer ρ) :
    Still c (c.submit query params consumer).2 := by
  unfold Connection.submit
  dsimp only
  split
  · exact ⟨rfl, rfl, _, rfl, by simp [Entry.ofCourse, Entry.ofStream]⟩
  · exact of_eq rfl rfl rfl

theorem cancel (c : Connection ρ) (number : Nat) : Still c (c.cancel number) := by
  unfold Connection.cancel
  split
  · exact of_eq rfl rfl rfl
  · exact refl c

theorem endChannel (c : Connection ρ) : Still c c.endChannel := by
  unfold Connection.endChannel
  split
  · exact refl c
  · exact enter (by simp [Entry.ofCourse, Entry.ofStream])

theorem learnCertificate (c : Connection ρ) (certificate : Option Bytes) :
    Still c (c.learnCertificate certificate) := by
  unfold Connection.learnCertificate
  split
  · exact of_eq rfl rfl rfl
  · exact refl c

theorem finished {f : Flight ρ} {t : Turn ρ} (h : Finished c f t) : Still c t.after := by
  cases h with
  | told result attends =>
    have concluded : Still c (c.enter [.concluded f.submission.number f.summary]) :=
      enter (by simp [Entry.ofCourse, Entry.ofStream])
    exact concluded.trans (resolve _ _ _)
  | broke text attends crash =>
    have concluded : Still c (c.enter [.concluded f.submission.number f.summary]) :=
      enter (by simp [Entry.ofCourse, Entry.ofStream])
    exact concluded.trans (enter (by simp [Entry.ofCourse, Entry.ofStream]))
  | failed cache failure =>
    have forgot : Still c { c with cache } := of_eq rfl rfl rfl
    exact forgot.trans (resolve _ _ _)
  | again cache left kept => exact of_eq rfl rfl rfl

theorem answered {m : BackendMessage} {t : Turn ρ} (h : Answered c m t) : Still c t.after := by
  cases h with
  | offered | broke => exact ⟨rfl, rfl, _, rfl, by simp [Entry.ofCourse, Entry.ofStream]⟩
  | finished status head result =>
    refine trans ?_ (finished result)
    exact ⟨rfl, rfl, _, rfl, by simp [Entry.ofCourse, Entry.ofStream]⟩
  | _ => exact of_eq rfl rfl rfl

end Still

structure Stays (c d : Connection ρ) : Prop where
  shell : d.shell = c.shell
  record : ∃ es, d.record = c.record ++ es ∧ ∀ e ∈ es, e.ofCourse = false

theorem Still.stays {c d : Connection ρ} (h : Still c d) : Stays c d := by
  obtain ⟨es, record, quiet⟩ := h.record
  exact ⟨h.shell, es, record, fun e he => (quiet e he).1⟩

namespace Stays

variable {c d e : Connection ρ}

theorem of_eq (shell : d.shell = c.shell) (record : d.record = c.record) : Stays c d :=
  ⟨shell, [], by rw [record, List.append_nil], by simp⟩

theorem trans (h : Stays c d) (k : Stays d e) : Stays c e := by
  obtain ⟨as, first, quiet⟩ := h.record
  obtain ⟨bs, second, still⟩ := k.record
  refine ⟨k.shell.trans h.shell, as ++ bs, ?_, fun x hx => ?_⟩
  · rw [second, first, List.append_assoc]
  · rcases List.mem_append.mp hx with hx | hx
    · exact quiet x hx
    · exact still x hx

theorem enter {es : List (Entry ρ)} (h : ∀ e ∈ es, e.ofCourse = false) : Stays c (c.enter es) :=
  ⟨rfl, es, rfl, h⟩

theorem queue (c : Connection ρ) (messages : List FrontendMessage) : Stays c (c.queue messages) :=
  ⟨rfl, [.queued messages], rfl, by simp [Entry.ofCourse]⟩

theorem send (c : Connection ρ) (s : Submission ρ) : Stays c (c.send s) := by
  unfold Connection.send
  split
  · next p _ =>
    have queued : Stays c (({ c with cache := p.cache } : Connection ρ).queue p.batch.messages) :=
      ⟨rfl, [.queued p.batch.messages], rfl, by simp [Entry.ofCourse]⟩
    exact queued.trans ⟨rfl, [.sent s.number p.batch.statement.name], rfl, by simp [Entry.ofCourse]⟩
  · exact (Still.resolve c s.number _).stays

end Stays

def flush (c : Connection ρ) (w : Written) : Connection ρ :=
  ({ c with outbound := w.queue } : Connection ρ).enter
    (if w.sent.isEmpty then [] else [.wrote w.sent])

inductive Writes (c : Connection ρ) (w : Written) : Turn ρ → Prop
  | left (ending : w.ending = .drained) (leaving : c.stage = .closing) :
      Writes c w (.done ((c.flush w).moveTo .closed))
  | drained (ending : w.ending = .drained) (staying : c.stage ≠ .closing) :
      Writes c w (.done (c.flush w))
  | blocked (ending : w.ending = .blocked) : Writes c w (.done (c.flush w))
  | failed {text : String} (ending : w.ending = .failed text) :
      Writes c w ⟨c.flush w, some (.failed (.io text))⟩

theorem write_cases (c : Connection ρ) (socket : Socket) :
    c.write socket = .done c ∧ (c.connected = false ∨ c.stage = .closed) ∨
      c.connected = true ∧ c.stage ≠ .closed ∧
        Writes c (c.outbound.writeTo socket.writes) (c.write socket) := by
  by_cases idle : ¬ c.connected ∨ c.stage = .closed
  · refine .inl ⟨by rw [write, if_pos idle], ?_⟩
    simpa using idle
  · refine .inr ?_
    obtain ⟨connected, alive⟩ := not_or.mp idle
    refine ⟨by simpa using connected, alive, ?_⟩
    rw [write, if_neg idle]
    dsimp only
    generalize c.outbound.writeTo socket.writes = w
    cases ending : w.ending with
    | drained =>
      change Writes c w (.done (if (c.flush w).stage = .closing then (c.flush w).moveTo .closed
        else c.flush w))
      split
      · next leaving => exact .left ending leaving
      · next staying => exact .drained ending staying
    | blocked => exact .blocked ending
    | failed text => exact .failed ending

namespace Stays

theorem flush (c : Connection ρ) (w : Written) : Stays c (c.flush w) := by
  refine ⟨rfl, _, rfl, fun e he => ?_⟩
  split at he
  · cases he
  · rw [List.mem_singleton.mp he]
    rfl

end Stays

def Waits (c : Connection ρ) : Prop :=
  match c.inbox.readiness with
  | .pending waiters => waiters = List.range c.inbox.nextWaiter ∧ Record.informed c.record = [] ∧
      c.inbox.closedBy = none
  | _ => Record.informed c.record = List.range c.inbox.nextWaiter

structure Course (c : Connection ρ) : Prop where
  told : c.stage = Record.stage c.record
  shown : c.inbox.stage = c.stage
  climbs : Record.Climbs .disconnected c.record
  talks : c.stage.isTalking = true → c.connected = true ∧ c.awaitingEncryption = false
  awaits : c.awaitingEncryption = true → c.connected = true
  waits : c.Waits

namespace Course

variable {c d : Connection ρ}

theorem start (config : Config) (nonces : Nat → List Char) :
    (Connection.start (ρ := ρ) config nonces).Course :=
  ⟨rfl, rfl, trivial, fun talking => (by cases talking), fun awaiting => (by cases awaiting),
    rfl, rfl, rfl⟩

theorem goOn (h : c.Course) {es : List (Entry ρ)} (stage : d.stage = c.stage)
    (shown : d.inbox.stage = c.inbox.stage) (connected : d.connected = c.connected)
    (awaiting : d.awaitingEncryption = c.awaitingEncryption) (record : d.record = c.record ++ es)
    (still : ∀ next, .moved next ∉ es) (waits : d.Waits) : d.Course := by
  refine ⟨?_, ?_, ?_, ?_, ?_, waits⟩
  · rw [stage, record, Record.stage_append, (Record.climbs_still still).2]
    exact h.told
  · exact shown.trans (h.shown.trans stage.symm)
  · rw [record]
    exact Record.climbs_append.mpr ⟨h.climbs, (Record.climbs_still still).1⟩
  · rw [stage, connected, awaiting]
    exact h.talks
  · rw [connected, awaiting]
    exact h.awaits

theorem stays (h : c.Course) (still : Stays c d) : d.Course := by
  obtain ⟨es, record, quiet⟩ := still.record
  refine h.goOn (congrArg Shell.stage still.shell) (congrArg Shell.shown still.shell)
    (congrArg Shell.connected still.shell) (congrArg Shell.awaitingEncryption still.shell) record
    (fun next mem => by cases quiet _ mem) ?_
  have readiness : d.inbox.readiness = c.inbox.readiness := congrArg Shell.readiness still.shell
  have nextWaiter : d.inbox.nextWaiter = c.inbox.nextWaiter :=
    congrArg Shell.nextWaiter still.shell
  have closedBy : d.inbox.closedBy = c.inbox.closedBy := congrArg Shell.closedBy still.shell
  have same : Record.informed d.record = Record.informed c.record := by
    rw [record, Record.informed_append, Record.informed_eq_nil quiet, List.append_nil]
  rw [Waits, readiness, same, nextWaiter, closedBy]
  exact h.waits

theorem moveTo (h : c.Course) {stage : Stage} (later : c.stage.rank < stage.rank)
    (place : stage.isTalking = true → c.connected = true ∧ c.awaitingEncryption = false) :
    (c.moveTo stage).Course := by
  have other : c.stage ≠ stage := fun same => Nat.lt_irrefl _ (same ▸ later)
  have told := h.told
  rw [Connection.moveTo, if_neg other]
  refine ⟨?_, rfl, ?_, place, h.awaits, ?_⟩
  · rw [enter, Record.stage_append]
    rfl
  · refine Record.climbs_append.mpr ⟨h.climbs, ?_, trivial⟩
    intro next same
    obtain rfl := Entry.moved.inj same
    rw [told] at later
    exact later
  · have same : Record.informed (c.record ++ [.moved stage]) = Record.informed c.record := by
      simp [Record.informed, Entry.waiter?]
    simp only [Waits, enter, same]
    exact h.waits

theorem refuseAll (h : c.Course) (cause : Failure) : (c.refuseAll cause).Course := by
  have waits := h.waits
  unfold Connection.refuseAll
  unfold Waits at waits
  dsimp only
  split
  · next waiters pending =>
    rw [pending] at waits
    refine h.goOn rfl rfl rfl rfl rfl (by simp) ?_
    simp only [Waits, enter, Record.informed_append, waits.2.1, Record.informed_map]
    exact waits.1
  · next told =>
    refine h.goOn rfl rfl rfl rfl (List.append_nil _).symm (by simp) ?_
    cases readiness : c.inbox.readiness with
    | pending waiters => exact absurd readiness (told waiters)
    | ready info | failed f =>
      rw [readiness] at waits
      simpa only [Waits, readiness] using waits

theorem failAll (h : c.Course) (cause : Failure) : (c.failAll cause).Course := by
  unfold Connection.failAll
  dsimp only
  exact (h.refuseAll cause).stays (Still.failAll c cause).stays

theorem rank_lt (alive : c.stage ≠ .closed) : c.stage.rank < Stage.closed.rank := by
  cases h : c.stage <;> first | exact absurd h alive | decide

theorem abort (h : c.Course) (cause : Failure) : (c.abort cause).Course := by
  unfold Connection.abort
  split
  · exact h
  · next alive =>
    have moved := h.moveTo (rank_lt alive) fun talking => by cases talking
    exact (moved.failAll cause).stays (.of_eq rfl rfl)

theorem beginClose (h : c.Course) : c.beginClose.Course := by
  unfold Connection.beginClose
  split
  · next ready =>
    have left : Stays (c.failAll .closed) ((c.failAll .closed).queue [.terminate]).endChannel :=
      (Stays.queue _ _).trans (Still.endChannel _).stays
    have course := (h.failAll .closed).stays left
    have stage : (((c.failAll .closed).queue [.terminate]).endChannel).stage = .ready :=
      (congrArg Shell.stage left.shell).trans ((failAll_stage c .closed).trans ready)
    exact course.moveTo (stage ▸ by decide) fun _ => course.talks (stage ▸ rfl)
  · exact h.abort .closed

theorem becomeReady (h : c.Course) (stage : c.stage = .authenticating) :
    c.becomeReady.Course := by
  have later : c.stage.rank < Stage.ready.rank := stage ▸ by decide
  have moved := h.moveTo later fun _ => h.talks (stage ▸ rfl)
  have waits := moved.waits
  unfold Waits at waits
  unfold Connection.becomeReady
  dsimp only
  refine moved.goOn rfl rfl rfl rfl rfl (by simp) ?_
  simp only [Waits, enter, Record.informed_append, Record.informed_map]
  cases readiness : (c.moveTo .ready).inbox.readiness with
  | pending waiters =>
    rw [readiness] at waits
    rw [waits.2.1]
    exact waits.1
  | ready info | failed f =>
    rw [readiness] at waits
    exact (List.append_nil _).trans waits

theorem onAuthMessage (h : c.Course) (stage : c.stage = .authenticating) (m : BackendMessage) :
    (c.onAuthMessage m).after.Course := by
  unfold Connection.onAuthMessage onAuthenticationOk beginExchange onChallenge onSignature
    withPassword
  cases m
  case readyForQuery status =>
    dsimp only
    split
    · have noted : Course { c with transaction := status } := h.stays (.of_eq rfl rfl)
      exact noted.becomeReady stage
    · exact h
  all_goals dsimp only [Turn.done, Turn.fail]
  all_goals repeat' split
  all_goals first
    | exact h.stays (.of_eq rfl rfl)
    | exact h.stays (.queue _ _)
    | exact h.stays ((Stays.queue _ _).trans (.of_eq rfl rfl))

theorem onMessage (h : c.Course) (m : BackendMessage) : (c.onMessage m).after.Course := by
  have received : (c.enter [.received m]).Course := h.stays (.enter (by simp [Entry.ofCourse]))
  rcases onMessage_cases c m with ⟨_, _, e⟩ | ⟨_, stage, e⟩ | ⟨_, _, e⟩ | ⟨_, _, _, _, e⟩ <;> rw [e]
  · exact received.stays (.of_eq rfl rfl)
  · exact received.onAuthMessage stage m
  · exact received.stays (Still.answered (onQueryMessage_answered _ m)).stays
  · exact received

theorem write (h : c.Course) (socket : Socket) : (c.write socket).after.Course := by
  rcases c.write_cases socket with ⟨e, _⟩ | ⟨_, _, writes⟩
  · rw [e]
    exact h
  · generalize c.outbound.writeTo socket.writes = w at writes
    generalize c.write socket = t at writes
    have flushed := h.stays (.flush c w)
    cases writes with
    | left ending leaving =>
      refine flushed.moveTo ?_ fun talking => by cases talking
      rw [show (c.flush w).stage = .closing from leaving]
      decide
    | drained | blocked | failed => exact flushed

theorem sendStartup (h : c.Course) (early : c.stage.rank < Stage.authenticating.rank)
    (connected : c.connected = true) (answered : c.awaitingEncryption = false) :
    c.sendStartup.Course :=
  (h.stays (.queue _ _)).moveTo early fun _ => ⟨connected, answered⟩

/-- A stage in which no messages pass comes before those in which they do, unless it is the last. -/
theorem early (alive : c.stage ≠ .closed) (silent : c.stage.isTalking = false) :
    c.stage.rank < Stage.authenticating.rank := by
  cases h : c.stage <;> first | decide | exact absurd h alive | exact absurd (h ▸ silent) (by decide)

theorem onConnected (h : c.Course) (alive : c.stage ≠ .closed) (fresh : c.connected = false) :
    c.onConnected.Course := by
  have silent : c.stage.isTalking = false := by
    refine Bool.eq_false_iff.mpr fun talking => ?_
    exact Bool.false_ne_true (fresh.symm.trans (h.talks talking).1)
  have unasked : c.awaitingEncryption = false := by
    refine Bool.eq_false_iff.mpr fun awaiting => ?_
    exact Bool.false_ne_true (fresh.symm.trans (h.awaits awaiting))
  have connected (awaiting : Bool) :
      Course { c with connected := true, awaitingEncryption := awaiting } := by
    refine ⟨h.told, h.shown, h.climbs, fun talking => ?_, fun _ => rfl, h.waits⟩
    exact absurd (silent.symm.trans talking) Bool.false_ne_true
  unfold Connection.onConnected
  dsimp only
  split
  · have plain := connected c.awaitingEncryption
    exact plain.sendStartup (early alive silent) rfl unasked
  · exact (connected true).stays (.queue _ _)

theorem onEncryptionAnswer (h : c.Course) (alive : c.stage ≠ .closed)
    (awaiting : c.awaitingEncryption = true) (byte : UInt8) :
    (c.onEncryptionAnswer byte).after.Course := by
  have silent : c.stage.isTalking = false := by
    refine Bool.eq_false_iff.mpr fun talking => ?_
    exact Bool.false_ne_true ((h.talks talking).2.symm.trans awaiting)
  have connected : c.connected = true := h.awaits awaiting
  have answered : Course { c with awaitingEncryption := false } := by
    refine ⟨h.told, h.shown, h.climbs, fun _ => ⟨connected, rfl⟩, fun asked => ?_, h.waits⟩
    cases asked
  have rank := early alive silent
  have encrypted : Course { c with
      awaitingEncryption := false, transport := .encrypted none,
      info := { c.info with encrypted := true } } := answered.stays (.of_eq rfl rfl)
  unfold Connection.onEncryptionAnswer encrypt Turn.andThen
  dsimp only
  repeat' split
  all_goals first
    | exact answered
    | exact encrypted
    | exact answered.sendStartup rank connected rfl
    | exact encrypted.sendStartup rank connected rfl

theorem awaitReady (h : c.Course) : c.awaitReady.2.Course := by
  have told (w : Nat) (result : Except Failure ServerInfo) :
      Record.informed (ρ := ρ) [.informed w result] = [w] := rfl
  have waits := h.waits
  unfold Connection.awaitReady
  unfold Waits at waits
  dsimp only
  split
  · next waiters pending =>
    rw [pending] at waits
    refine h.goOn rfl rfl rfl rfl (List.append_nil _).symm (by simp) ?_
    simp only [Waits, waits.2.1, waits.2.2, List.range_succ, waits.1, and_self]
  · next info ready =>
    rw [ready] at waits
    have waits : Record.informed c.record = List.range c.inbox.nextWaiter := waits
    refine h.goOn rfl rfl rfl rfl rfl (by simp) ?_
    simp [Waits, enter, ready, waits, List.range_succ, told]
  · next f failed =>
    rw [failed] at waits
    have waits : Record.informed c.record = List.range c.inbox.nextWaiter := waits
    refine h.goOn rfl rfl rfl rfl rfl (by simp) ?_
    simp [Waits, enter, failed, waits, List.range_succ, told]

theorem serves :
    Turn.Serves (ρ := ρ) fun t u => t.after.Course → u.after.Course where
  begin new h := h.moveTo (new ▸ by decide) fun talking => by cases talking
  breakOff i h := h
  feed inbound h := h.stays (.of_eq rfl rfl)
  learn certificate h := h.stays (Still.learnCertificate _ certificate).stays
  answer byte alive awaiting h := h.onEncryptionAnswer alive awaiting byte
  message m alive h := h.onMessage m
  part leaving h := h.moveTo (leaving ▸ by decide) fun talking => by cases talking
  collect h := h.stays (.of_eq rfl rfl)
  close h := h.beginClose
  drop h := h.stays (Still.dropCancelled _).stays
  send {c} {s} {rest} _ _ _ h := by
    have taken : Course { c with pending := rest } := h.stays (.of_eq rfl rfl)
    exact taken.stays (.send _ s)
  write socket h := h.write socket

end Course

end Connection

/-- A loop tells a connection that its socket is connected only while it waits for that. -/
def Action.isTimely (c : Connection ρ) : Action ρ → Bool
  | .dispatch .connected socket => Connection.behaviour.isConnecting (c, socket)
  | _ => true

/-- Services that pay no heed to a socket that is connected unless they wait for it. -/
def Behaviour.timely {σ : Type} (b : Behaviour σ) : Behaviour σ :=
  { b with dispatch := fun s event =>
      if event = .connected ∧ b.isConnecting s = false then ⟨s, [], none⟩ else b.dispatch s event }

namespace Loop

variable {σ : Type} (b : Behaviour σ) (l : Loop σ)

theorem dispatch_timely {token : Token} {event : LoopEvent}
    (due : event = .connected → ∀ r, l.service? token = some r → b.isConnecting r.service = true) :
    l.dispatch b.timely token event = l.dispatch b token event := by
  unfold dispatch
  split
  · rfl
  · next r found =>
    have same : b.timely.dispatch r.service event = b.dispatch r.service event := by
      apply if_neg
      rintro ⟨rfl, idle⟩
      exact Bool.false_ne_true (idle.symm.trans (due rfl r found))
    rw [same]
    rfl

theorem dispatch_other {token : Token} {event : LoopEvent} (other : event ≠ .connected) :
    l.dispatch b.timely token event = l.dispatch b token event :=
  dispatch_timely b l fun connected => absurd connected other

theorem obey_timely (command : Command σ) : l.obey b.timely command = l.obey b command := by
  cases command with
  | register token service =>
    have sockets : b.timely.hasSocket = b.hasSocket := rfl
    have told : b.timely.onError = b.onError := rfl
    unfold obey add
    dsimp only
    rw [sockets, told, dispatch_other b _ (by simp)]
  | notify token => rfl
  | deregister token => rfl

theorem drain_timely : l.drain b.timely = l.drain b := by
  have obeyed : obey b.timely = obey b := by
    funext l command
    exact obey_timely b l command
  have attended : (fun (l : Loop σ) token => l.dispatch b.timely token .notified) =
      fun l token => l.dispatch b token .notified := by
    funext l token
    exact dispatch_other b l (by simp)
  unfold drain
  rw [obeyed, attended]

theorem onReport_timely (token : Token) (report : SocketReport) :
    l.onReport b.timely token report = l.onReport b token report := by
  have waits : b.timely.isConnecting = b.isConnecting := rfl
  unfold onReport
  dsimp only
  cases found : l.service? token with
  | none => rfl
  | some r =>
    dsimp only
    have due (waiting : b.isConnecting r.service = true) :
        l.dispatch b.timely token .connected = l.dispatch b token .connected := by
      refine dispatch_timely b l fun _ s there => ?_
      rw [found] at there
      cases there
      exact waiting
    rw [waits]
    split
    · next waiting => simp (disch := simp) only [dispatch_other, due waiting]
    · simp (disch := simp) only [dispatch_other]

theorem elapse_timely (duration : Nat) : l.elapse b.timely duration = l.elapse b duration := by
  have woken : (fun (l : Loop σ) (timer : Nat × Token) => l.dispatch b.timely timer.2 .timer) =
      fun l timer => l.dispatch b timer.2 .timer := by
    funext l timer
    exact dispatch_other b l (by simp)
  unfold elapse
  rw [woken]

theorem dismissWaiting_timely (commands : List (Command σ)) :
    l.dismissWaiting b.timely commands = l.dismissWaiting b commands := by
  induction commands generalizing l with
  | nil => rfl
  | cons command rest ih =>
    cases command with
    | register token service =>
      have told : b.timely.onError = b.onError := rfl
      simp only [dismissWaiting, told, ih]
    | notify token => exact ih l
    | deregister token => exact ih l

theorem finish_timely : l.finish b.timely = l.finish b := by
  have dismissed : dismiss b.timely = dismiss b := rfl
  unfold finish
  rw [dismissed, dismissWaiting_timely]

/-- A loop is none the wiser if its services heed a connected socket only while they wait for it. -/
theorem run_timely (actions : List (LoopAction σ)) :
    l.run b.timely actions = l.run b actions := by
  induction actions generalizing l with
  | nil => rfl
  | cons a rest ih =>
    have same : l.act b.timely a = l.act b a := by
      cases a with
      | drain => exact drain_timely b l
      | report token report => exact onReport_timely b l token report
      | elapse duration => exact elapse_timely b l duration
      | finish =>
        unfold act
        rw [finish_timely]
      | _ => rfl
    exact (congrArg (fun l => run b.timely l rest) same).trans (ih _)

end Loop

namespace Turn

open Connection

def heed (t : Turn ρ) (a : Action ρ) : Turn ρ := if a.isTimely t.after then t.act a else t

theorem heed_dispatch (c : Connection ρ) (event : LoopEvent) (socket : Socket) :
    let reply := Connection.behaviour.timely.dispatch (c, socket) event
    (done c).heed (.dispatch event socket) = ⟨reply.after.1, reply.interruption⟩ := by
  intro reply
  have timely : Action.isTimely c (.dispatch event socket) =
      !decide (event = .connected ∧ Connection.behaviour.isConnecting (c, socket) = false) := by
    cases event <;> simp [Action.isTimely]
  unfold heed
  rw [show (done c).after = c from rfl, timely]
  by_cases idle : event = .connected ∧ Connection.behaviour.isConnecting (c, socket) = false
  · simp [reply, Behaviour.timely, idle, done]
  · simp only [reply, Behaviour.timely, idle, if_false, decide_false, Bool.not_false, if_true]
    rfl

def drive (t : Turn ρ) (actions : List (Action ρ)) : Turn ρ := actions.foldl heed t

theorem heed_moves (t : Turn ρ) (a : Action ρ) : Moves (fun _ => True) t (t.heed a) := by
  unfold heed
  split
  · exact act_moves t (allows_any a)
  · exact .refl

theorem drive_moves (t : Turn ρ) (actions : List (Action ρ)) :
    Moves (fun _ => True) t (t.drive actions) := by
  induction actions generalizing t with
  | nil => exact .refl
  | cons a rest ih => exact (heed_moves t a).trans (ih _)

structure Persists (P : Connection ρ → Prop) : Prop where
  serves : Serves fun t u : Turn ρ => P t.after → P u.after
  connect {c : Connection ρ} (alive : c.stage ≠ .closed) (fresh : c.connected = false) :
    P c → P c.onConnected
  request {t : Turn ρ} {a : Action ρ} (asked : ∀ event socket, a ≠ .dispatch event socket) :
    P t.after → P (t.act a).after

namespace Persists

variable {P : Connection ρ → Prop} (persists : Persists P)

include persists

theorem dispatch {c : Connection ρ} {event : LoopEvent} {socket : Socket}
    (timely : (Action.dispatch event socket : Action ρ).isTimely c = true) (h : P c) :
    P (c.dispatch event socket).after := by
  have begun : P c.begin := by
    unfold begin
    split
    · next new => exact persists.serves.begin new h
    · exact h
  have connected : c.begin.connected = c.connected := by
    unfold begin moveTo
    split
    · split <;> rfl
    · rfl
  have steps := dispatch_steps persists.serves c event socket fun alive told => by
    subst told
    intro _
    have fresh : c.connected = false := by
      have waiting : (!c.connected && c.stage != .closed) = true := timely
      simpa using (Bool.and_eq_true_iff.mp waiting).1
    exact persists.connect (begin_alive alive) (connected.trans fresh) begun
  -- Every part of the step keeps it.
  generalize c.dispatch event socket = u at steps
  induction steps with
  | refl => exact h
  | tail _ last ih => exact last ih

theorem heed {t : Turn ρ} (h : P t.after) (a : Action ρ) : P (t.heed a).after := by
  unfold Turn.heed
  split
  · next timely =>
    cases a with
    | dispatch event socket =>
      unfold act Turn.andThen
      dsimp only
      split
      · exact persists.dispatch timely h
      · exact h
    | _ => exact persists.request (by simp) h
  · exact h

theorem drive {t : Turn ρ} (h : P t.after) (actions : List (Action ρ)) :
    P (t.drive actions).after := by
  induction actions generalizing t with
  | nil => exact h
  | cons a rest ih => exact ih (persists.heed h a)

end Persists

theorem course_persists : Persists (ρ := ρ) Course where
  serves := Course.serves
  connect alive fresh h := h.onConnected alive fresh
  request {t a} asked h := by
    cases a with
    | submit query params consumer => exact h.stays (Still.submit _ query params consumer).stays
    | cancel number => exact h.stays (Still.cancel _ number).stays
    | awaitReady => exact h.awaitReady
    | requestClose => exact h.stays (.of_eq rfl rfl)
    | dispatch event socket => exact absurd rfl (asked event socket)
    | tell cause => exact h.abort _

theorem drive_course {t : Turn ρ} (h : t.after.Course) (actions : List (Action ρ)) :
    (t.drive actions).after.Course := course_persists.drive h actions

end Turn

end PgPipeline
