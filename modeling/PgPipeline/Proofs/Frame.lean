import PgPipeline.Proofs.Move
import PgPipeline.Proofs.Record

namespace PgPipeline

variable {ρ : Type}

structure Work (ρ : Type) where
  nextNumber : Nat
  closedBy : Option Failure
  queue : List (Submission ρ)
  pending : List (Submission ρ)
  inFlight : List (Flight ρ)
  sequencer : Sequencer (Resolution ρ)

def Work.outstanding (w : Work ρ) : List (Submission ρ) :=
  w.inFlight.map (·.submission) ++ w.pending ++ w.queue

structure Login where
  config : Config
  nonces : Nat → List Char
  exchanges : Nat
  auth : AuthPhase

namespace Connection

def work (c : Connection ρ) : Work ρ :=
  ⟨c.inbox.nextNumber, c.inbox.closedBy, c.inbox.queue, c.pending, c.inFlight, c.sequencer⟩

def login (c : Connection ρ) : Login := ⟨c.config, c.nonces, c.exchanges, c.auth⟩

def Extends (kind : Entry ρ → Prop) (c d : Connection ρ) : Prop :=
  ∃ es, d.record = c.record ++ es ∧ d.stage = Record.stageFrom c.stage es ∧ ∀ e ∈ es, kind e

namespace Extends

variable {kind : Entry ρ → Prop} {c d e : Connection ρ}

theorem of_eq (record : d.record = c.record) (stage : d.stage = c.stage) : Extends kind c d :=
  ⟨[], by rw [record, List.append_nil], stage, by simp⟩

theorem trans (h : Extends kind c d) (k : Extends kind d e) : Extends kind c e := by
  obtain ⟨es, hes, hs, hk⟩ := h
  obtain ⟨fs, hfs, ks, kk⟩ := k
  refine ⟨es ++ fs, ?_, ?_, ?_⟩
  · rw [hfs, hes, List.append_assoc]
  · rw [ks, hs, Record.stageFrom_append]
  · intro x hx
    rcases List.mem_append.mp hx with hx | hx
    · exact hk x hx
    · exact kk x hx

theorem weaken {wide : Entry ρ → Prop} (h : Extends kind c d) (le : ∀ e, kind e → wide e) :
    Extends wide c d := by
  obtain ⟨es, hes, hs, hk⟩ := h
  exact ⟨es, hes, hs, fun e he => le e (hk e he)⟩

theorem enter {es : List (Entry ρ)} (still : ∀ e ∈ es, e.stageAfter c.stage = c.stage)
    (h : ∀ e ∈ es, kind e) : Extends kind c (c.enter es) :=
  ⟨es, rfl, (Record.stageFrom_eq_self still).symm, h⟩

theorem moveTo (stage : Stage) (h : kind (.moved stage)) : Extends kind c (c.moveTo stage) := by
  unfold Connection.moveTo
  split
  · exact of_eq rfl rfl
  · exact ⟨[.moved stage], rfl, rfl, by simpa using h⟩

end Extends

structure SameWork (c d : Connection ρ) : Prop where
  work : d.work = c.work
  cache : d.cache = c.cache
  cancelled : c.inbox.cancelled ⊆ d.inbox.cancelled
  record : Extends (fun e => e.ofWork = false) c d

structure SameLogin (c d : Connection ρ) : Prop where
  login : d.login = c.login
  binding : ∀ data, c.transport.binding? = some data → d.transport.binding? = some data
  record : Extends (fun e => e.ofLogin = false) c d

structure Aside (c d : Connection ρ) : Prop where
  work : d.work = c.work
  cache : d.cache = c.cache
  cancelled : c.inbox.cancelled ⊆ d.inbox.cancelled
  login : d.login = c.login
  binding : ∀ data, c.transport.binding? = some data → d.transport.binding? = some data
  record : Extends (fun e => e.ofWork = false ∧ e.ofLogin = false) c d

namespace SameWork

variable {c d e : Connection ρ}

theorem of_eq (work : d.work = c.work) (cache : d.cache = c.cache)
    (cancelled : d.inbox.cancelled = c.inbox.cancelled) (record : d.record = c.record)
    (stage : d.stage = c.stage) : SameWork c d :=
  ⟨work, cache, by rw [cancelled]; exact List.Subset.refl _, .of_eq record stage⟩

theorem trans (h : SameWork c d) (k : SameWork d e) : SameWork c e :=
  ⟨k.work.trans h.work, k.cache.trans h.cache, List.Subset.trans h.cancelled k.cancelled,
    h.record.trans k.record⟩

theorem queue {ms : List FrontendMessage} (h : ms.any FrontendMessage.isQuery = false) :
    SameWork c (c.queue ms) := by
  refine ⟨rfl, rfl, List.Subset.refl _, [.queued ms], rfl, rfl, ?_⟩
  simpa [Entry.ofWork] using h

theorem moveTo (c : Connection ρ) (stage : Stage) : SameWork c (c.moveTo stage) := by
  refine ⟨?_, ?_, ?_, .moveTo stage rfl⟩
  all_goals
    unfold Connection.moveTo
    split
  all_goals first
    | rfl
    | exact List.Subset.refl _

theorem becomeReady (c : Connection ρ) : SameWork c c.becomeReady := by
  refine (moveTo c .ready).trans ⟨rfl, rfl, List.Subset.refl _, _, rfl, ?_, ?_⟩
  · exact (Record.stageFrom_eq_self (by simp [Entry.stageAfter])).symm
  · simp [Entry.ofWork]

theorem onAuthMessage (c : Connection ρ) (m : BackendMessage) :
    SameWork c (c.onAuthMessage m).after := by
  unfold Connection.onAuthMessage onAuthenticationOk beginExchange onChallenge onSignature
    withPassword
  cases m
  case readyForQuery status =>
    dsimp only
    split
    · have same : SameWork c { c with transaction := status } := of_eq rfl rfl rfl rfl rfl
      exact same.trans (becomeReady _)
    · exact of_eq rfl rfl rfl rfl rfl
  all_goals dsimp only [Turn.done, Turn.fail]
  all_goals repeat' split
  all_goals first
    | exact of_eq rfl rfl rfl rfl rfl
    | exact queue rfl
    | exact (queue rfl).trans (of_eq rfl rfl rfl rfl rfl)

end SameWork

namespace Aside

variable {c d e : Connection ρ}

theorem sameWork (h : Aside c d) : SameWork c d :=
  ⟨h.work, h.cache, h.cancelled, h.record.weaken fun _ he => he.1⟩

theorem sameLogin (h : Aside c d) : SameLogin c d :=
  ⟨h.login, h.binding, h.record.weaken fun _ he => he.2⟩

theorem of_eq (work : d.work = c.work) (cache : d.cache = c.cache)
    (cancelled : d.inbox.cancelled = c.inbox.cancelled) (login : d.login = c.login) (transport : d.transport = c.transport)
    (record : d.record = c.record) (stage : d.stage = c.stage) : Aside c d :=
  ⟨work, cache, by rw [cancelled]; exact List.Subset.refl _, login, fun _ h => transport ▸ h,
    .of_eq record stage⟩

theorem refl (c : Connection ρ) : Aside c c := of_eq rfl rfl rfl rfl rfl rfl rfl

theorem trans (h : Aside c d) (k : Aside d e) : Aside c e :=
  ⟨k.work.trans h.work, k.cache.trans h.cache, List.Subset.trans h.cancelled k.cancelled,
    k.login.trans h.login,
    fun data hd => k.binding data (h.binding data hd), h.record.trans k.record⟩

theorem enter {es : List (Entry ρ)} (still : ∀ e ∈ es, e.stageAfter c.stage = c.stage)
    (h : ∀ e ∈ es, e.ofWork = false ∧ e.ofLogin = false) : Aside c (c.enter es) :=
  ⟨rfl, rfl, List.Subset.refl _, rfl, fun _ h => h, .enter still h⟩

theorem moveTo (c : Connection ρ) {stage : Stage} (h : stage ≠ .ready) :
    Aside c (c.moveTo stage) := by
  have same := SameWork.moveTo c stage
  refine ⟨same.work, same.cache, same.cancelled, ?_, ?_,
    .moveTo stage ⟨rfl, by simpa [Entry.ofLogin] using h⟩⟩
  all_goals
    unfold Connection.moveTo
    split
  all_goals first
    | rfl
    | exact fun _ h => h

theorem queue {ms : List FrontendMessage} (query : ms.any FrontendMessage.isQuery = false)
    (credential : ms.any FrontendMessage.isCredential = false) : Aside c (c.queue ms) := by
  refine ⟨rfl, rfl, List.Subset.refl _, rfl, fun _ h => h, [.queued ms], rfl, rfl, ?_⟩
  simpa [Entry.ofWork, Entry.ofLogin] using And.intro query credential

theorem sendStartup (c : Connection ρ) : Aside c c.sendStartup :=
  (queue rfl rfl).trans (moveTo _ (by decide))

theorem onConnected (c : Connection ρ) : Aside c c.onConnected := by
  unfold Connection.onConnected
  dsimp only
  split
  · have connected : Aside c { c with connected := true } := of_eq rfl rfl rfl rfl rfl rfl rfl
    exact connected.trans (sendStartup _)
  · have asking : Aside c { c with connected := true, awaitingEncryption := true } :=
      of_eq rfl rfl rfl rfl rfl rfl rfl
    exact asking.trans (queue rfl rfl)

theorem andThen {t : Turn ρ} {next : Connection ρ → Turn ρ} (first : Aside c t.after)
    (second : Aside t.after (next t.after).after) : Aside c (t.andThen next).after := by
  unfold Turn.andThen
  split
  · exact first.trans second
  · exact first

theorem encrypt (c : Connection ρ) : Aside c c.encrypt.after := by
  unfold Connection.encrypt
  split
  · exact refl c
  · next plain =>
    split
    · exact refl c
    · refine ⟨rfl, rfl, List.Subset.refl _, rfl, fun data h => ?_, .of_eq rfl rfl⟩
      rw [plain] at h
      cases h

theorem onEncryptionAnswer (c : Connection ρ) (byte : UInt8) :
    Aside c (c.onEncryptionAnswer byte).after := by
  have answered : Aside c { c with awaitingEncryption := false } := of_eq rfl rfl rfl rfl rfl rfl rfl
  unfold Connection.onEncryptionAnswer
  dsimp only
  split
  · split
    · exact andThen (answered.trans (encrypt _)) (sendStartup _)
    · exact answered
  · split
    · split
      · exact answered
      · exact answered.trans (sendStartup _)
    · exact answered

theorem learnCertificate (c : Connection ρ) (certificate : Option Bytes) :
    Aside c (c.learnCertificate certificate) := by
  unfold Connection.learnCertificate
  split
  · next unknown =>
    refine ⟨rfl, rfl, List.Subset.refl _, rfl, fun data h => ?_, .of_eq rfl rfl⟩
    rw [unknown] at h
    cases h
  · exact refl c

theorem write (c : Connection ρ) (socket : Socket) : Aside c (c.write socket).after := by
  unfold Connection.write
  split
  · exact refl c
  · dsimp only
    generalize hes : (if (c.outbound.writeTo socket.writes).sent.isEmpty then []
      else [Entry.wrote (c.outbound.writeTo socket.writes).sent]) = es
    have idle : ∀ e ∈ es, e.ofWork = false ∧ e.ofLogin = false := by
      rw [← hes]
      split <;> simp [Entry.ofWork, Entry.ofLogin]
    have still : ∀ e ∈ es, e.stageAfter c.stage = c.stage := by
      rw [← hes]
      split <;> simp [Entry.stageAfter]
    have written (outbound : ByteQueue) : Aside c ({ c with outbound }.enter es) := by
      have taken : Aside c { c with outbound } := of_eq rfl rfl rfl rfl rfl rfl rfl
      exact taken.trans (enter still idle)
    split
    · dsimp only [Turn.done]
      split
      · exact (written _).trans (moveTo _ (by decide))
      · exact written _
    · exact written _
    · exact written _

theorem endChannel (c : Connection ρ) : Aside c c.endChannel := by
  unfold Connection.endChannel
  split
  · exact refl c
  · exact enter (by simp [Entry.stageAfter]) (by simp [Entry.ofWork, Entry.ofLogin])

theorem leave (c : Connection ρ) : Aside c (((c.queue [.terminate]).endChannel).moveTo .closing) :=
  ((queue rfl rfl).trans (endChannel _)).trans (moveTo _ (by decide))

theorem cancel (c : Connection ρ) (number : Nat) : Aside c (c.cancel number) := by
  unfold Connection.cancel
  split
  · exact ⟨rfl, rfl, List.subset_cons_self _ _, rfl, fun _ h => h, .of_eq rfl rfl⟩
  · exact refl c

theorem awaitReady (c : Connection ρ) : Aside c c.awaitReady.2 := by
  have counted : Aside c { c with inbox := { c.inbox with nextWaiter := c.inbox.nextWaiter + 1 } } :=
    of_eq rfl rfl rfl rfl rfl rfl rfl
  unfold Connection.awaitReady
  dsimp only
  split
  · exact of_eq rfl rfl rfl rfl rfl rfl rfl
  all_goals
    exact counted.trans (enter (by simp [Entry.stageAfter]) (by simp [Entry.ofWork, Entry.ofLogin]))

theorem requestClose (c : Connection ρ) : Aside c c.requestClose := of_eq rfl rfl rfl rfl rfl rfl rfl

end Aside

end Connection

namespace Turn

open Connection

def GoesOn (t : Turn ρ) : Prop := t.interruption = none ∧ t.after.stage ≠ .closed

theorem GoesOn.of_stage {c : Connection ρ} {stage : Stage} (h : c.stage = stage)
    (alive : stage ≠ .closed) : GoesOn (done c) := ⟨rfl, h ▸ alive⟩

structure Idle (t u : Turn ρ) : Prop where
  aside : Aside t.after u.after
  uninterrupted : u.interruption = none → t.interruption = none
  closed : t.after.stage = .closed → u.after.stage = .closed
  ending : u.after.stage.isEnding → t.after.stage.isEnding

theorem Idle.goesOn {t u : Turn ρ} (h : Idle t u) (goesOn : u.GoesOn) : t.GoesOn :=
  ⟨h.uninterrupted goesOn.1, fun closed => goesOn.2 (h.closed closed)⟩

/-- The moves, with all idle ones taken together. -/
inductive Stride (K : Consumer ρ → Prop) : Turn ρ → Turn ρ → Prop
  | idle {t u : Turn ρ} (h : Idle t u) : Stride K t u
  | submit {t : Turn ρ} (query : String) (params : List Param) (consumer : Consumer ρ)
      (allowed : K consumer) :
      Stride K t (t.request fun c => (c.submit query params consumer).2)
  | tell {t : Turn ρ} (cause : Failure) : Stride K t (.done (t.after.abort cause))
  | message {c : Connection ρ} (m : BackendMessage) (alive : c.stage ≠ .closed) :
      Stride K (.done c) (c.onMessage m)
  | collect {c : Connection ρ} : Stride K (.done c) (.done c.collect)
  | close {c : Connection ρ} : Stride K (.done c) (.done c.beginClose)
  | drop {c : Connection ρ} : Stride K (.done c) (.done c.dropCancelled)
  | send {c : Connection ρ} {s : Submission ρ} {rest : List (Submission ρ)}
      (ready : c.stage = .ready) (first : c.pending = s :: rest)
      (kept : c.isCancelled s.number = false) :
      Stride K (.done c) (.done (({ c with pending := rest } : Connection ρ).send s))

namespace Idle

variable {c : Connection ρ}

theorem sendStartup_ending (c : Connection ρ) : c.sendStartup.stage.isEnding = false := by
  rw [sendStartup, moveTo_stage]
  rfl

theorem onConnected_ending (h : c.onConnected.stage.isEnding) : c.stage.isEnding := by
  unfold onConnected at h
  dsimp only at h
  split at h
  · exact absurd ((sendStartup_ending _).symm.trans h) (by decide)
  · exact h

theorem onEncryptionAnswer_ending {byte : UInt8}
    (h : (c.onEncryptionAnswer byte).after.stage.isEnding) : c.stage.isEnding := by
  unfold onEncryptionAnswer encrypt Turn.andThen at h
  dsimp only at h
  repeat' split at h
  all_goals first
    | exact h
    | exact absurd ((sendStartup_ending _).symm.trans h) (by decide)

theorem write_ending {socket : Socket} (h : (c.write socket).after.stage.isEnding) :
    c.stage.isEnding := by
  unfold Connection.write at h
  split at h
  · exact h
  · dsimp only at h
    repeat' split at h
    all_goals first
      | exact h
      | next leaving => exact leaving ▸ rfl

theorem write_closed (socket : Socket) (h : c.stage = .closed) :
    (c.write socket).after.stage = .closed := by
  rw [Connection.write, if_pos (Or.inr h)]
  exact h

theorem awaitReady_stage (c : Connection ρ) : c.awaitReady.2.stage = c.stage := by
  unfold Connection.awaitReady
  dsimp only
  split <;> rfl

theorem cancel_stage (c : Connection ρ) (number : Nat) : (c.cancel number).stage = c.stage := by
  unfold Connection.cancel
  split <;> rfl

theorem of_stage {t u : Turn ρ} (aside : Aside t.after u.after)
    (uninterrupted : u.interruption = none → t.interruption = none)
    (stage : u.after.stage = t.after.stage) : Idle t u :=
  ⟨aside, uninterrupted, fun h => stage.trans h, fun h => stage ▸ h⟩

end Idle

theorem Move.stride {K : Consumer ρ → Prop} {t u : Turn ρ} (step : Move K t u) : Stride K t u := by
  cases step with
  | submit query params consumer allowed => exact .submit query params consumer allowed
  | cancel number => exact .idle (.of_stage (.cancel _ number) id (Idle.cancel_stage _ number))
  | awaitReady => exact .idle (.of_stage (.awaitReady _) id (Idle.awaitReady_stage _))
  | requestClose => exact .idle (.of_stage (.requestClose _) id rfl)
  | tell cause => exact .tell cause
  | begin new =>
    refine .idle ⟨.moveTo _ (by decide), id, fun closed => ?_, fun ending => ?_⟩
    · exact absurd (new.symm.trans closed) (by decide)
    · rw [done, moveTo_stage] at ending
      cases ending
  | connect alive =>
    exact .idle ⟨.onConnected _, id, fun closed => absurd closed alive, Idle.onConnected_ending⟩
  | breakOff i => exact .idle (.of_stage (.refl _) (fun _ => rfl) rfl)
  | feed inbound => exact .idle (.of_stage (.of_eq rfl rfl rfl rfl rfl rfl rfl) id rfl)
  | learn certificate =>
    exact .idle (.of_stage (.learnCertificate _ certificate) id (learnCertificate_stage _ _))
  | answer byte alive =>
    exact .idle ⟨.onEncryptionAnswer _ byte, fun _ => rfl, fun closed => absurd closed alive,
      Idle.onEncryptionAnswer_ending⟩
  | message m alive => exact .message m alive
  | part leaving =>
    exact .idle ⟨.moveTo _ (by decide), id, fun _ => moveTo_stage _ _, fun _ => leaving ▸ rfl⟩
  | collect => exact .collect
  | close => exact .close
  | drop => exact .drop
  | send ready first kept => exact .send ready first kept
  | write socket =>
    exact .idle ⟨.write _ socket, fun _ => rfl, Idle.write_closed socket, Idle.write_ending⟩

theorem run_induction {K : Consumer ρ → Prop} {P : Turn ρ → Prop} {t : Turn ρ} (start : P t)
    (step : ∀ {t u}, Stride K t u → P t → P u) {actions : List (Action ρ)}
    (h : ∀ a ∈ actions, a.Allows K) : P (t.run actions) :=
  run_invariant start (fun move => step move.stride) h

end Turn

end PgPipeline
