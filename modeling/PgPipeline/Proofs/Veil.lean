import PgPipeline.Connection.History
import PgPipeline.Proofs.Move

/-!
A connection seen without one of its consumers.

`Connection.veil n` puts out of sight what the consumer of submission `n` did: the rows it took, what
it refused, what it was told and its result. What a connection does next does not depend on what is
veiled, so two connections that are alike but for that stay alike (`Connection.AlikeBut`).
-/

namespace PgPipeline

variable {ρ : Type} {n : Nat}

namespace Consumer

def deaf : Consumer ρ where
  onRow _ _ := .ok ()
  onComplete _ _ := .error (.failed .closed)

theorem steady_deaf : (deaf : Consumer ρ).Steady :=
  ⟨fun _ _ _ => nofun, fun _ _ _ => nofun⟩

end Consumer

namespace Submission

def IsVeiled (n : Nat) (s : Submission ρ) : Prop := s.number = n ∧ s.consumer.Steady

open Classical in
/-- The submission as if its consumer had refused a row before it took any. -/
noncomputable def veil (n : Nat) (s : Submission ρ) : Submission ρ :=
  { s with
    consumer := if s.IsVeiled n then .deaf else s.consumer
    taken := if s.IsVeiled n then [] else s.taken
    refusal := if s.IsVeiled n then some .closed else s.refusal }

variable {s t : Submission ρ}

theorem veil_of_isVeiled (veiled : s.IsVeiled n) :
    s.veil n = { s with consumer := .deaf, taken := [], refusal := some .closed } := by
  simp [veil, veiled]

theorem veil_of_not (bare : ¬ s.IsVeiled n) : s.veil n = s := by
  simp [veil, bare]

theorem steady_veil (veiled : s.IsVeiled n) : (s.veil n).consumer.Steady := by
  rw [veil_of_isVeiled veiled]
  exact Consumer.steady_deaf

theorem veil_answered (veiled : s.IsVeiled n) (taken : List Row) (refusal : Option Failure) :
    { s with taken, refusal }.veil n = s.veil n := by
  rw [veil_of_isVeiled (s := { s with taken, refusal }) veiled, veil_of_isVeiled veiled]

theorem insert_veil (s : Submission ρ) (ss : List (Submission ρ)) :
    insert (s.veil n) (ss.map (veil n)) = (insert s ss).map (veil n) := by
  simp only [insert, List.takeWhile_map, List.dropWhile_map, List.map_append, List.map_cons]
  rfl

@[simp] theorem veil_veil (s : Submission ρ) : (s.veil n).veil n = s.veil n := by
  by_cases veiled : s.IsVeiled n
  · have again : (s.veil n).IsVeiled n := by
      rw [veil_of_isVeiled veiled]
      exact ⟨veiled.1, Consumer.steady_deaf⟩
    rw [veil_of_isVeiled again, veil_of_isVeiled veiled]
  · rw [veil_of_not veiled, veil_of_not veiled]

end Submission

noncomputable def Flight.veil (n : Nat) (f : Flight ρ) : Flight ρ :=
  { f with submission := f.submission.veil n }

@[simp] theorem Flight.veil_veil (f : Flight ρ) : (f.veil n).veil n = f.veil n := by
  simp [Flight.veil]

def Resolution.veil (n : Nat) (r : Resolution ρ) : Resolution ρ :=
  { r with result := if r.number = n then .error .closed else r.result }

@[simp] theorem Resolution.veil_veil (r : Resolution ρ) : (r.veil n).veil n = r.veil n := by
  by_cases same : r.number = n <;> simp [Resolution.veil, same]

/-- The entry without what the consumer of the veiled submission was told. -/
def Entry.veil (n : Nat) : Entry ρ → Option (Entry ρ)
  | .offered number row => if number = n then none else some (.offered number row)
  | .concluded number summary => if number = n then none else some (.concluded number summary)
  | .resolved r => some (.resolved (r.veil n))
  | e => some e

@[simp] theorem Entry.veil_veil (e : Entry ρ) : (e.veil n).bind (veil n) = e.veil n := by
  cases e with
  | offered number row => by_cases same : number = n <;> simp [Entry.veil, same]
  | concluded number summary => by_cases same : number = n <;> simp [Entry.veil, same]
  | resolved r => simp [Entry.veil]
  | _ => rfl

namespace Record

def veil (n : Nat) (es : List (Entry ρ)) : List (Entry ρ) := es.filterMap (Entry.veil n)

@[simp] theorem veil_append (as bs : List (Entry ρ)) : veil n (as ++ bs) = veil n as ++ veil n bs :=
  List.filterMap_append

@[simp] theorem veil_veil (es : List (Entry ρ)) : veil n (veil n es) = veil n es := by
  simp [veil, List.filterMap_filterMap]

theorem veil_resolved (rs : List (Resolution ρ)) :
    veil n (rs.map .resolved) = (rs.map (Resolution.veil n)).map .resolved := by
  induction rs with
  | nil => rfl
  | cons r rest ih => exact congrArg (.resolved (r.veil n) :: ·) ih

theorem veil_informed (waiters : List Nat) (result : Except Failure ServerInfo) :
    veil n (waiters.map fun w => (.informed w result : Entry ρ)) =
      waiters.map fun w => .informed w result := by
  induction waiters with
  | nil => rfl
  | cons w rest ih => exact congrArg (.informed w result :: ·) ih

end Record

namespace Sequencer

variable {α β : Type}

def map (f : α → β) (s : Sequencer α) : Sequencer β := ⟨s.next, s.held.map fun p => (p.1, f p.2)⟩

theorem map_map {γ : Type} (f : α → β) (g : β → γ) (s : Sequencer α) :
    (s.map f).map g = s.map (g ∘ f) := by
  simp [map]

theorem insert_map (f : α → β) (k : Nat) (a : α) (items : List (Nat × α)) :
    insert k (f a) (items.map fun p => (p.1, f p.2)) =
      (insert k a items).map fun p => (p.1, f p.2) := by
  induction items with
  | nil => rfl
  | cons item rest ih =>
    simp only [List.map_cons, insert]
    split
    · rfl
    split
    · rfl
    · rw [ih, List.map_cons]

theorem releaseFrom_map (f : α → β) (next : Nat) (items : List (Nat × α)) :
    releaseFrom next (items.map fun p => (p.1, f p.2)) =
      ((releaseFrom next items).1.map f, (releaseFrom next items).2.map f) := by
  induction items generalizing next with
  | nil => rfl
  | cons item rest ih =>
    simp only [List.map_cons, releaseFrom]
    split
    · rw [ih]
      rfl
    · rfl

theorem resolve_map (f : α → β) (s : Sequencer α) (k : Nat) (a : α) :
    (s.map f).resolve k (f a) = ((s.resolve k a).1.map f, (s.resolve k a).2.map f) := by
  unfold resolve
  change (if k < s.next then _ else _) = _
  split
  · rfl
  · rw [← releaseFrom_map, ← insert_map]
    rfl

end Sequencer

namespace Connection

noncomputable def veil (n : Nat) (c : Connection ρ) : Connection ρ :=
  { c with
    inbox := { c.inbox with queue := c.inbox.queue.map (Submission.veil n) }
    pending := c.pending.map (Submission.veil n)
    inFlight := c.inFlight.map (Flight.veil n)
    sequencer := c.sequencer.map (Resolution.veil n)
    record := Record.veil n c.record }

/-- The two connections differ in nothing but what is veiled. -/
def AlikeBut (n : Nat) (c d : Connection ρ) : Prop := c.veil n = d.veil n

end Connection

namespace Turn

noncomputable def veil (n : Nat) (t : Turn ρ) : Turn ρ := ⟨t.after.veil n, t.interruption⟩

def AlikeBut (n : Nat) (t u : Turn ρ) : Prop := t.veil n = u.veil n

end Turn

namespace Connection

variable {c d e : Connection ρ}

@[simp] theorem veil_veil (c : Connection ρ) : (c.veil n).veil n = c.veil n := by
  have submissions (ss : List (Submission ρ)) :
      (ss.map (Submission.veil n)).map (Submission.veil n) = ss.map (Submission.veil n) := by
    simp [Function.comp_def]
  simp only [veil, submissions, Record.veil_veil, Sequencer.map_map]
  simp [Function.comp_def]

namespace AlikeBut

theorem refl (c : Connection ρ) : AlikeBut n c c := rfl

theorem veiled (n : Nat) (c : Connection ρ) : AlikeBut n (c.veil n) c := veil_veil c

theorem symm (h : AlikeBut n c d) : AlikeBut n d c := Eq.symm h

theorem trans (h : AlikeBut n c d) (k : AlikeBut n d e) : AlikeBut n c e := Eq.trans h k

/-- It is enough to compare a connection with itself after it was veiled. -/
theorem lift (h : AlikeBut n c d) (f : Connection ρ → Connection ρ)
    (same : ∀ c, AlikeBut n (f (c.veil n)) (f c)) : AlikeBut n (f c) (f d) := by
  have first := same c
  rw [h] at first
  exact first.symm.trans (same d)

theorem liftTurn (h : AlikeBut n c d) (f : Connection ρ → Turn ρ)
    (same : ∀ c, Turn.AlikeBut n (f (c.veil n)) (f c)) : Turn.AlikeBut n (f c) (f d) := by
  have first := same c
  rw [h] at first
  exact first.symm.trans (same d)

theorem comm (h : AlikeBut n c d) (f : Connection ρ → Connection ρ)
    (same : ∀ c, f (c.veil n) = (f c).veil n) : AlikeBut n (f c) (f d) :=
  (same c).symm.trans ((congrArg f h).trans (same d))

end AlikeBut

theorem enter_veil (c : Connection ρ) (es : List (Entry ρ)) :
    (c.enter es).veil n = (c.veil n).enter (Record.veil n es) := by
  simp [enter, veil]

theorem moveTo_veil (c : Connection ρ) (stage : Stage) :
    (c.veil n).moveTo stage = (c.moveTo stage).veil n := by
  unfold moveTo
  change (if c.stage = stage then _ else _) = _
  split
  · rfl
  · rw [enter_veil]
    rfl

theorem queue_veil (c : Connection ρ) (messages : List FrontendMessage) :
    (c.veil n).queue messages = (c.queue messages).veil n := by
  unfold queue
  rw [enter_veil]
  rfl

theorem resolve_veil (c : Connection ρ) (k : Nat) (result : Except Failure ρ) :
    (c.resolve k result).veil n =
      (c.veil n).resolve k (Resolution.veil n ⟨k, result⟩).result := by
  have both : (c.veil n).sequencer.resolve k ⟨k, (Resolution.veil n ⟨k, result⟩).result⟩ = _ :=
    Sequencer.resolve_map (Resolution.veil n) c.sequencer k ⟨k, result⟩
  unfold resolve
  rw [both, enter_veil, Record.veil_resolved]
  rfl

theorem refuseAll_veil (c : Connection ρ) (cause : Failure) :
    (c.veil n).refuseAll cause = (c.refuseAll cause).veil n := by
  have same : (c.veil n).inbox.readiness = c.inbox.readiness := rfl
  cases found : c.inbox.readiness with
  | pending waiters =>
    simp only [refuseAll, same, found]
    rw [enter_veil, Record.veil_informed]
    rfl
  | ready info =>
    simp only [refuseAll, same, found]
    rfl
  | failed failure =>
    simp only [refuseAll, same, found]
    rfl

theorem releaseHeld_veil (c : Connection ρ) :
    (c.veil n).releaseHeld = c.releaseHeld.veil n := by
  have held : (c.veil n).sequencer.flush.1 = c.sequencer.flush.1.map (Resolution.veil n) := by
    simp [Sequencer.flush, veil, Sequencer.map]
  unfold releaseHeld
  change Connection.enter _ ((c.veil n).sequencer.flush.1.map .resolved) = _
  rw [held, enter_veil, Record.veil_resolved]
  rfl

theorem endChannel_veil (c : Connection ρ) : (c.veil n).endChannel = c.endChannel.veil n := by
  have same : (c.veil n).transport = c.transport := rfl
  cases found : c.transport with
  | plain => simp only [endChannel, same, found]
  | encrypted certificate =>
    simp only [endChannel, same, found]
    rw [enter_veil]
    rfl

theorem collect_veil (c : Connection ρ) : (c.veil n).collect = c.collect.veil n := by
  simp [collect, veil]

theorem outstanding_veil (c : Connection ρ) :
    (c.veil n).outstanding = c.outstanding.map (Submission.veil n) := by
  simp [outstanding, veil, Flight.veil, Function.comp_def]

namespace AlikeBut

theorem enter (h : AlikeBut n c d) (es : List (Entry ρ)) : AlikeBut n (c.enter es) (d.enter es) := by
  rw [AlikeBut, enter_veil, enter_veil, h]

theorem enter_hidden (h : AlikeBut n c d) {es : List (Entry ρ)} (hidden : Record.veil n es = []) :
    AlikeBut n c (d.enter es) := by
  rw [AlikeBut, enter_veil, hidden, h]
  simp [Connection.enter]

theorem moveTo (h : AlikeBut n c d) (stage : Stage) : AlikeBut n (c.moveTo stage) (d.moveTo stage) :=
  h.comm (·.moveTo stage) fun c => moveTo_veil c stage

theorem queue (h : AlikeBut n c d) (messages : List FrontendMessage) :
    AlikeBut n (c.queue messages) (d.queue messages) :=
  h.comm (·.queue messages) fun c => queue_veil c messages

theorem resolve (h : AlikeBut n c d) {k : Nat} {result result' : Except Failure ρ}
    (same : k ≠ n → result = result') : AlikeBut n (c.resolve k result) (d.resolve k result') := by
  have veiled : (Resolution.veil n ⟨k, result⟩).result = (Resolution.veil n ⟨k, result'⟩).result := by
    by_cases which : k = n
    · simp [Resolution.veil, which]
    · rw [same which]
  rw [AlikeBut, resolve_veil, resolve_veil, h, veiled]

theorem foldl {step : Connection ρ → Submission ρ → Connection ρ}
    (each : ∀ c d s, AlikeBut n c d → AlikeBut n (step c (s.veil n)) (step d s))
    (ss : List (Submission ρ)) (h : AlikeBut n c d) :
    AlikeBut n ((ss.map (Submission.veil n)).foldl step c) (ss.foldl step d) := by
  induction ss generalizing c d with
  | nil => exact h
  | cons s rest ih => exact ih (each c d s h)

theorem resolveAll (h : AlikeBut n c d) (ss : List (Submission ρ)) (result : Except Failure ρ) :
    AlikeBut n (c.resolveAll (ss.map (Submission.veil n)) result) (d.resolveAll ss result) :=
  foldl (fun _ _ _ h => h.resolve fun _ => rfl) ss h

theorem failAll (h : AlikeBut n c d) (cause : Failure) :
    AlikeBut n (c.failAll cause) (d.failAll cause) := by
  refine h.lift (·.failAll cause) fun c => ?_
  unfold Connection.failAll
  rw [refuseAll_veil]
  generalize c.refuseAll cause = c
  have emptied := veiled n
    { c with inFlight := [], pending := [], inbox := { c.inbox with queue := [] } }
  have failed := emptied.resolveAll c.outstanding (.error cause)
  rw [← outstanding_veil] at failed
  exact failed.comm (·.releaseHeld) releaseHeld_veil

theorem abort (h : AlikeBut n c d) (cause : Failure) :
    AlikeBut n (c.abort cause) (d.abort cause) := by
  refine h.lift (·.abort cause) fun c => ?_
  unfold Connection.abort
  change AlikeBut n (if c.stage = .closed then _ else _) _
  split
  · exact veiled n c
  · have failed := ((veiled n c).moveTo .closed).failAll cause
    exact failed.comm (fun c => { c with outbound := .empty }) fun _ => rfl

theorem beginClose (h : AlikeBut n c d) : AlikeBut n c.beginClose d.beginClose := by
  refine h.lift (·.beginClose) fun c => ?_
  unfold Connection.beginClose
  change AlikeBut n (if c.stage = .ready then _ else _) _
  split
  · have parting := ((veiled n c).failAll .closed).queue [.terminate]
    exact (parting.comm (·.endChannel) endChannel_veil).moveTo .closing
  · exact (veiled n c).abort .closed

theorem flights (h : AlikeBut n c d) {fs gs : List (Flight ρ)}
    (same : fs.map (Flight.veil n) = gs.map (Flight.veil n)) :
    AlikeBut n { c with inFlight := fs } { d with inFlight := gs } := by
  change { c.veil n with inFlight := fs.map (Flight.veil n) } =
    { d.veil n with inFlight := gs.map (Flight.veil n) }
  rw [h, same]

theorem inboxQueue (h : AlikeBut n c d) {ss ts : List (Submission ρ)}
    (same : ss.map (Submission.veil n) = ts.map (Submission.veil n)) :
    AlikeBut n { c with inbox := { c.inbox with queue := ss } }
      { d with inbox := { d.inbox with queue := ts } } := by
  change { c.veil n with inbox := { (c.veil n).inbox with queue := ss.map (Submission.veil n) } } =
    { d.veil n with inbox := { (d.veil n).inbox with queue := ts.map (Submission.veil n) } }
  rw [h, same]

theorem send {s : Submission ρ} (h : AlikeBut n c d) : AlikeBut n (c.send (s.veil n)) (d.send s) := by
  have same (c : Connection ρ) (s : Submission ρ) :
      AlikeBut n ((c.veil n).send (s.veil n)) (c.send s) := by
    have unchanged : (c.veil n).prepare (s.veil n) = c.prepare s := rfl
    cases prepared : c.prepare s with
    | ok p =>
      simp only [Connection.send, unchanged, prepared]
      have written := (veiled n { c with cache := p.cache }).queue p.batch.messages
      refine (written.flights ?_).enter [.sent s.number p.batch.statement.name]
      simp [Connection.queue, Connection.enter, veil, Flight.start, Flight.veil]
    | error f =>
      simp only [Connection.send, unchanged, prepared]
      exact (veiled n c).resolve fun _ => rfl
  have first := same c (s.veil n)
  rw [Submission.veil_veil, h] at first
  exact first.symm.trans (same d s)

theorem sendPending (h : AlikeBut n c d) : AlikeBut n c.sendPending d.sendPending :=
  h.lift (·.sendPending) fun c =>
    foldl (fun _ _ _ h => h.send) c.pending (veiled n { c with pending := [] })

theorem dropCancelled (h : AlikeBut n c d) : AlikeBut n c.dropCancelled d.dropCancelled := by
  refine h.lift (·.dropCancelled) fun c => ?_
  have cut : (c.veil n).pending.partition (fun s => (c.veil n).isCancelled s.number) =
      ((c.pending.partition fun s => c.isCancelled s.number).1.map (Submission.veil n),
        (c.pending.partition fun s => c.isCancelled s.number).2.map (Submission.veil n)) := by
    simp only [List.partition_eq_filter_filter, veil, List.filter_map]
    rfl
  unfold Connection.dropCancelled
  rw [cut]
  generalize (c.pending.partition fun s => c.isCancelled s.number) = parts
  exact (veiled n { c with pending := parts.2 }).resolveAll parts.1 (.error .cancelled)

theorem pump (h : AlikeBut n c d) : AlikeBut n c.pump d.pump := by
  refine h.lift (·.pump) fun c => ?_
  unfold Connection.pump
  rw [collect_veil]
  generalize c.collect = c
  have kept := (veiled n c).dropCancelled
  have stage : (c.veil n).dropCancelled.stage = c.dropCancelled.stage := congrArg (·.stage) kept
  change AlikeBut n (if c.inbox.closeRequested ∧ ¬ c.stage.isEnding then _ else _) _
  dsimp only
  rw [stage]
  split
  · exact (veiled n c).beginClose
  · split
    · exact kept.sendPending
    · exact kept

end AlikeBut

end Connection

end PgPipeline
