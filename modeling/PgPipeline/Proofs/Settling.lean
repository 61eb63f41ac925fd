import PgPipeline.Proofs.Coverage
import PgPipeline.Proofs.Frame

namespace PgPipeline

variable {ρ : Type}

namespace Connection

/-- Results may be given, and the connection may end; nothing else happens. -/
structure Settles (c d : Connection ρ) : Prop where
  login : d.login = c.login
  cache : d.cache = c.cache
  binding : ∀ data, c.transport.binding? = some data → d.transport.binding? = some data
  cancelled : c.inbox.cancelled ⊆ d.inbox.cancelled
  record : Extends (fun e => e.ofLogin = false ∧ e.ofPipeline = false) c d

theorem Aside.settles {c d : Connection ρ} (h : Aside c d) : Settles c d :=
  ⟨h.login, h.cache, h.binding, h.cancelled,
    h.record.weaken fun _ he => ⟨he.2, Entry.ofPipeline_eq_false he.1⟩⟩

namespace Settles

variable {c d e : Connection ρ}

theorem sameLogin (h : Settles c d) : SameLogin c d :=
  ⟨h.login, h.binding, h.record.weaken fun _ he => he.1⟩

theorem of_eq (login : d.login = c.login) (cache : d.cache = c.cache)
    (transport : d.transport = c.transport) (cancelled : d.inbox.cancelled = c.inbox.cancelled)
    (record : d.record = c.record) (stage : d.stage = c.stage) : Settles c d :=
  ⟨login, cache, fun _ h => transport ▸ h, by rw [cancelled]; exact List.Subset.refl _,
    .of_eq record stage⟩

theorem trans (h : Settles c d) (k : Settles d e) : Settles c e :=
  ⟨k.login.trans h.login, k.cache.trans h.cache,
    fun data hd => k.binding data (h.binding data hd), List.Subset.trans h.cancelled k.cancelled, h.record.trans k.record⟩

theorem enter {es : List (Entry ρ)} (still : ∀ e ∈ es, e.stageAfter c.stage = c.stage)
    (h : ∀ e ∈ es, e.ofLogin = false ∧ e.ofPipeline = false) : Settles c (c.enter es) :=
  ⟨rfl, rfl, fun _ h => h, List.Subset.refl _, .enter still h⟩

theorem submit (c : Connection ρ) (query : String) (params : List Param) (consumer : Consumer ρ) :
    Settles c (c.submit query params consumer).2 := by
  unfold Connection.submit
  dsimp only
  split
  · have counted : Settles c
        { c with inbox := { c.inbox with nextNumber := c.inbox.nextNumber + 1 } } :=
      of_eq rfl rfl rfl rfl rfl rfl
    exact counted.trans (enter (by simp [Entry.stageAfter])
      (by simp [Entry.ofLogin, Entry.ofPipeline, Entry.ofWork]))
  · exact of_eq rfl rfl rfl rfl rfl rfl

theorem resolveAll (c : Connection ρ) (ss : List (Submission ρ)) (result : Except Failure ρ) :
    Settles c (c.resolveAll ss result) := by
  obtain ⟨sequencer, rs, all⟩ := resolveAll_eq c ss result
  rw [all]
  refine ⟨rfl, rfl, fun _ h => h, List.Subset.refl _, rs.map .resolved, rfl, ?_, ?_⟩
  · exact (Record.stageFrom_eq_self (by simp [Entry.stageAfter])).symm
  · simp [Entry.ofLogin, Entry.ofPipeline]

theorem resolve (c : Connection ρ) (s : Submission ρ) (result : Except Failure ρ) :
    Settles c (c.resolve s.number result) := resolveAll c [s] result

theorem refuseAll (c : Connection ρ) (cause : Failure) : Settles c (c.refuseAll cause) := by
  unfold Connection.refuseAll
  dsimp only
  split
  · have refused : Settles c { c with
        inbox := { c.inbox with closedBy := some cause, readiness := .failed cause } } :=
      of_eq rfl rfl rfl rfl rfl rfl
    exact refused.trans (enter (by simp [Entry.stageAfter])
      (by simp [Entry.ofLogin, Entry.ofPipeline, Entry.ofWork]))
  · exact of_eq rfl rfl rfl rfl rfl rfl

theorem releaseHeld (c : Connection ρ) : Settles c c.releaseHeld := by
  refine ⟨rfl, rfl, fun _ h => h, List.Subset.refl _, c.sequencer.flush.1.map .resolved, rfl, ?_,
    ?_⟩
  · exact (Record.stageFrom_eq_self (by simp [Entry.stageAfter])).symm
  · simp [Entry.ofLogin, Entry.ofPipeline]

theorem failAll (c : Connection ρ) (cause : Failure) : Settles c (c.failAll cause) := by
  unfold Connection.failAll
  dsimp only
  have emptied : Settles (c.refuseAll cause) { c.refuseAll cause with
      inFlight := [], pending := [], inbox := { (c.refuseAll cause).inbox with queue := [] } } :=
    of_eq rfl rfl rfl rfl rfl rfl
  exact (((refuseAll c cause).trans emptied).trans (resolveAll _ _ _)).trans (releaseHeld _)

theorem abort (c : Connection ρ) (cause : Failure) : Settles c (c.abort cause) := by
  unfold Connection.abort
  split
  · exact of_eq rfl rfl rfl rfl rfl rfl
  · have dropped : Settles ((c.moveTo .closed).failAll cause)
        { (c.moveTo .closed).failAll cause with outbound := .empty } := of_eq rfl rfl rfl rfl rfl rfl
    exact ((Aside.moveTo c (by decide)).settles.trans (failAll _ cause)).trans dropped

theorem beginClose (c : Connection ρ) : Settles c c.beginClose := by
  unfold Connection.beginClose
  split
  · exact (failAll c .closed).trans (Aside.leave _).settles
  · exact abort c .closed

theorem dropCancelled (c : Connection ρ) : Settles c c.dropCancelled := by
  have kept (kept : List (Submission ρ)) : Settles c { c with pending := kept } :=
    of_eq rfl rfl rfl rfl rfl rfl
  exact (kept _).trans (resolveAll _ _ _)

end Settles

theorem refuseAll_frame (c : Connection ρ) (cause : Failure) :
    (c.refuseAll cause).work = { c.work with closedBy := some cause } ∧
      Record.resolved (c.refuseAll cause).record = Record.resolved c.record := by
  unfold Connection.refuseAll
  dsimp only
  split
  · next waiters _ =>
    refine ⟨rfl, ?_⟩
    have informed : Record.resolved (waiters.map fun w => Entry.informed (ρ := ρ) w
        (.error cause)) = [] := Record.resolved_eq_nil (by simp [Entry.ofWork])
    rw [enter, Record.resolved_append, informed, List.append_nil]
  · exact ⟨rfl, rfl⟩

theorem failAll_frame (c : Connection ρ) (cause : Failure) :
    (c.failAll cause).work.outstanding = [] ∧ (c.failAll cause).inbox.closedBy = some cause ∧
      (c.failAll cause).inbox.nextNumber = c.inbox.nextNumber := by
  have refused := (refuseAll_frame c cause).1
  obtain ⟨_, _, all⟩ := resolveAll_eq ({ c.refuseAll cause with
    inFlight := [], pending := [],
    inbox := { (c.refuseAll cause).inbox with queue := [] } } : Connection ρ)
      (c.refuseAll cause).outstanding (.error cause)
  unfold Connection.failAll
  dsimp only
  rw [all]
  exact ⟨rfl, congrArg Work.closedBy refused, congrArg Work.nextNumber refused⟩

theorem dropCancelled_eq (c : Connection ρ) :
    c.dropCancelled =
      ({ c with pending := c.pending.filter (not ∘ fun s => c.isCancelled s.number) } :
        Connection ρ).resolveAll (c.pending.filter fun s => c.isCancelled s.number)
        (.error .cancelled) := by
  rw [Connection.dropCancelled, List.partition_eq_filter_filter]

theorem dropCancelled_frame (c : Connection ρ) :
    c.dropCancelled.inFlight = c.inFlight ∧ c.dropCancelled.inbox = c.inbox ∧
      c.dropCancelled.pending.Sublist c.pending := by
  rw [dropCancelled_eq]
  obtain ⟨_, _, all⟩ := resolveAll_eq _ _ _
  rw [all]
  exact ⟨rfl, rfl, List.filter_sublist⟩

theorem submit_frame (c : Connection ρ) (query : String) (params : List Param)
    (consumer : Consumer ρ) :
    (c.submit query params consumer).2.inFlight = c.inFlight ∧
      (c.submit query params consumer).2.inbox.closedBy = c.inbox.closedBy ∧
      (c.inbox.closedBy ≠ none →
        (c.submit query params consumer).2.work.outstanding = c.work.outstanding) := by
  unfold Connection.submit
  dsimp only
  split
  · exact ⟨rfl, rfl, fun _ => rfl⟩
  · next opened => exact ⟨rfl, rfl, fun closed => absurd opened closed⟩

theorem abort_nextNumber (c : Connection ρ) (cause : Failure) :
    (c.abort cause).inbox.nextNumber = c.inbox.nextNumber := by
  unfold Connection.abort
  split
  · rfl
  · exact (failAll_frame (c.moveTo .closed) cause).2.2.trans
      (congrArg Work.nextNumber (SameWork.moveTo c .closed).work)

theorem beginClose_nextNumber (c : Connection ρ) :
    c.beginClose.inbox.nextNumber = c.inbox.nextNumber := by
  unfold Connection.beginClose
  split
  · exact (congrArg Work.nextNumber (Aside.leave (c.failAll .closed)).work).trans
      (failAll_frame c .closed).2.2
  · exact c.abort_nextNumber .closed

theorem failAll_stage (c : Connection ρ) (cause : Failure) : (c.failAll cause).stage = c.stage := by
  obtain ⟨_, _, all⟩ := resolveAll_eq ({ c.refuseAll cause with
    inFlight := [], pending := [],
    inbox := { (c.refuseAll cause).inbox with queue := [] } } : Connection ρ)
      (c.refuseAll cause).outstanding (.error cause)
  unfold Connection.failAll
  dsimp only
  rw [all]
  unfold Connection.refuseAll
  dsimp only [releaseHeld]
  split <;> rfl

theorem abort_stage (c : Connection ρ) (cause : Failure) : (c.abort cause).stage = .closed := by
  unfold Connection.abort
  split
  · assumption
  · exact (failAll_stage _ cause).trans (moveTo_stage c .closed)

theorem submit_stage (c : Connection ρ) (query : String) (params : List Param)
    (consumer : Consumer ρ) : (c.submit query params consumer).2.stage = c.stage := by
  unfold Connection.submit
  dsimp only
  split <;> rfl

theorem dropCancelled_stage (c : Connection ρ) : c.dropCancelled.stage = c.stage := by
  unfold Connection.dropCancelled
  dsimp only
  obtain ⟨_, _, all⟩ := resolveAll_eq _ _ _
  rw [all]

end Connection

namespace Turn

open Connection

theorem Stride.goesOn {K : Consumer ρ → Prop} {t u : Turn ρ} (stride : Stride K t u)
    (h : u.GoesOn) : t.GoesOn := by
  cases stride with
  | idle same => exact same.goesOn h
  | submit query params consumer allowed =>
    exact ⟨h.1, fun closed => h.2 ((submit_stage _ query params consumer).trans closed)⟩
  | tell cause => exact absurd (abort_stage _ cause) h.2
  | message m alive => exact ⟨rfl, alive⟩
  | collect => exact h
  | @close c =>
    refine ⟨rfl, fun closed => h.2 ?_⟩
    have closed : c.stage = .closed := closed
    simp [done, Connection.beginClose, Connection.abort, closed]
  | drop =>
    refine ⟨rfl, ?_⟩
    rw [done, ← dropCancelled_stage]
    exact h.2
  | send ready first => exact .of_stage ready (by decide)

end Turn

end PgPipeline
