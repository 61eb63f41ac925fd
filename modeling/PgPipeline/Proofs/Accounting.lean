import PgPipeline.Proofs.Ending

/-!
Every submission is accounted for.

While a connection has not ended, the numbers that have no result yet are split between the inbox,
the pending submissions, those in flight and the results that the sequencer holds back. When it has
ended, every number has its result.
-/

namespace PgPipeline

open scoped List

variable {ρ : Type}

def Submission.ticket (s : Submission ρ) : Nat × Consumer ρ := (s.number, s.consumer)

def Work.tickets (w : Work ρ) : List (Nat × Consumer ρ) := w.outstanding.map Submission.ticket

structure Accounted (w : Work ρ) (resolved : List Nat) : Prop where
  steady : ∀ p ∈ w.tickets, p.2.Steady
  opened : w.closedBy = none →
    Covers w.sequencer (w.tickets.map (·.1)) w.nextNumber resolved
  shut : w.closedBy ≠ none →
    w.tickets = [] ∧ w.sequencer.held = [] ∧ resolved = List.range w.nextNumber

namespace Accounted

variable {w v : Work ρ} {res : List Nat}

theorem rearrange (h : Accounted w res) (tickets : v.tickets ~ w.tickets)
    (closedBy : v.closedBy = w.closedBy) (nextNumber : v.nextNumber = w.nextNumber)
    (sequencer : v.sequencer = w.sequencer) : Accounted v res := by
  refine ⟨fun p hp => h.steady p (tickets.subset hp), fun hv => ?_, fun hv => ?_⟩
  · rw [sequencer, nextNumber]
    exact (h.opened (closedBy ▸ hv)).perm (tickets.map _)
  · obtain ⟨none_, held, all⟩ := h.shut (closedBy ▸ hv)
    rw [none_] at tickets
    exact ⟨tickets.eq_nil, sequencer ▸ held, nextNumber ▸ all⟩

end Accounted

namespace Connection

/-- The invariant of all histories with steady consumers. -/
def IsAccounted (c : Connection ρ) : Prop := Accounted c.work (Record.resolved c.record)

namespace IsAccounted

variable {c d : Connection ρ}

theorem sameWork (h : c.IsAccounted) (same : SameWork c d) : d.IsAccounted := by
  obtain ⟨es, hes, _, idle⟩ := same.record
  unfold IsAccounted
  rw [same.work, hes, Record.resolved_append, Record.resolved_eq_nil idle, List.append_nil]
  exact h

theorem rearrange (h : c.IsAccounted) (tickets : d.work.tickets ~ c.work.tickets)
    (closedBy : d.inbox.closedBy = c.inbox.closedBy)
    (nextNumber : d.inbox.nextNumber = c.inbox.nextNumber) (sequencer : d.sequencer = c.sequencer)
    (resolved : Record.resolved d.record = Record.resolved c.record) : d.IsAccounted := by
  unfold IsAccounted
  rw [resolved]
  exact Accounted.rearrange h tickets closedBy nextNumber sequencer

theorem resolveAll {ss : List (Submission ρ)} (h : c.IsAccounted)
    (tickets : c.work.tickets ~ ss.map Submission.ticket ++ d.work.tickets)
    (closedBy : d.inbox.closedBy = c.inbox.closedBy)
    (nextNumber : d.inbox.nextNumber = c.inbox.nextNumber) (sequencer : d.sequencer = c.sequencer)
    (resolved : Record.resolved d.record = Record.resolved c.record) (result : Except Failure ρ) :
    (d.resolveAll ss result).IsAccounted := by
  cases opened : c.inbox.closedBy with
  | none =>
    have covers : Covers d.sequencer (Submission.numbers ss ++ d.work.tickets.map (·.1))
        d.inbox.nextNumber (Record.resolved d.record) := by
      have numbers : Submission.numbers ss = (ss.map Submission.ticket).map (·.1) := by
        rw [List.map_map]
        rfl
      rw [sequencer, nextNumber, resolved, numbers, ← List.map_append]
      exact (h.opened opened).perm (tickets.symm.map Prod.fst)
    have after := d.resolveAll_covers ss covers result
    obtain ⟨_, _, all⟩ := resolveAll_eq d ss result
    rw [all] at after ⊢
    refine ⟨?_, fun _ => after, fun closed => absurd (closedBy.trans opened) closed⟩
    exact fun p hp => h.steady p (tickets.symm.subset (List.mem_append_right _ hp))
  | some cause =>
    have none_ := (h.shut (by simp [work, opened])).1
    have empty : ss = [] := by
      rw [none_] at tickets
      exact List.map_eq_nil_iff.mp (List.append_eq_nil_iff.mp tickets.symm.eq_nil).1
    subst empty
    exact h.rearrange tickets.symm closedBy nextNumber sequencer resolved

theorem resolve {s : Submission ρ} (h : c.IsAccounted)
    (tickets : c.work.tickets ~ s.ticket :: d.work.tickets)
    (closedBy : d.inbox.closedBy = c.inbox.closedBy)
    (nextNumber : d.inbox.nextNumber = c.inbox.nextNumber) (sequencer : d.sequencer = c.sequencer)
    (resolved : Record.resolved d.record = Record.resolved c.record) (result : Except Failure ρ) :
    (d.resolve s.number result).IsAccounted := by
  change (d.resolveAll [s] result).IsAccounted
  exact h.resolveAll (by exact tickets) closedBy nextNumber sequencer resolved result

theorem submit (h : c.IsAccounted) (query : String) (params : List Param)
    {consumer : Consumer ρ} (steady : consumer.Steady) :
    (c.submit query params consumer).2.IsAccounted := by
  unfold Connection.submit
  dsimp only
  split
  · next cause closed =>
    obtain ⟨none_, held, all⟩ := h.shut (by simp [work, closed])
    refine ⟨fun p hp => h.steady p hp, fun hd => ?_, fun _ => ⟨none_, held, ?_⟩⟩
    · exact absurd (closed.symm.trans hd) (by simp)
    · simp only [enter, Record.resolved_append, all]
      exact List.range_succ.symm
  · next closed =>
    have tickets : (c.work.outstanding ++ [Submission.create c.inbox.nextNumber query params
        consumer]).map Submission.ticket = c.work.tickets ++ [(c.inbox.nextNumber, consumer)] :=
      List.map_append
    refine ⟨?_, fun _ => ?_, fun hd => absurd closed hd⟩
    · intro p hp
      simp only [Work.tickets, Work.outstanding, work, ← List.append_assoc] at hp tickets
      rw [tickets] at hp
      rcases List.mem_append.mp hp with hp | hp
      · exact h.steady p hp
      · exact (List.mem_singleton.mp hp) ▸ steady
    · have grown := (h.opened closed).grow
      simp only [Work.tickets, Work.outstanding, work, ← List.append_assoc] at tickets grown ⊢
      rw [tickets, List.map_append]
      exact grown

theorem failAll_complete (h : c.IsAccounted) (cause : Failure) :
    (c.failAll cause).sequencer.held = [] ∧
      Record.resolved (c.failAll cause).record = List.range c.inbox.nextNumber := by
  obtain ⟨work_, resolved⟩ := refuseAll_frame c cause
  have outstanding_ : (c.refuseAll cause).outstanding = c.work.outstanding :=
    congrArg Work.outstanding work_
  have sequencer_ : (c.refuseAll cause).sequencer = c.sequencer := congrArg Work.sequencer work_
  unfold Connection.failAll
  dsimp only
  rw [outstanding_]
  generalize he : ({ c.refuseAll cause with
    inFlight := [], pending := [],
    inbox := { (c.refuseAll cause).inbox with queue := [] } } : Connection ρ) = e
  obtain ⟨sequencer, rs, all⟩ := resolveAll_eq e c.work.outstanding (.error cause)
  have complete : sequencer.held = [] ∧
      Record.resolved (e.record ++ rs.map .resolved) = List.range c.inbox.nextNumber := by
    have record_ : Record.resolved e.record = Record.resolved c.record := by
      rw [← he]
      exact resolved
    have start : e.sequencer = c.sequencer := by
      rw [← he]
      exact sequencer_
    cases closed : c.inbox.closedBy with
    | none =>
      have covers : Covers e.sequencer (Submission.numbers c.work.outstanding ++ [])
          c.inbox.nextNumber (Record.resolved e.record) := by
        have opened := h.opened closed
        rw [Work.tickets, List.map_map] at opened
        rw [record_, start, List.append_nil]
        exact opened
      have done := e.resolveAll_covers c.work.outstanding covers (.error cause)
      rw [all] at done
      exact done.complete
    | some cause =>
      obtain ⟨none_, held, range⟩ := h.shut (by simp [work, closed])
      have empty : c.work.outstanding = [] := List.map_eq_nil_iff.mp none_
      rw [empty] at all
      have same : e = { e with sequencer, record := e.record ++ rs.map .resolved } := all
      have sequencer_ : sequencer = e.sequencer := (congrArg Connection.sequencer same).symm
      have record' : e.record ++ rs.map .resolved = e.record :=
        (congrArg Connection.record same).symm
      rw [sequencer_, record', start, record_]
      exact ⟨held, range⟩
  rw [all]
  obtain ⟨held, range⟩ := complete
  simp only [releaseHeld, Sequencer.flush, held, List.map_nil, enter, List.append_nil]
  exact ⟨trivial, range⟩

theorem failAll (h : c.IsAccounted) (cause : Failure) : (c.failAll cause).IsAccounted := by
  obtain ⟨outstanding, closedBy, nextNumber⟩ := failAll_frame c cause
  have tickets : (c.failAll cause).work.tickets = [] := List.map_eq_nil_iff.mpr outstanding
  obtain ⟨held, range⟩ := h.failAll_complete cause
  refine ⟨?_, fun opened => ?_, fun _ => ⟨tickets, held, range.trans ?_⟩⟩
  · intro p hp
    rw [tickets] at hp
    exact absurd hp List.not_mem_nil
  · exact absurd (closedBy.symm.trans opened) (Option.some_ne_none cause)
  · exact congrArg List.range nextNumber.symm

theorem abort (h : c.IsAccounted) (cause : Failure) : (c.abort cause).IsAccounted := by
  unfold Connection.abort
  split
  · exact h
  · exact ((h.sameWork (.moveTo c .closed)).failAll cause).sameWork (.of_eq rfl rfl rfl rfl rfl)

theorem beginClose (h : c.IsAccounted) : c.beginClose.IsAccounted := by
  unfold Connection.beginClose
  split
  · exact (h.failAll .closed).sameWork (Aside.leave _).sameWork
  · exact h.abort .closed

theorem collect (h : c.IsAccounted) : c.collect.IsAccounted := by
  refine h.rearrange (List.Perm.of_eq ?_) (by rfl) (by rfl) (by rfl) (by rfl)
  simp [Work.tickets, Work.outstanding, work, Connection.collect]

theorem dropCancelled (h : c.IsAccounted) : c.dropCancelled.IsAccounted := by
  rw [dropCancelled_eq]
  refine h.resolveAll ?_ (by rfl) (by rfl) (by rfl) (by rfl) _
  rw [Work.tickets, Work.tickets, ← List.map_append]
  refine List.Perm.map _ ?_
  have pending := (List.filter_append_perm (fun s => c.isCancelled s.number) c.pending).symm
  have moved := ((pending.append_left (c.inFlight.map (·.submission))).append_right c.inbox.queue)
  refine moved.trans ?_
  simp only [work, Work.outstanding, List.append_assoc]
  exact List.perm_append_comm_assoc _ _ _

theorem send {s : Submission ρ} {rest : List (Submission ρ)} (h : c.IsAccounted)
    (first : c.pending = s :: rest) :
    (({ c with pending := rest } : Connection ρ).send s).IsAccounted := by
  unfold Connection.send
  split
  · refine h.rearrange (List.Perm.of_eq ?_) (by rfl) (by rfl) (by rfl) ?_
    · simp [Work.tickets, Work.outstanding, work, enter, queue, first, Flight.start]
    · simp [enter, queue, Record.resolved, Entry.number?]
  · refine h.resolve ?_ (by rfl) (by rfl) (by rfl) (by rfl) _
    rw [Work.tickets, Work.tickets, ← List.map_cons]
    refine List.Perm.map _ ?_
    simp only [work, Work.outstanding, first, List.append_assoc, List.cons_append]
    exact List.perm_middle

theorem replaceHead {f g : Flight ρ} {rest : List (Flight ρ)} (h : c.IsAccounted)
    (head : c.inFlight = f :: rest) (same : g.submission.ticket = f.submission.ticket)
    (work_ : d.work = { c.work with inFlight := g :: rest })
    (resolved : Record.resolved d.record = Record.resolved c.record) : d.IsAccounted := by
  refine h.rearrange (List.Perm.of_eq ?_) (congrArg Work.closedBy work_)
    (congrArg Work.nextNumber work_) (congrArg Work.sequencer work_) resolved
  rw [work_]
  simp [Work.tickets, Work.outstanding, work, head, same]

theorem insert_perm (s : Submission ρ) (ss : List (Submission ρ)) :
    Submission.insert s ss ~ s :: ss := by
  unfold Submission.insert
  refine List.perm_middle.trans ?_
  rw [List.takeWhile_append_dropWhile]

theorem finished {f : Flight ρ} {rest : List (Flight ρ)} {t : Turn ρ} (h : c.IsAccounted)
    (status : TransactionStatus) (head : c.inFlight = f :: rest)
    (result : Finished (({ c with transaction := status, inFlight := rest } : Connection ρ).enter
      [.finished f.submission.number]) f t) : t.after.IsAccounted := by
  have tickets (d : Connection ρ) (inFlight : d.inFlight = rest) (pending : d.pending = c.pending)
      (inbox : d.inbox = c.inbox) : c.work.tickets ~ f.submission.ticket :: d.work.tickets := by
    refine List.Perm.of_eq ?_
    simp [Work.tickets, Work.outstanding, work, head, inFlight, pending, inbox]
  cases result with
  | told result attends =>
    refine h.resolve (tickets _ (by rfl) (by rfl) (by rfl)) (by rfl) (by rfl) (by rfl) ?_ result
    simp [enter, Record.resolved, Entry.number?]
  | broke text attends crash =>
    have steady := h.steady _ ((tickets { c with inFlight := rest } rfl rfl rfl).symm.subset
      List.mem_cons_self)
    exact absurd crash (steady.2 _ _ _)
  | failed cache failure =>
    refine h.resolve (tickets _ (by rfl) (by rfl) (by rfl)) (by rfl) (by rfl) (by rfl) ?_ _
    simp [enter, Record.resolved, Entry.number?]
  | again cache left kept =>
    -- The submission goes back among the pending ones under its old number and keeps its ticket.
    refine h.rearrange ?_ (by rfl) (by rfl) (by rfl) ?_
    · refine List.Perm.trans ?_ (tickets { c with inFlight := rest } rfl rfl rfl).symm
      have inserted := ((insert_perm { f.submission with retries := f.submission.retries - 1 }
        c.pending).append_left (rest.map (·.submission))).append_right c.inbox.queue
      refine (inserted.map Submission.ticket).trans ?_
      simp only [Work.tickets, Work.outstanding, work, List.map_append, List.map_cons,
        List.append_assoc, List.cons_append]
      exact List.perm_middle
    · simp [Turn.done, enter, Record.resolved, Entry.number?]

theorem answered {m : BackendMessage} {t : Turn ρ} (h : c.IsAccounted) (a : Answered c m t) :
    t.after.IsAccounted := by
  cases a with
  | refused status i idle => exact h
  | noted cache plain head submission tag rowsAffected =>
    exact h.replaceHead head (congrArg _ submission) (by rfl) (by rfl)
  | tagged tag head =>
    refine h.replaceHead head ?_ (by rfl) (by rfl)
    rfl
  | passed values columns head unattended =>
    refine h.replaceHead head ?_ (by rfl) (by rfl)
    rfl
  | offered values columns head attends taken =>
    refine h.replaceHead head ?_ (by rfl) ?_
    · obtain ⟨number, consumer⟩ := Submission.offer_same taken
      exact Prod.ext number consumer
    · simp [Turn.done, enter, Record.resolved, Entry.number?]
  | broke values columns head attends crash =>
    refine h.replaceHead head ?_ (by rfl) ?_
    · rfl
    · simp [enter, Record.resolved, Entry.number?]
  | finished status head result => exact h.finished status head result

theorem message (h : c.IsAccounted) (m : BackendMessage) : (c.onMessage m).after.IsAccounted := by
  have received : (c.enter [.received m]).IsAccounted := by
    refine h.rearrange (List.Perm.refl _) (by rfl) (by rfl) (by rfl) ?_
    simp [enter, Record.resolved, Entry.number?]
  rcases onMessage_cases c m with ⟨_, _, e⟩ | ⟨_, _, e⟩ | ⟨_, _, e⟩ | ⟨_, _, _, _, e⟩ <;> rw [e]
  · exact received.sameWork (.of_eq rfl rfl rfl rfl rfl)
  · exact received.sameWork (.onAuthMessage _ m)
  · exact received.answered (onQueryMessage_answered _ m)
  · exact received

theorem start (config : Config) (nonces : Nat → List Char) :
    (Connection.start (ρ := ρ) config nonces).IsAccounted := by
  refine ⟨?_, fun _ => ?_, fun closed => absurd rfl closed⟩
  · intro p hp
    exact absurd hp List.not_mem_nil
  · exact ⟨Sequencer.tidy_start 0, by simp [work, Connection.start, Sequencer.start],
      Nat.le_refl _, List.Perm.refl _, rfl⟩

theorem step {t u : Turn ρ} (stride : Turn.Stride Consumer.Steady t u)
    (h : t.after.IsAccounted) : u.after.IsAccounted := by
  cases stride with
  | idle same => exact h.sameWork same.aside.sameWork
  | submit query params consumer allowed => exact h.submit query params allowed
  | tell cause => exact h.abort cause
  | message m alive => exact h.message m
  | collect => exact h.collect
  | close => exact h.beginClose
  | drop => exact h.dropCancelled
  | send ready first => exact h.send first

end IsAccounted

def unresolved (c : Connection ρ) : List Nat :=
  Submission.numbers c.inbox.queue ++ Submission.numbers c.pending ++
    Submission.numbers (c.inFlight.map (·.submission)) ++ Sequencer.keys c.sequencer.held

theorem unresolved_perm (c : Connection ρ) :
    c.unresolved ~ c.work.tickets.map (·.1) ++ Sequencer.keys c.sequencer.held := by
  have numbers : c.work.tickets.map (·.1) = Submission.numbers c.work.outstanding := by
    rw [Work.tickets, List.map_map]
    rfl
  rw [numbers]
  refine List.Perm.append_right _ ?_
  simp only [Work.outstanding, work, Submission.numbers, List.map_append]
  refine List.perm_append_comm.trans ?_
  rw [List.append_assoc]
  exact List.perm_append_comm.append_left _

end Connection

namespace Turn

open Connection

variable {actions : List (Action ρ)}

/-- While a connection has not ended, the numbers from the next one to be released up to the next
one to be given are split between the places where submissions wait, and the numbers before them
have their results. Results come in the order of the numbers, one for each, and the end of the
connection leaves no number without one, whenever it comes and whatever follows. -/
theorem run_accounts (config : Config) (nonces : Nat → List Char)
    (steady : ∀ a ∈ actions, a.Allows Consumer.Steady) :
    let c : Connection ρ := ((done (.start config nonces)).run actions).after
    (c.inbox.closedBy = none →
      c.stage.isEnding = false ∧ c.sequencer.next ≤ c.inbox.nextNumber ∧
      c.unresolved ~ List.range' c.sequencer.next (c.inbox.nextNumber - c.sequencer.next) ∧
      Record.resolved c.record = List.range c.sequencer.next) ∧
    (c.inbox.closedBy ≠ none → Record.resolved c.record = List.range c.inbox.nextNumber) ∧
    (Record.resolved c.record).Pairwise (· < ·) ∧
    Record.resolved c.beginClose.record = List.range c.inbox.nextNumber ∧
    ∀ cause, Record.resolved (c.abort cause).record = List.range c.inbox.nextNumber := by
  intro c
  have accounted : c.IsAccounted :=
    run_induction (P := fun t => t.after.IsAccounted) (.start config nonces) IsAccounted.step steady
  have ends : c.EndsForCause :=
    run_induction (P := fun t => t.after.EndsForCause) (fun h => by cases h) EndsForCause.step steady
  have covers (opened : c.inbox.closedBy = none) := accounted.opened opened
  have all (closed : c.inbox.closedBy ≠ none) := (accounted.shut closed).2.2
  refine ⟨fun opened => ⟨?_, (covers opened).le, ?_, (covers opened).resolved⟩, all, ?_, ?_, ?_⟩
  · exact Bool.eq_false_iff.mpr fun ending => ends ending opened
  · exact c.unresolved_perm.trans (covers opened).parts
  · rcases Classical.em (c.inbox.closedBy = none) with opened | closed
    · rw [(covers opened).resolved]
      exact List.pairwise_lt_range
    · rw [all closed]
      exact List.pairwise_lt_range
  · rw [← c.beginClose_nextNumber]
    exact (accounted.beginClose.shut ends.beginClose).2.2
  · intro cause
    rw [← c.abort_nextNumber cause]
    exact ((accounted.abort cause).shut (ends.abort cause)).2.2

theorem run_accounts_cancelled_then_lost :
    let actions : List (Action Nat) :=
      [.submit "select 1" [] .count, .submit "select 2" [] .count, .cancel 1, .tell (.io "reset")]
    (∀ a ∈ actions, a.Allows Consumer.Steady) ∧
      Record.resolved ((done (.start Config.default fun _ => [])).run actions).after.record =
        [0, 1] := by
  intro actions
  have count : (Consumer.count).Steady := by
    constructor <;> exact fun _ _ _ h => by cases h
  have steady : ∀ a ∈ actions, a.Allows Consumer.Steady := by
    simp [actions, Action.Allows, count]
  exact ⟨steady, (run_accounts Config.default (fun _ => []) steady).2.1 (by decide)⟩

end Turn

end PgPipeline
