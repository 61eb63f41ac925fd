import PgPipeline.Proofs.Handling

namespace PgPipeline

open scoped List

variable {ρ : Type}

namespace Connection

/-- The numbers that were handed in are those with a result, delivered or held back, and those that
wait for one. -/
structure Tallies (c : Connection ρ) (waiting : List Nat) : Prop where
  labelled : ∀ p ∈ c.sequencer.held, p.2.number = p.1
  numbers : c.outcomes.map (·.number) ++ waiting ~ List.range c.inbox.nextNumber

def Tallied (c : Connection ρ) : Prop := c.Tallies (Submission.numbers c.work.outstanding)

structure Accrues (c d : Connection ρ) : Prop where
  tallied : d.Tallied
  outcomes : c.outcomes ⊆ d.outcomes

theorem deliver_outcomes (c : Connection ρ) (r : Resolution ρ) :
    (c.enter [.resolved r]).outcomes ~ r :: c.outcomes := by
  have released : Record.resolutions (c.record ++ [.resolved r]) =
      Record.resolutions c.record ++ [r] := by simp [Record.resolutions, Entry.resolution?]
  simp only [outcomes, enter, released, List.append_assoc]
  exact List.perm_middle

namespace Tallies

variable {c : Connection ρ} {n : Nat} {ws vs : List Nat}

theorem perm (h : c.Tallies ws) (p : vs ~ ws) : c.Tallies vs :=
  ⟨h.labelled, (p.append_left _).trans h.numbers⟩

theorem nodup (h : c.Tallies ws) : (c.outcomes.map (·.number) ++ ws).Nodup :=
  h.numbers.nodup_iff.mpr List.nodup_range

theorem lt (h : c.Tallies ws) (mem : n ∈ ws) : n < c.inbox.nextNumber :=
  List.mem_range.mp (h.numbers.subset (List.mem_append_right _ mem))

theorem unique (h : c.Tallies ws) {r s : Resolution ρ} (hr : r ∈ c.outcomes) (hs : s ∈ c.outcomes)
    (same : r.number = s.number) : r = s :=
  List.inj_on_of_nodup_map (List.nodup_append.mp h.nodup).1 hr hs same

theorem not_waiting (h : c.Tallies ws) {r : Resolution ρ} (mem : r ∈ c.outcomes) :
    r.number ∉ ws := by
  intro waits
  exact (List.nodup_append.mp h.nodup).2.2 _ (List.mem_map_of_mem mem) _ waits rfl

theorem not_held (h : c.Tallies ws) (waits : n ∈ ws) : n ∉ Sequencer.keys c.sequencer.held := by
  intro held
  obtain ⟨p, hp, rfl⟩ := List.mem_map.mp held
  have mem : p.2 ∈ c.outcomes := List.mem_append_right _ (List.mem_map_of_mem hp)
  exact h.not_waiting mem (h.labelled p hp ▸ waits)

theorem resolve (h : c.Tallies (n :: ws)) (result : Except Failure ρ) :
    (c.resolve n result).Tallies ws ∧
      (c.resolve n result).outcomes ~ ⟨n, result⟩ :: c.outcomes := by
  have more := resolve_outcomes_perm (c := c) (h.not_held List.mem_cons_self) result
  refine ⟨⟨?_, ?_⟩, more⟩
  · intro p hp
    rcases Sequencer.mem_held_resolve hp with rfl | old
    · rfl
    · exact h.labelled p old
  · refine ((more.map (·.number)).append_right ws).trans ?_
    exact List.perm_middle.symm.trans h.numbers

theorem resolveAll {ss : List (Submission ρ)} (h : c.Tallies (Submission.numbers ss ++ ws))
    (result : Except Failure ρ) :
    (c.resolveAll ss result).Tallies ws ∧
      (c.resolveAll ss result).outcomes ~
        ss.map (fun s => ⟨s.number, result⟩) ++ c.outcomes := by
  induction ss generalizing c with
  | nil => exact ⟨h, List.Perm.refl _⟩
  | cons s rest ih =>
    have all : c.Tallies (s.number :: (Submission.numbers rest ++ ws)) := h
    obtain ⟨first, given⟩ := all.resolve result
    obtain ⟨tallies, more⟩ := ih first
    refine ⟨tallies, more.trans ((given.append_left _).trans ?_)⟩
    exact List.perm_middle

theorem still {d : Connection ρ} (h : c.Tallies ws) (sequencer : d.sequencer = c.sequencer)
    (nextNumber : d.inbox.nextNumber = c.inbox.nextNumber)
    (resolutions : Record.resolutions d.record = Record.resolutions c.record) :
    d.Tallies ws ∧ d.outcomes = c.outcomes := by
  have same : d.outcomes = c.outcomes := by rw [outcomes, outcomes, sequencer, resolutions]
  refine ⟨⟨?_, ?_⟩, same⟩
  · rw [sequencer]
    exact h.labelled
  · rw [same, nextNumber]
    exact h.numbers

end Tallies

namespace Accrues

variable {c d e : Connection ρ}

theorem trans (h : Accrues c d) (k : Accrues d e) : Accrues c e :=
  ⟨k.tallied, fun _ hr => k.outcomes (h.outcomes hr)⟩

end Accrues

namespace Tallied

variable {c d : Connection ρ} {n : Nat}

theorem start (config : Config) (nonces : Nat → List Char) :
    (Connection.start (ρ := ρ) config nonces).Tallied :=
  ⟨fun _ held => absurd held List.not_mem_nil, List.Perm.refl _⟩

theorem still (h : c.Tallied) (sequencer : d.sequencer = c.sequencer)
    (nextNumber : d.inbox.nextNumber = c.inbox.nextNumber)
    (resolutions : Record.resolutions d.record = Record.resolutions c.record)
    (numbers : Submission.numbers d.work.outstanding ~ Submission.numbers c.work.outstanding) :
    Accrues c d := by
  obtain ⟨tallies, same⟩ := Tallies.still h sequencer nextNumber resolutions
  exact ⟨tallies.perm numbers, fun r hr => same ▸ hr⟩

theorem sameWork (h : c.Tallied) (same : SameWork c d) : Accrues c d := by
  obtain ⟨es, more, _, idle⟩ := same.record
  have none_ : Record.resolutions es = [] := by
    refine List.filterMap_eq_nil_iff.mpr fun e he => ?_
    have quiet := idle e he
    cases e <;> first | rfl | cases quiet
  refine h.still (congrArg Work.sequencer same.work) (congrArg Work.nextNumber same.work) ?_ ?_
  · rw [more, Record.resolutions_append, none_, List.append_nil]
  · rw [same.work]

theorem resolveAll {ss : List (Submission ρ)} (h : c.Tallied)
    (sequencer : d.sequencer = c.sequencer)
    (nextNumber : d.inbox.nextNumber = c.inbox.nextNumber)
    (resolutions : Record.resolutions d.record = Record.resolutions c.record)
    (outstanding : c.work.outstanding ~ ss ++ d.work.outstanding) (result : Except Failure ρ) :
    Accrues c (d.resolveAll ss result) ∧
      ∀ s ∈ ss, ⟨s.number, result⟩ ∈ (d.resolveAll ss result).outcomes := by
  have numbers : Submission.numbers ss ++ Submission.numbers d.work.outstanding ~
      Submission.numbers c.work.outstanding := by
    rw [← Submission.numbers_append]
    exact outstanding.symm.map _
  obtain ⟨before, same⟩ := Tallies.still h sequencer nextNumber resolutions
  obtain ⟨after, more⟩ := (before.perm numbers).resolveAll result
  obtain ⟨_, _, all⟩ := resolveAll_eq d ss result
  have work : (d.resolveAll ss result).work.outstanding = d.work.outstanding := by rw [all]; rfl
  refine ⟨⟨?_, fun r hr => ?_⟩, fun s hs => ?_⟩
  · rw [Tallied, work]
    exact after
  · exact more.symm.subset (List.mem_append_right _ (same ▸ hr))
  · exact more.symm.subset (List.mem_append_left _ (List.mem_map_of_mem hs))

theorem resolve {s : Submission ρ} (h : c.Tallied) (sequencer : d.sequencer = c.sequencer)
    (nextNumber : d.inbox.nextNumber = c.inbox.nextNumber)
    (resolutions : Record.resolutions d.record = Record.resolutions c.record)
    (outstanding : c.work.outstanding ~ s :: d.work.outstanding) (result : Except Failure ρ) :
    Accrues c (d.resolve s.number result) ∧
      ⟨s.number, result⟩ ∈ (d.resolve s.number result).outcomes := by
  have one : c.work.outstanding ~ [s] ++ d.work.outstanding := outstanding
  have all := h.resolveAll sequencer nextNumber resolutions one result
  exact ⟨all.1, all.2 s List.mem_cons_self⟩

theorem submit (h : c.Tallied) (query : String) (params : List Param) (consumer : Consumer ρ) :
    Accrues c (c.submit query params consumer).2 := by
  unfold Connection.submit
  dsimp only
  split
  · next cause closed =>
    have more := deliver_outcomes ({ c with inbox := { c.inbox with
      nextNumber := c.inbox.nextNumber + 1 } } : Connection ρ)
        ⟨c.inbox.nextNumber, .error cause⟩
    refine ⟨⟨h.labelled, ?_⟩, fun r hr => more.symm.subset (List.mem_cons_of_mem _ hr)⟩
    refine ((more.map (·.number)).append_right _).trans ?_
    refine (List.perm_append_singleton _ _).symm.trans ?_
    exact List.range_succ ▸ h.numbers.append_right [c.inbox.nextNumber]
  · refine ⟨⟨h.labelled, ?_⟩, fun r hr => hr⟩
    have grown := h.numbers.append_right [c.inbox.nextNumber]
    rw [← List.range_succ] at grown
    simpa [Submission.numbers, Work.outstanding, work, Submission.create, outcomes] using grown

theorem refuseAll_resolutions (c : Connection ρ) (cause : Failure) :
    Record.resolutions (c.refuseAll cause).record = Record.resolutions c.record := by
  unfold Connection.refuseAll
  dsimp only
  split
  · simp [enter, Record.resolutions, Entry.resolution?]
  · rfl

theorem releaseHeld (h : c.Tallied) : Accrues c c.releaseHeld := by
  have same : c.releaseHeld.outcomes = c.outcomes := by
    have all : Record.resolutions (c.record ++ (c.sequencer.held.map (·.2)).map .resolved) =
        Record.resolutions c.record ++ c.sequencer.held.map (·.2) := by
      rw [Record.resolutions_append, Record.resolutions_map]
    exact (List.append_nil _).trans all
  refine ⟨⟨fun p hp => absurd hp List.not_mem_nil, ?_⟩, fun r hr => same ▸ hr⟩
  rw [same]
  exact h.numbers

theorem failAll (h : c.Tallied) (cause : Failure) : Accrues c (c.failAll cause) := by
  have work := (refuseAll_frame c cause).1
  have outstanding : (c.refuseAll cause).outstanding = c.work.outstanding :=
    congrArg Work.outstanding work
  unfold Connection.failAll
  dsimp only
  rw [outstanding]
  have given := (h.resolveAll (d := { c.refuseAll cause with
    inFlight := [], pending := [], inbox := { (c.refuseAll cause).inbox with queue := [] } })
    (congrArg Work.sequencer work) (congrArg Work.nextNumber work)
    (refuseAll_resolutions c cause) (.of_eq (List.append_nil _).symm) (.error cause)).1
  exact given.trans given.tallied.releaseHeld

theorem abort (h : c.Tallied) (cause : Failure) : Accrues c (c.abort cause) := by
  unfold Connection.abort
  split
  · exact ⟨h, fun _ hr => hr⟩
  · have moved := h.sameWork (.moveTo c .closed)
    have failed := moved.tallied.failAll cause
    have dropped : Accrues ((c.moveTo .closed).failAll cause)
        { (c.moveTo .closed).failAll cause with outbound := .empty } :=
      failed.tallied.still rfl rfl rfl (.refl _)
    exact (moved.trans failed).trans dropped

theorem beginClose (h : c.Tallied) : Accrues c c.beginClose := by
  unfold Connection.beginClose
  split
  · have failed := h.failAll .closed
    exact failed.trans (failed.tallied.sameWork (Aside.leave _).sameWork)
  · exact h.abort .closed

theorem collect (h : c.Tallied) : Accrues c c.collect := by
  refine h.still rfl rfl rfl (.of_eq ?_)
  simp [Work.outstanding, work, Connection.collect]

theorem dropCancelled (h : c.Tallied) : Accrues c c.dropCancelled := by
  rw [dropCancelled_eq]
  refine (h.resolveAll (by rfl) (by rfl) (by rfl) ?_ _).1
  have parts := (List.filter_append_perm (fun s => c.isCancelled s.number) c.pending).symm
  have moved := (parts.append_left (c.inFlight.map (·.submission))).append_right c.inbox.queue
  refine moved.trans ?_
  simp only [work, Work.outstanding, List.append_assoc]
  exact List.perm_append_comm_assoc _ _ _

theorem send {s : Submission ρ} {rest : List (Submission ρ)} (h : c.Tallied)
    (first : c.pending = s :: rest) :
    Accrues c (({ c with pending := rest } : Connection ρ).send s) := by
  unfold Connection.send
  split
  · refine h.still rfl rfl ?_ (.of_eq ?_)
    · simp [enter, queue, Record.resolutions, Entry.resolution?]
    · simp [Work.outstanding, work, enter, queue, first, Flight.start]
  · refine (h.resolve (by rfl) (by rfl) (by rfl) ?_ _).1
    simp only [work, Work.outstanding, first, List.append_assoc, List.cons_append]
    exact List.perm_middle

theorem replaceHead {f g : Flight ρ} {rest : List (Flight ρ)} (h : c.Tallied)
    (head : c.inFlight = f :: rest) (number : g.submission.number = f.submission.number)
    (work_ : d.work = { c.work with inFlight := g :: rest })
    (resolutions : Record.resolutions d.record = Record.resolutions c.record) : Accrues c d := by
  refine h.still (congrArg Work.sequencer work_) (congrArg Work.nextNumber work_) resolutions
    (.of_eq ?_)
  rw [work_]
  simp [Submission.numbers, Work.outstanding, work, head, number]

theorem finished {f : Flight ρ} {rest : List (Flight ρ)} {t : Turn ρ} (h : c.Tallied)
    (status : TransactionStatus) (head : c.inFlight = f :: rest)
    (result : Finished (({ c with transaction := status, inFlight := rest } : Connection ρ).enter
      [.finished f.submission.number]) f t) : Accrues c t.after := by
  have outstanding (d : Connection ρ) (inFlight : d.inFlight = rest) (pending : d.pending = c.pending)
      (inbox : d.inbox = c.inbox) : c.work.outstanding ~ f.submission :: d.work.outstanding := by
    refine List.Perm.of_eq ?_
    simp [Work.outstanding, work, head, inFlight, pending, inbox]
  cases result with
  | told result attends =>
    refine (h.resolve (by rfl) (by rfl) ?_ (outstanding _ (by rfl) (by rfl) (by rfl)) result).1
    simp [enter, Record.resolutions, Entry.resolution?]
  | broke text attends crash =>
    -- The result does not pass through the sequencer, so it comes before those that are held back.
    have more := deliver_outcomes ((({ c with transaction := status, inFlight := rest } :
      Connection ρ).enter [.finished f.submission.number]).enter
        [.concluded f.submission.number f.summary]) ⟨f.submission.number, .error .closed⟩
    have same : ((({ c with transaction := status, inFlight := rest } :
      Connection ρ).enter [.finished f.submission.number]).enter
        [.concluded f.submission.number f.summary]).outcomes = c.outcomes := by
      simp [outcomes, enter, Record.resolutions, Entry.resolution?]
    rw [same] at more
    refine ⟨⟨h.labelled, ?_⟩, fun r hr => more.symm.subset (List.mem_cons_of_mem _ hr)⟩
    have waiting := (outstanding ({ c with transaction := status, inFlight := rest } : Connection ρ)
      rfl rfl rfl).map (·.number)
    refine ((more.map (·.number)).append_right _).trans ?_
    exact (List.perm_middle.symm.trans (waiting.symm.append_left _)).trans h.numbers
  | failed cache failure =>
    refine (h.resolve (by rfl) (by rfl) ?_ (outstanding _ (by rfl) (by rfl) (by rfl)) _).1
    simp [enter, Record.resolutions, Entry.resolution?]
  | again cache left kept =>
    refine h.still rfl rfl ?_ ?_
    · simp [Turn.done, enter, Record.resolutions, Entry.resolution?]
    · have waiting := (outstanding ({ c with inFlight := rest } : Connection ρ) rfl rfl rfl).map
        (·.number)
      refine List.Perm.trans ?_ waiting.symm
      have inserted := ((IsAccounted.insert_perm
        { f.submission with retries := f.submission.retries - 1 } c.pending).append_left
          (rest.map (·.submission))).append_right c.inbox.queue
      refine (inserted.map (·.number)).trans ?_
      simp only [Work.outstanding, work, List.map_append, List.map_cons, List.append_assoc,
        List.cons_append]
      exact List.perm_middle

theorem answered {m : BackendMessage} {t : Turn ρ} (h : c.Tallied) (a : Answered c m t) :
    Accrues c t.after := by
  cases a with
  | refused status i idle => exact h.still rfl rfl rfl (.refl _)
  | noted cache plain head submission tag rowsAffected =>
    exact h.replaceHead head (congrArg _ submission) (by rfl) (by rfl)
  | tagged tag head =>
    refine h.replaceHead head ?_ (by rfl) (by rfl)
    rfl
  | passed values columns head unattended =>
    refine h.replaceHead head ?_ (by rfl) (by rfl)
    rfl
  | offered values columns head attends taken =>
    refine h.replaceHead head (Submission.offer_same taken).1 (by rfl) ?_
    simp [Turn.done, enter, Record.resolutions, Entry.resolution?]
  | broke values columns head attends crash =>
    refine h.replaceHead head ?_ (by rfl) ?_
    · rfl
    · simp [enter, Record.resolutions, Entry.resolution?]
  | finished status head result => exact h.finished status head result

theorem message (h : c.Tallied) (m : BackendMessage) : Accrues c (c.onMessage m).after := by
  have received : Accrues c (c.enter [.received m]) := by
    refine h.still rfl rfl ?_ (.refl _)
    simp [enter, Record.resolutions, Entry.resolution?]
  rcases onMessage_cases c m with ⟨_, _, e⟩ | ⟨_, _, e⟩ | ⟨_, _, e⟩ | ⟨_, _, _, _, e⟩ <;> rw [e]
  · exact received.trans (received.tallied.still rfl rfl rfl (.refl _))
  · exact received.trans (received.tallied.sameWork (.onAuthMessage _ m))
  · exact received.trans (received.tallied.answered (onQueryMessage_answered _ m))
  · exact received

theorem step {K : Consumer ρ → Prop} {t u : Turn ρ} (stride : Turn.Stride K t u)
    (h : t.after.Tallied) : Accrues t.after u.after := by
  cases stride with
  | idle same => exact h.sameWork same.aside.sameWork
  | submit query params consumer allowed => exact h.submit query params consumer
  | tell cause => exact h.abort cause
  | message m alive => exact h.message m
  | collect => exact h.collect
  | close => exact h.beginClose
  | drop => exact h.dropCancelled
  | send ready first => exact h.send first

end Tallied

end Connection

namespace Turn

open Connection

theorem moves_accrue {K : Consumer ρ → Prop} {t u : Turn ρ} (moves : Moves K t u)
    (h : t.after.Tallied) : Accrues t.after u.after := by
  induction moves with
  | refl => exact ⟨h, fun _ hr => hr⟩
  | tail _ move ih => exact ih.trans (Tallied.step move.stride ih.tallied)

theorem run_tallied (config : Config) (nonces : Nat → List Char) (actions : List (Action ρ)) :
    ((done (.start config nonces)).run actions).after.Tallied :=
  (moves_accrue (run_moves _ fun a _ => allows_any a) (.start config nonces)).tallied

end Turn

end PgPipeline
