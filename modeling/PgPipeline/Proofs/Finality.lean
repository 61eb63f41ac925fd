import PgPipeline.Proofs.Attempts
import PgPipeline.Proofs.Course
import PgPipeline.Proofs.Success
import PgPipeline.Proofs.Tally

namespace PgPipeline

open scoped List

variable {ρ : Type}

namespace Connection

variable {c d e : Connection ρ}

def Released (c : Connection ρ) : Prop := c.inbox.closedBy ≠ none → c.sequencer.held = []

namespace Released

theorem failAll (c : Connection ρ) (cause : Failure) : (c.failAll cause).sequencer.held = [] := by
  unfold Connection.failAll
  rfl

theorem abort (h : c.Released) (cause : Failure) : (c.abort cause).Released := by
  unfold Connection.abort
  split
  · exact h
  · exact fun _ => failAll _ cause

theorem beginClose (h : c.Released) : c.beginClose.Released := by
  unfold Connection.beginClose
  split
  · intro _
    have sequencer := congrArg Work.sequencer (Aside.leave (c.failAll .closed)).work
    exact (congrArg Sequencer.held sequencer).trans (failAll c .closed)
  · exact h.abort .closed

theorem of_work {w : Work ρ} (h : c.Released) (work : d.work = w)
    (closedBy : w.closedBy = c.inbox.closedBy) (sequencer : w.sequencer = c.sequencer) :
    d.Released := by
  subst work
  have closedBy : d.inbox.closedBy = c.inbox.closedBy := closedBy
  have sequencer : d.sequencer = c.sequencer := sequencer
  rw [Released, closedBy, sequencer]
  exact h

theorem message (h : c.Released) (shut : c.inbox.closedBy ≠ none → c.inFlight = [])
    (m : BackendMessage) : (c.onMessage m).after.Released := by
  intro closed
  rw [EndsForCause.onMessage_closedBy] at closed
  have idle : (c.enter [.received m]).inFlight = [] := shut closed
  rcases onMessage_cases c m with ⟨_, _, e⟩ | ⟨_, _, e⟩ | ⟨_, _, e⟩ | ⟨_, _, _, _, e⟩ <;> rw [e]
  · exact h closed
  · have work := (SameWork.onAuthMessage (c.enter [.received m]) m).work
    exact (congrArg (fun w => w.sequencer.held) work).trans (h closed)
  · have none_ {f : Flight ρ} {rest : List (Flight ρ)}
        (head : (c.enter [.received m]).inFlight = f :: rest) : False := by
      rw [idle] at head
      cases head
    have answered := onQueryMessage_answered (c.enter [.received m]) m
    generalize (c.enter [.received m]).onQueryMessage m = t at answered
    cases answered with
    | refused => exact h closed
    | noted cache plain head => exact (none_ head).elim
    | tagged tag head => exact (none_ head).elim
    | passed values columns head => exact (none_ head).elim
    | offered values columns head => exact (none_ head).elim
    | broke values columns head => exact (none_ head).elim
    | finished status head => exact (none_ head).elim
  · exact h closed

theorem step {K : Consumer ρ → Prop} {t u : Turn ρ} (stride : Turn.Stride K t u)
    (h : t.after.Released) (shut : t.after.inbox.closedBy ≠ none → t.after.work.outstanding = []) :
    u.after.Released := by
  cases stride with
  | idle same => exact h.of_work same.aside.work rfl rfl
  | submit query params consumer allowed =>
    unfold Turn.request Connection.submit
    dsimp only
    split <;> exact h
  | tell cause => exact h.abort cause
  | message m alive =>
    refine h.message (fun closed => ?_) m
    have none_ := shut closed
    simp only [Turn.done, Work.outstanding, work, List.append_eq_nil_iff, List.map_eq_nil_iff] at none_
    exact none_.1.1
  | collect => exact h
  | close => exact h.beginClose
  | @drop c =>
    intro closed
    have inbox := (dropCancelled_frame c).2.1
    have closed : c.inbox.closedBy ≠ none := by
      rw [← inbox]
      exact closed
    have none_ := shut closed
    simp only [Turn.done, Work.outstanding, work, List.append_eq_nil_iff, List.map_eq_nil_iff] at none_
    rw [Turn.done, dropCancelled_eq, none_.1.2]
    exact h closed
  | @send c s rest ready first kept =>
    have opened : c.inbox.closedBy = none := by
      refine Classical.byContradiction fun closed => ?_
      have none_ := shut closed
      simp [Work.outstanding, work, first, Turn.done] at none_
    intro closed
    rw [Turn.done, (send_frame _ s).2.2] at closed
    exact absurd opened closed

end Released

/-- The second connection only refuses what was handed in after the first one was closed: nothing is
queued or written, and nothing is entered about what was handed in before. -/
structure Refuses (c d : Connection ρ) : Prop where
  stage : d.stage = .closed
  outbound : d.outbound = c.outbound
  closedBy : d.inbox.closedBy = c.inbox.closedBy
  readiness : d.inbox.readiness = c.inbox.readiness
  numbers : c.inbox.nextNumber ≤ d.inbox.nextNumber
  waiters : c.inbox.nextWaiter ≤ d.inbox.nextWaiter
  record : ∃ es, d.record = c.record ++ es ∧ ∀ e ∈ es,
    (∃ n cause, c.inbox.nextNumber ≤ n ∧ c.inbox.closedBy = some cause ∧
      e = .resolved ⟨n, .error cause⟩) ∨
    ∃ w result, c.inbox.nextWaiter ≤ w ∧ e = .informed w result

namespace Refuses

theorem of_eq (stage : d.stage = .closed) (outbound : d.outbound = c.outbound)
    (closedBy : d.inbox.closedBy = c.inbox.closedBy)
    (readiness : d.inbox.readiness = c.inbox.readiness)
    (nextNumber : d.inbox.nextNumber = c.inbox.nextNumber)
    (nextWaiter : d.inbox.nextWaiter = c.inbox.nextWaiter) (record : d.record = c.record) :
    Refuses c d :=
  ⟨stage, outbound, closedBy, readiness, Nat.le_of_eq nextNumber.symm, Nat.le_of_eq nextWaiter.symm,
    [], by rw [record, List.append_nil], by simp⟩

theorem refl (closed : c.stage = .closed) : Refuses c c := of_eq closed rfl rfl rfl rfl rfl rfl

theorem trans (h : Refuses c d) (k : Refuses d e) : Refuses c e := by
  obtain ⟨as, first, ha⟩ := h.record
  obtain ⟨bs, second, hb⟩ := k.record
  refine ⟨k.stage, k.outbound.trans h.outbound, k.closedBy.trans h.closedBy,
    k.readiness.trans h.readiness, Nat.le_trans h.numbers k.numbers,
    Nat.le_trans h.waiters k.waiters, as ++ bs, ?_, fun x hx => ?_⟩
  · rw [second, first, List.append_assoc]
  · rcases List.mem_append.mp hx with hx | hx
    · exact ha x hx
    · rcases hb x hx with ⟨n, cause, le, closed, same⟩ | ⟨w, result, le, same⟩
      · exact .inl ⟨n, cause, Nat.le_trans h.numbers le, h.closedBy ▸ closed, same⟩
      · exact .inr ⟨w, result, Nat.le_trans h.waiters le, same⟩

theorem submit (closed : c.stage = .closed) (ended : c.inbox.closedBy ≠ none) (query : String)
    (params : List Param) (consumer : Consumer ρ) :
    Refuses c (c.submit query params consumer).2 := by
  unfold Connection.submit
  dsimp only
  split
  · next cause shut =>
    refine ⟨closed, rfl, rfl, rfl, Nat.le_succ _, Nat.le_refl _, _, rfl, fun e he => ?_⟩
    exact .inl ⟨_, cause, Nat.le_refl _, shut, List.mem_singleton.mp he⟩
  · next opened => exact absurd opened ended

theorem awaitReady (closed : c.stage = .closed)
    (told : ∀ waiters, c.inbox.readiness ≠ .pending waiters) : Refuses c c.awaitReady.2 := by
  unfold Connection.awaitReady
  dsimp only
  split
  · next waiters pending => exact absurd pending (told waiters)
  all_goals
    refine ⟨closed, rfl, rfl, rfl, Nat.le_refl _, Nat.le_succ _, _, rfl, fun e he => ?_⟩
    exact .inr ⟨_, _, Nat.le_refl _, List.mem_singleton.mp he⟩

end Refuses

section

variable (c)

theorem moveTo_nextWaiter (stage : Stage) :
    (c.moveTo stage).inbox.nextWaiter = c.inbox.nextWaiter := by
  unfold moveTo
  split <;> rfl

theorem failAll_nextWaiter (cause : Failure) :
    (c.failAll cause).inbox.nextWaiter = c.inbox.nextWaiter := by
  have refused : (c.refuseAll cause).inbox.nextWaiter = c.inbox.nextWaiter := by
    unfold refuseAll
    dsimp only
    split <;> rfl
  obtain ⟨_, _, all⟩ := resolveAll_eq ({ c.refuseAll cause with
    inFlight := [], pending := [],
    inbox := { (c.refuseAll cause).inbox with queue := [] } } : Connection ρ)
      (c.refuseAll cause).outstanding (.error cause)
  unfold failAll
  dsimp only
  rw [all]
  exact refused

theorem abort_nextWaiter (cause : Failure) :
    (c.abort cause).inbox.nextWaiter = c.inbox.nextWaiter := by
  unfold abort
  split
  · rfl
  · exact (failAll_nextWaiter _ cause).trans (moveTo_nextWaiter c .closed)

theorem beginClose_nextWaiter : c.beginClose.inbox.nextWaiter = c.inbox.nextWaiter := by
  unfold beginClose
  split
  · have ended := (Still.endChannel ((c.failAll .closed).queue [.terminate])).shell
    exact (moveTo_nextWaiter _ _).trans
      ((congrArg Shell.nextWaiter ended).trans (failAll_nextWaiter c .closed))
  · exact abort_nextWaiter c .closed

theorem onAuthMessage_nextWaiter (m : BackendMessage) :
    (c.onAuthMessage m).after.inbox.nextWaiter = c.inbox.nextWaiter := by
  unfold onAuthMessage onAuthenticationOk beginExchange onChallenge onSignature withPassword
    becomeReady
  cases m <;> dsimp only [Turn.done, Turn.fail, queue, enter] <;> try rfl
  all_goals repeat' split
  all_goals first | rfl | exact moveTo_nextWaiter _ _

theorem onMessage_nextWaiter (m : BackendMessage) :
    (c.onMessage m).after.inbox.nextWaiter = c.inbox.nextWaiter := by
  rcases onMessage_cases c m with ⟨_, _, e⟩ | ⟨_, _, e⟩ | ⟨_, _, e⟩ | ⟨_, _, _, _, e⟩ <;> rw [e]
  · rfl
  · exact onAuthMessage_nextWaiter _ m
  · exact congrArg Inbox.nextWaiter (onQueryMessage_answered _ m).inbox
  · rfl

theorem write_nextWaiter (socket : Socket) :
    (c.write socket).after.inbox.nextWaiter = c.inbox.nextWaiter := by
  rcases c.write_cases socket with ⟨e, _⟩ | ⟨_, _, writes⟩
  · rw [e]
    rfl
  · generalize c.outbound.writeTo socket.writes = w at writes
    generalize c.write socket = t at writes
    cases writes with
    | left ending leaving => exact moveTo_nextWaiter _ _
    | drained | blocked | failed => rfl

theorem sendStartup_nextWaiter : c.sendStartup.inbox.nextWaiter = c.inbox.nextWaiter :=
  moveTo_nextWaiter _ _

theorem onConnected_nextWaiter : c.onConnected.inbox.nextWaiter = c.inbox.nextWaiter := by
  unfold onConnected
  dsimp only
  split
  · exact sendStartup_nextWaiter _
  · rfl

theorem onEncryptionAnswer_nextWaiter (byte : UInt8) :
    (c.onEncryptionAnswer byte).after.inbox.nextWaiter = c.inbox.nextWaiter := by
  unfold onEncryptionAnswer encrypt Turn.andThen
  dsimp only
  repeat' split
  all_goals first
    | rfl
    | exact sendStartup_nextWaiter _

end

theorem serves_nextWaiter : Turn.Serves (ρ := ρ) fun t u =>
    u.after.inbox.nextWaiter = t.after.inbox.nextWaiter where
  begin _ := moveTo_nextWaiter _ _
  breakOff _ := rfl
  feed _ := rfl
  learn certificate := congrArg Shell.nextWaiter (Still.learnCertificate _ certificate).shell
  answer byte _ _ := onEncryptionAnswer_nextWaiter _ byte
  message m _ := onMessage_nextWaiter _ m
  part _ := moveTo_nextWaiter _ _
  collect := rfl
  close := beginClose_nextWaiter _
  drop := congrArg Shell.nextWaiter (Still.dropCancelled _).shell
  send _ _ _ := congrArg Inbox.nextWaiter (send_frame _ _).2.2
  write socket := write_nextWaiter _ socket

end Connection

def Action.asks : Action ρ → Bool
  | .awaitReady => true
  | _ => false

namespace Turn

open Connection

variable {t : Turn ρ}

theorem act_nextWaiter (t : Turn ρ) (a : Action ρ) :
    (t.act a).after.inbox.nextWaiter = t.after.inbox.nextWaiter + [a].countP Action.asks := by
  cases a with
  | submit query params consumer =>
    exact congrArg Shell.nextWaiter (Still.submit t.after query params consumer).shell
  | cancel number => exact congrArg Shell.nextWaiter (Still.cancel t.after number).shell
  | awaitReady =>
    unfold act request Connection.awaitReady
    dsimp only
    split <;> rfl
  | requestClose => rfl
  | dispatch event socket =>
    unfold act Turn.andThen
    dsimp only
    split
    · have steps := dispatch_steps serves_nextWaiter t.after event socket
        fun _ _ => onConnected_nextWaiter _
      generalize t.after.dispatch event socket = u at steps
      induction steps with
      | refl => rfl
      | tail _ last ih => exact last.trans ih
    · rfl
  | tell cause => exact abort_nextWaiter t.after _

theorem act_nextNumber (regular : Regular t) (a : Action ρ) :
    (t.act a).after.inbox.nextNumber =
      t.after.inbox.nextNumber + (Action.consumers [a]).length := by
  by_cases brings : ∃ query params consumer, a = .submit query params consumer
  · obtain ⟨query, params, consumer, rfl⟩ := brings
    unfold act request Connection.submit
    dsimp only
    split <;> rfl
  · have allowed : a.Allows fun _ => False := by
      cases a with
      | submit query params consumer => exact absurd ⟨query, params, consumer, rfl⟩ brings
      | _ => trivial
    have none_ : Action.consumers [a] = [] := by
      cases a with
      | submit query params consumer => exact absurd ⟨query, params, consumer, rfl⟩ brings
      | _ => rfl
    rw [none_]
    have all := moves_invariant
      (P := fun u => Regular u ∧ u.after.inbox.nextNumber = t.after.inbox.nextNumber)
      (fun move ⟨regular, same⟩ => by
        have handled := regular.orderly.handled move.stride
        refine ⟨regular.step move.stride, ?_⟩
        rcases handled.nextNumber_cases with still | ⟨⟨_, never⟩, _⟩
        · exact still.trans same
        · exact never.elim)
      (act_moves t allowed) ⟨regular, rfl⟩
    exact all.2

theorem act_refuses (closed : t.after.stage = .closed) (ended : t.after.inbox.closedBy ≠ none)
    (told : ∀ waiters, t.after.inbox.readiness ≠ .pending waiters) (a : Action ρ) :
    Refuses t.after (t.act a).after := by
  cases a with
  | submit query params consumer => exact .submit closed ended query params consumer
  | cancel number =>
    unfold act request Connection.cancel
    dsimp only
    split
    · exact .of_eq closed rfl rfl rfl rfl rfl rfl
    · exact .refl closed
  | awaitReady => exact .awaitReady closed told
  | requestClose => exact .of_eq closed rfl rfl rfl rfl rfl rfl
  | dispatch event socket =>
    unfold act Turn.andThen Connection.dispatch
    dsimp only
    split
    · rw [if_pos closed]
      exact .refl closed
    · exact .refl closed
  | tell cause =>
    unfold act Connection.abort
    dsimp only [Turn.done]
    rw [if_pos closed]
    exact .refl closed

theorem drive_refuses (closed : t.after.stage = .closed) (ended : t.after.inbox.closedBy ≠ none)
    (told : ∀ waiters, t.after.inbox.readiness ≠ .pending waiters) (actions : List (Action ρ)) :
    Refuses t.after (t.drive actions).after := by
  induction actions generalizing t with
  | nil => exact .refl closed
  | cons a rest ih =>
    have first : Refuses t.after (t.heed a).after := by
      unfold heed
      split
      · exact act_refuses closed ended told a
      · exact .refl closed
    refine first.trans (ih first.stage ?_ ?_)
    · rw [first.closedBy]
      exact ended
    · rw [first.readiness]
      exact told

structure Lasting (t : Turn ρ) : Prop where
  regular : Regular t
  tallied : t.after.Tallied
  released : t.after.Released
  course : t.after.Course

theorem Lasting.drive (h : Lasting t) (actions : List (Action ρ)) : Lasting (t.drive actions) := by
  have all := moves_invariant
    (P := fun u => Regular u ∧ u.after.Tallied ∧ u.after.Released)
    (fun move ⟨regular, tallied, released⟩ => ⟨regular.step move.stride,
      (Tallied.step move.stride tallied).tallied,
      released.step move.stride regular.orderly.inStep.shut⟩)
    (drive_moves t actions) ⟨h.regular, h.tallied, h.released⟩
  exact ⟨all.1, all.2.1, all.2.2, drive_course h.course actions⟩

theorem start_lasting (config : Config) (nonces : Nat → List Char) :
    Lasting (done (Connection.start (ρ := ρ) config nonces)) :=
  ⟨.start config nonces, .start config nonces, fun closed => absurd rfl closed, .start config nonces⟩

theorem Lasting.told (h : Lasting t) (ended : t.after.inbox.closedBy ≠ none) :
    ∀ waiters, t.after.inbox.readiness ≠ .pending waiters := by
  intro waiters pending
  have waits := h.course.waits
  rw [Waits, pending] at waits
  exact ended waits.2.2

theorem Lasting.complete (h : Lasting t) (ended : t.after.inbox.closedBy ≠ none) :
    t.after.inbox.queue = [] ∧ t.after.pending = [] ∧ t.after.inFlight = [] ∧
      t.after.sequencer.held = [] ∧
      Record.resolved t.after.record ~ List.range t.after.inbox.nextNumber ∧
      Record.informed t.after.record = List.range t.after.inbox.nextWaiter := by
  have none_ := h.regular.orderly.inStep.shut ended
  have held := h.released ended
  have numbers := h.tallied.numbers
  rw [none_, outcomes, held, List.map_nil, List.append_nil, ← Record.resolved_eq, Submission.numbers,
    List.map_nil, List.append_nil] at numbers
  simp only [Work.outstanding, work, List.append_eq_nil_iff, List.map_eq_nil_iff] at none_
  refine ⟨none_.2, none_.1.2, none_.1.1, held, numbers, ?_⟩
  · have waits := h.course.waits
    have told := h.told ended
    unfold Waits at waits
    split at waits
    · next waiters pending => exact absurd pending (told waiters)
    · exact waits

theorem heed_counts (regular : Regular t) (a : Action ρ) :
    (t.heed a).after.inbox.nextNumber =
        t.after.inbox.nextNumber + (Action.consumers [a]).length ∧
      (t.heed a).after.inbox.nextWaiter = t.after.inbox.nextWaiter + [a].countP Action.asks := by
  unfold heed
  split
  · exact ⟨act_nextNumber regular a, act_nextWaiter t a⟩
  · next untimely =>
    -- What is out of time hands nothing in.
    cases a with
    | dispatch event socket => exact ⟨rfl, rfl⟩
    | _ => exact absurd rfl untimely

theorem drive_counts (regular : Regular t) (actions : List (Action ρ)) :
    (t.drive actions).after.inbox.nextNumber =
        t.after.inbox.nextNumber + (Action.consumers actions).length ∧
      (t.drive actions).after.inbox.nextWaiter =
        t.after.inbox.nextWaiter + actions.countP Action.asks := by
  induction actions generalizing t with
  | nil => exact ⟨rfl, rfl⟩
  | cons a rest ih =>
    have stepped : Regular (t.heed a) :=
      moves_invariant (fun move regular => regular.step move.stride) (heed_moves t a) regular
    obtain ⟨numbers, waiters⟩ := heed_counts regular a
    obtain ⟨laterNumbers, laterWaiters⟩ := ih stepped
    have split : a :: rest = [a] ++ rest := rfl
    refine ⟨laterNumbers.trans ?_, laterWaiters.trans ?_⟩
    · rw [numbers, split, Action.consumers, Action.consumers, Action.consumers,
        List.filterMap_append, List.length_append, Nat.add_assoc]
    · rw [waiters, split, List.countP_append, Nat.add_assoc]

theorem Lasting.rank_le (h : Lasting t) (actions : List (Action ρ)) :
    t.after.stage.rank ≤ (t.drive actions).after.stage.rank := by
  obtain ⟨es, more⟩ := moves_record (drive_moves t actions)
  have later := (h.drive actions).course
  have climbs := later.climbs
  rw [← more, Record.climbs_append] at climbs
  rw [h.course.told, later.told, ← more, Record.stage_append]
  exact climbs.2.rank_le

/-- Nothing is stranded and nothing moves backwards: the stages a connection enters only advance,
and are those its sessions see. A closed one stays closed, writes nothing and only refuses what is
handed in late. From the moment a connection is closing it has a cause, nothing is queued, pending,
in flight or held back, every submission of the run has its one result and everyone who asked for the
end of the startup was told once. -/
theorem drive_strands_nothing (config : Config) (nonces : Nat → List Char)
    (actions : List (Action ρ)) :
    let t : Turn ρ := (done (.start config nonces)).drive actions
    let c := t.after
    c.inbox.stage = c.stage ∧ c.stage = Record.stage c.record ∧
    Record.Climbs .disconnected c.record ∧
    c.inbox.nextNumber = (Action.consumers actions).length ∧
    c.inbox.nextWaiter = actions.countP Action.asks ∧
    (∀ later, c.stage.rank ≤ (t.drive later).after.stage.rank ∧
      (c.stage = .closed → Refuses c (t.drive later).after)) ∧
    (c.stage.isEnding = true →
      c.inbox.closedBy ≠ none ∧ (∀ waiters, c.inbox.readiness ≠ .pending waiters) ∧
      c.inbox.queue = [] ∧ c.pending = [] ∧ c.inFlight = [] ∧ c.sequencer.held = [] ∧
      Record.resolved c.record ~ List.range c.inbox.nextNumber ∧
      Record.informed c.record = List.range c.inbox.nextWaiter) := by
  intro t c
  have lasting : Lasting t := (start_lasting config nonces).drive actions
  have counts := drive_counts (start_lasting (ρ := ρ) config nonces).regular actions
  refine ⟨lasting.course.shown, lasting.course.told, lasting.course.climbs,
    counts.1.trans (Nat.zero_add _), counts.2.trans (Nat.zero_add _),
    fun later => ⟨lasting.rank_le later, fun closed => ?_⟩, fun ending => ?_⟩
  · have ended := lasting.regular.orderly.ends (closed ▸ rfl : c.stage.isEnding = true)
    exact drive_refuses closed ended (lasting.told ended) later
  · have ended : c.inbox.closedBy ≠ none := lasting.regular.orderly.ends ending
    exact ⟨ended, lasting.told ended, lasting.complete ended⟩

theorem drive_strands_nothing_closed :
    let actions : List (Action Nat) :=
      .awaitReady :: Action.admission ++ [.submit "a" [] Consumer.count, .attention,
        .submit "b" [] Consumer.count, .requestClose, .dispatch .writable (.quiet [.takes 1000])]
    let t := (done (.start { Config.default with encryption := .disable } fun _ => [])).drive actions
    let c := t.after
    c.stage = .closed ∧ Refuses c (t.drive [.submit "c" [] Consumer.count, .awaitReady]).after ∧
      c.inbox.closedBy ≠ none ∧ c.inbox.queue = [] ∧ c.pending = [] ∧ c.inFlight = [] ∧
      c.sequencer.held = [] ∧ Record.resolved c.record ~ [0, 1] ∧ Record.informed c.record = [0] := by
  intro actions t c
  have closed : c.stage = .closed := by decide +kernel
  obtain ⟨-, -, -, numbers, waiters, later, ends⟩ := drive_strands_nothing
    { Config.default with encryption := .disable } (fun _ => []) actions
  obtain ⟨cause, -, queue, pending, inFlight, held, resolved, informed⟩ := ends (closed ▸ rfl)
  rw [numbers] at resolved
  rw [waiters] at informed
  exact ⟨closed, (later _).2 closed, cause, queue, pending, inFlight, held, resolved, informed⟩

end Turn

end PgPipeline
