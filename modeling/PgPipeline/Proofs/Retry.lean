import PgPipeline.Proofs.Attempts
import PgPipeline.Proofs.Tally

/-!
How often a submission is sent, and with which statements.

A submission that waits to be sent has an attempt left for each statement it has not used up, and the
statement that failed it is no longer in the cache, so a second attempt finds another one.
`Turn.Sparing` holds of every history (`Turn.moves_frugal`).
-/

namespace PgPipeline

open scoped List

variable {ρ : Type}

structure Flight.SameTry (f g : Flight ρ) : Prop where
  number : g.submission.number = f.submission.number
  retries : g.submission.retries = f.submission.retries
  statement : g.statement = f.statement
  key : g.key = f.key
  preparedHere : g.preparedHere = f.preparedHere

theorem Flight.SameTry.refl (f : Flight ρ) : f.SameTry f := ⟨rfl, rfl, rfl, rfl, rfl⟩

namespace Connection

variable {c d : Connection ρ} {n : Nat} {ids : List StatementId}

def waiting (c : Connection ρ) : List (Submission ρ) := c.pending ++ c.inbox.queue

/-- The submission was sent with these statements, which all differ. -/
structure Used (c : Connection ρ) (n : Nat) (ids : List StatementId) : Prop where
  names : (Record.sendings n c.record).map (·.statement) = ids.map Statement.nameOf
  nodup : ids.Nodup
  created : ∀ id ∈ ids, id ≤ c.cache.table.length

theorem Used.still (h : c.Used n ids)
    (sendings : Record.sendings n d.record = Record.sendings n c.record)
    (length : c.cache.table.length ≤ d.cache.table.length) : d.Used n ids := by
  refine ⟨?_, h.nodup, fun id mem => Nat.le_trans (h.created id mem) length⟩
  rw [sendings]
  exact h.names

theorem Used.length_eq (h : c.Used n ids) : (Record.sendings n c.record).length = ids.length := by
  simpa using congrArg List.length h.names

theorem Answered.attempts {m : BackendMessage} {t : Turn ρ} (h : Answered c m t)
    (quiet : m.isReady = false) : t.after.waiting = c.waiting ∧
      t.after.inFlight.map (·.submission.retries) = c.inFlight.map (·.submission.retries) := by
  cases h with
  | refused status i idle => exact ⟨rfl, rfl⟩
  | noted cache plain head submission => exact ⟨rfl, by simp [Turn.done, head, submission]⟩
  | tagged tag head => exact ⟨rfl, by simp [Turn.done, head]⟩
  | passed values columns head => exact ⟨rfl, by simp [Turn.done, head]⟩
  | @offered f rest s values columns head attends taken =>
    have retries : s.retries = f.submission.retries := by
      unfold Submission.offer at taken
      split at taken <;> cases taken <;> rfl
    exact ⟨rfl, by simp [Turn.done, head, retries]⟩
  | broke values columns head => exact ⟨rfl, by simp [head]⟩
  | finished status head result => cases quiet

end Connection

namespace Turn

open Connection

variable {K : Consumer ρ → Prop} {origin t u : Turn ρ} {n : Nat}

/-- The first attempt at the submission ended because the server did not know its statement, at a time
when it was not given up. -/
def Lapsed (origin t : Turn ρ) (n : Nat) : Prop :=
  ∃ d f status report, Ended origin t d f status ∧ f.submission.number = n ∧
    (Record.sendings n d.record).length = 1 ∧ f.error = some report ∧
    report.isUnknownStatement = true ∧ d.isCancelled n = false

theorem Lapsed.tail (h : Lapsed origin t n) (move : Move K t u) : Lapsed origin u n := by
  obtain ⟨d, f, status, report, ended, rest⟩ := h
  exact ⟨d, f, status, report, ended.tail move, rest⟩

/-- A submission that waits may be sent once more than it was not sent, with a statement that has not
failed it. -/
def Rests (origin t : Turn ρ) (s : Submission ρ) : Prop :=
  ∃ past, t.after.Used s.number past ∧ past.length + s.retries = 1 ∧
    (∀ e ∈ t.after.cache.entries, e.2 ∉ past) ∧ (past ≠ [] → Lapsed origin t s.number)

/-- What is in flight was sent last, with its statement. -/
def Flies (t : Turn ρ) (f : Flight ρ) : Prop :=
  ∃ past, t.after.Used f.submission.number (past ++ [f.statement]) ∧
    past.length + f.submission.retries = 1 ∧
    ∃ last, (Record.sendings f.submission.number t.after.record).getLast? = some last ∧
      last.prepares = f.preparedHere

structure Rationed (origin t : Turn ρ) : Prop where
  matched : ∀ f ∈ t.after.inFlight, ∀ e ∈ t.after.cache.entries, e.2 = f.statement → e.1 = f.key
  rests : ∀ s ∈ t.after.waiting, Rests origin t s
  flies : ∀ f ∈ t.after.inFlight, Flies t f

/-- The invariant of all histories: what was sent for every submission so far, and, while the
connection goes on, what may still be sent. -/
structure Sparing (origin t : Turn ρ) : Prop where
  past : ∀ n, t.after.inbox.nextNumber ≤ n → Record.sendings n t.after.record = []
  used : ∀ n, ∃ ids, t.after.Used n ids ∧ ids.length ≤ 2
  executes : ∀ n, ∀ s ∈ Record.sendings n t.after.record, s.Executes
  lapsed : ∀ n, 2 ≤ (Record.sendings n t.after.record).length → Lapsed origin t n
  rationed : t.GoesOn → t.after.inbox.closedBy = none → Rationed origin t

theorem Flies.still {f g : Flight ρ} (h : Flies t f) (same : f.SameTry g)
    (sendings : Record.sendings f.submission.number u.after.record =
      Record.sendings f.submission.number t.after.record)
    (length : t.after.cache.table.length ≤ u.after.cache.table.length) : Flies u g := by
  obtain ⟨past, used, count, last, sent, prepares⟩ := h
  refine ⟨past, ?_, ?_, last, ?_, ?_⟩
  · rw [same.number, same.statement]
    exact used.still sendings length
  · rw [same.retries]
    exact count
  · rw [same.number, sendings]
    exact sent
  · rw [same.preparedHere]
    exact prepares

theorem Rests.still {s : Submission ρ} (h : Rests origin t s) (move : Move K t u)
    (sendings : Record.sendings s.number u.after.record = Record.sendings s.number t.after.record)
    (entries : ∀ e ∈ u.after.cache.entries,
      e ∈ t.after.cache.entries ∨ t.after.cache.table.length < e.2)
    (length : t.after.cache.table.length ≤ u.after.cache.table.length) : Rests origin u s := by
  obtain ⟨past, used, count, retired, lapsed⟩ := h
  refine ⟨past, used.still sendings length, count, fun e he mem => ?_,
    fun some_ => (lapsed some_).tail move⟩
  rcases entries e he with old | new
  · exact retired e old mem
  · exact absurd (used.created _ mem) (Nat.not_le_of_lt new)

namespace Sparing

theorem start (config : Config) (nonces : Nat → List Char) (origin : Turn ρ) :
    Sparing origin (done (.start config nonces)) := by
  refine ⟨fun _ _ => rfl, fun n => ⟨[], ⟨rfl, List.nodup_nil, ?_⟩, ?_⟩, ?_, ?_,
    fun _ _ => ⟨?_, ?_, ?_⟩⟩
  · simp
  · simp
  · intro n s mem
    cases mem
  · intro n two
    exact absurd two (Nat.not_succ_le_zero 1)
  all_goals
    intro x mem
    cases mem

theorem still (h : Sparing origin t) (regular : Regular t) (move : Move K t u)
    {es : List (Entry ρ)} (record : u.after.record = t.after.record ++ es)
    (quiet : ∀ e ∈ es, e.sentNumber? = none)
    (forgets : t.after.cache.entries ⊇ u.after.cache.entries ∧
      u.after.cache.table.length = t.after.cache.table.length)
    (before : u.GoesOn → u.after.inbox.closedBy = none →
      t.GoesOn ∧ t.after.inbox.closedBy = none ∧
      (∀ g ∈ u.after.inFlight, ∃ f ∈ t.after.inFlight, f.SameTry g) ∧
      ∀ s ∈ u.after.waiting, s ∈ t.after.waiting ∨ Rests origin u s) : Sparing origin u := by
  have sendings (n : Nat) : Record.sendings n u.after.record = Record.sendings n t.after.record := by
    rw [record]
    exact Record.sendings_still quiet
  have length := Nat.le_of_eq forgets.2.symm
  have handed : t.after.inbox.nextNumber ≤ u.after.inbox.nextNumber := by
    rcases (regular.orderly.handled move.stride).nextNumber_cases with same | ⟨_, more⟩ <;> omega
  refine ⟨fun n unknown => ?_, fun n => ?_, fun n => ?_, fun n two => ?_, fun going opened => ?_⟩
  · rw [sendings]
    exact h.past n (Nat.le_trans handed unknown)
  · obtain ⟨ids, used, few⟩ := h.used n
    exact ⟨ids, used.still (sendings n) length, few⟩
  · rw [sendings]
    exact h.executes n
  · rw [sendings] at two
    exact (h.lapsed n two).tail move
  · obtain ⟨goesOn, free, flights, waits⟩ := before going opened
    have rationed := h.rationed goesOn free
    refine ⟨fun g hg e he same => ?_, fun s hs => ?_, fun g hg => ?_⟩
    · obtain ⟨f, hf, trip⟩ := flights g hg
      rw [trip.key]
      exact rationed.matched f hf e (forgets.1 he) (same.trans trip.statement)
    · rcases waits s hs with old | new
      · exact (rationed.rests s old).still move (sendings _) (fun e he => .inl (forgets.1 he)) length
      · exact new
    · obtain ⟨f, hf, trip⟩ := flights g hg
      exact (rationed.flies f hf).still trip (sendings _) length

theorem settled (h : Sparing origin t) (regular : Regular t) (move : Move K t u)
    (settles : Settles t.after u.after)
    (before : u.GoesOn → u.after.inbox.closedBy = none →
      t.GoesOn ∧ t.after.inbox.closedBy = none ∧ u.after.inFlight = t.after.inFlight ∧
      ∀ s ∈ u.after.waiting, s ∈ t.after.waiting ∨ Rests origin u s) : Sparing origin u := by
  obtain ⟨es, record, _, quiet⟩ := settles.record
  refine h.still regular move record (fun e he => (Entry.unmarked (quiet e he).2).1) ?_
    fun going opened => ?_
  · rw [settles.cache]
    exact ⟨List.Subset.refl _, rfl⟩
  · obtain ⟨goesOn, free, inFlight, waits⟩ := before going opened
    rw [inFlight]
    exact ⟨goesOn, free, fun g hg => ⟨g, hg, .refl g⟩, waits⟩

theorem waiting_of_work {c d : Connection ρ} (work : d.work = c.work) : d.waiting = c.waiting := by
  have pending : d.pending = c.pending := congrArg Work.pending work
  have queue : d.inbox.queue = c.inbox.queue := congrArg Work.queue work
  rw [Connection.waiting, Connection.waiting, pending, queue]

theorem sameWork (h : Sparing origin t) (regular : Regular t) (move : Move K t u)
    {es : List (Entry ρ)} (record : u.after.record = t.after.record ++ es)
    (quiet : ∀ e ∈ es, e.sentNumber? = none) (cache : u.after.cache = t.after.cache)
    (work : u.after.work = t.after.work) : Sparing origin u := by
  refine h.still regular move record quiet ?_ fun going opened => ?_
  · rw [cache]
    exact ⟨List.Subset.refl _, rfl⟩
  · rw [show u.after.inFlight = t.after.inFlight from congrArg Work.inFlight work,
      waiting_of_work work]
    refine ⟨move.stride.goesOn going, ?_, fun g hg => ⟨g, hg, .refl g⟩, fun s hs => .inl hs⟩
    exact (congrArg Work.closedBy work).symm.trans opened

theorem submit (h : Sparing origin t) (regular : Regular t) (query : String) (params : List Param)
    (consumer : Consumer ρ) (allowed : K consumer) :
    Sparing origin (t.request fun c => (c.submit query params consumer).2) := by
  have move : Move K t (t.request fun c => (c.submit query params consumer).2) :=
    .submit query params consumer allowed
  have settles := Settles.submit t.after query params consumer
  obtain ⟨inFlight, closedBy, _⟩ := submit_frame t.after query params consumer
  obtain ⟨es, record, _, quiet⟩ := settles.record
  refine h.settled regular move settles fun going opened => ?_
  have free : t.after.inbox.closedBy = none := closedBy.symm.trans opened
  refine ⟨move.stride.goesOn going, free, inFlight, fun s hs => ?_⟩
  have all : s ∈ t.after.waiting ∨
      s = .create t.after.inbox.nextNumber query params consumer := by
    simpa [Turn.request, Connection.submit, free, Connection.waiting, or_assoc] using hs
  refine all.imp_right fun new => ?_
  have none_ : Record.sendings t.after.inbox.nextNumber
      (t.request fun c => (c.submit query params consumer).2).after.record = [] := by
    rw [show (t.request fun c => (c.submit query params consumer).2).after.record =
      t.after.record ++ es from record,
      Record.sendings_still fun e he => (Entry.unmarked (quiet e he).2).1]
    exact h.past _ (Nat.le_refl _)
  subst new
  refine ⟨[], ⟨?_, List.nodup_nil, by simp⟩, rfl, by simp, fun some_ => absurd rfl some_⟩
  rw [show (Submission.create t.after.inbox.nextNumber query params consumer).number =
    t.after.inbox.nextNumber from rfl, none_]
  rfl

theorem answered {c : Connection ρ} {m : BackendMessage} (h : Sparing origin (done c))
    (regular : Regular (done c)) (move : Move K (done c) u)
    (answered : Answered (c.enter [.received m]) m u)
    (forgets : c.cache.entries ⊇ u.after.cache.entries ∧
      u.after.cache.table.length = c.cache.table.length)
    (before : u.GoesOn → u.after.inbox.closedBy = none →
      c.inbox.closedBy = none ∧ (∀ g ∈ u.after.inFlight, ∃ f ∈ c.inFlight, f.SameTry g) ∧
      ∀ s ∈ u.after.waiting, s ∈ c.waiting ∨ Rests origin u s) : Sparing origin u := by
  obtain ⟨es, record, answer⟩ := answered.record
  refine h.still regular move (record.trans (List.append_assoc _ _ _)) (fun e he => ?_) forgets
    fun going opened => ⟨move.stride.goesOn going, before going opened⟩
  rcases List.mem_append.mp he with he | he
  · rw [List.mem_singleton.mp he]
    rfl
  · exact (Entry.unsent_of_answer (answer e he)).1

theorem heard {c : Connection ρ} {m : BackendMessage} {f g : Flight ρ} {rest : List (Flight ρ)}
    (h : Sparing origin (done c)) (regular : Regular (done c)) (move : Move K (done c) u)
    (quiet : m.isReady = false) (head : c.inFlight = f :: rest)
    (taken : Answered (c.enter [.received m]) m u) (inFlight : u.after.inFlight = g :: rest)
    (hears : f.Hears c.cache m g) (cache : u.after.cache = f.teach c.cache m) :
    Sparing origin u := by
  obtain ⟨waiting, retries⟩ := taken.attempts quiet
  obtain ⟨entries, length⟩ := f.teach_frame c.cache m
  have same : f.SameTry g := by
    refine ⟨hears.number, ?_, hears.statement, hears.key, hears.preparedHere⟩
    rw [inFlight, show (c.enter [.received m]).inFlight = f :: rest from head] at retries
    exact (List.cons.inj retries).1
  refine h.answered regular move taken ?_ fun going opened => ⟨?_, fun k hk => ?_, fun s hs => ?_⟩
  · rw [cache, entries]
    exact ⟨List.Subset.refl _, length⟩
  · exact (congrArg Inbox.closedBy taken.inbox).symm.trans opened
  · rw [inFlight] at hk
    rw [head]
    rcases List.mem_cons.mp hk with rfl | hk
    · exact ⟨f, List.mem_cons_self, same⟩
    · exact ⟨k, List.mem_cons_of_mem _ hk, .refl k⟩
  · rw [waiting] at hs
    exact .inl hs

theorem closed {c : Connection ρ} {f : Flight ρ} {rest : List (Flight ρ)}
    {status : TransactionStatus} (h : Sparing origin (done c)) (regular : Regular (done c))
    (ended : Ended origin u c f status) (head : c.inFlight = f :: rest)
    (after : c.onMessage (.readyForQuery status) = u) : Sparing origin u := by
  have ready := ended.ready
  have opened := ended.opened
  have turn := (onMessage_ready ready head status).symm.trans after
  have move : Move (fun _ => True) (done c) u := by
    rw [← after]
    exact .message _ (by simp [ready])
  have taken : Answered (c.enter [.received (.readyForQuery status)]) (.readyForQuery status) u :=
    after ▸ ended.answered
  -- Whatever the end, the others are where they were, and nothing new is in flight.
  have settled (forgets : c.cache.Forgets u.after.cache)
      (waits : ∀ s ∈ u.after.waiting, s ∈ c.waiting ∨ Rests origin u s) : Sparing origin u := by
    refine h.answered regular move taken ⟨forgets.entries.subset, congrArg _ forgets.table⟩
      fun _ _ => ⟨opened, fun g hg => ⟨g, ?_, .refl g⟩, waits⟩
    rw [← turn, (finish_frame (c.unload status f rest) f).1] at hg
    rw [head]
    exact List.mem_cons_of_mem _ hg
  have invalidated := c.cache.forgets_invalidate f.key (c.cache.nameOf f.statement)
  have closes := finish_closes (c.unload status f rest) f
  rw [turn] at closes
  cases closes with
  | succeeded clean inFlight pending inbox cache =>
    refine settled ?_ fun s hs => .inl ?_
    · rw [cache]
      exact .refl _
    · rw [Connection.waiting, pending, inbox] at hs
      exact hs
  | exhausted failed unknown spent => exact settled invalidated fun s hs => .inl hs
  | reported failed other =>
    refine settled ?_ fun s hs => .inl hs
    rw [done, finishFailure_cache]
    split
    · exact invalidated
    · exact .refl _
  | @repeated report failed unknown left kept =>
    refine settled invalidated fun s hs => ?_
    have rationed := h.rationed (.of_stage ready (by decide)) opened
    have flying : f ∈ c.inFlight := by simp [head]
    obtain ⟨past, used, count, _⟩ := rationed.flies f flying
    -- There is an attempt left, so this was the first one.
    have first : past = [] := List.eq_nil_of_length_eq_zero (by omega)
    subst first
    have sent : (c.unload status f rest).Used f.submission.number [f.statement] := by
      refine used.still ?_ (Nat.le_refl _)
      rw [show (c.unload status f rest).record = c.record ++
        [.received (.readyForQuery status), .finished f.submission.number] from
          List.append_assoc _ _ _]
      exact Record.sendings_still (by simp [Entry.sentNumber?])
    have waits : s ∈ c.waiting ∨
        s = { f.submission with retries := f.submission.retries - 1 } := by
      rcases List.mem_append.mp hs with hs | hs
      · refine (List.mem_cons.mp ((IsAccounted.insert_perm _ _).subset hs)).symm.imp_left ?_
        exact List.mem_append_left _
      · exact .inl (List.mem_append_right _ hs)
    refine waits.imp_right fun again => ?_
    subst again
    refine ⟨[f.statement], sent.still rfl (Nat.le_of_eq (congrArg _ invalidated.table).symm), ?_, ?_,
      fun _ => ?_⟩
    · have left : 0 < f.submission.retries := left
      simp only [List.length_nil, Nat.zero_add] at count
      simp [count]
    · intro e he used
      refine regular.orderly.sound.forgotten_invalidate (rationed.matched f flying) e he ?_
      exact List.mem_singleton.mp used
    · exact ⟨c, f, status, report, ended, rfl, used.length_eq, failed, unknown, kept⟩

theorem message {c : Connection ρ} (h : Sparing origin (done c)) (m : BackendMessage)
    (alive : c.stage ≠ .closed) (reached : Moves (fun _ => True) origin (done c))
    (regular : Regular (done c)) : Sparing origin (c.onMessage m) := by
  have move : Move (fun _ => True) (done c) (c.onMessage m) := .message m alive
  have record : (c.enter [.received m]).record = c.record ++ [.received m] := rfl
  rcases onMessage_cases c m with ⟨_, info, e⟩ | ⟨_, stage, e⟩ | ⟨_, stage, e⟩ | ⟨_, _, _, i, e⟩
  · rw [e] at move ⊢
    exact h.sameWork regular move record (by simp [Entry.sentNumber?]) rfl rfl
  · have same := SameWork.onAuthMessage (c.enter [.received m]) m
    obtain ⟨es, more, _, idle⟩ := same.record
    rw [e] at move ⊢
    refine h.sameWork regular move (more.trans (List.append_assoc _ _ _)) (fun x hx => ?_)
      same.cache same.work
    rcases List.mem_append.mp hx with hx | hx
    · rw [List.mem_singleton.mp hx]
      rfl
    · exact (Entry.unmarked (Entry.ofPipeline_eq_false (idle x hx))).1
  · have taken : Answered (c.enter [.received m]) m (c.onMessage m) :=
      e ▸ onQueryMessage_answered (c.enter [.received m]) m
    have refused (cache : (c.onMessage m).after.cache = c.cache)
        (broken : (c.onMessage m).interruption ≠ none) : Sparing origin (c.onMessage m) := by
      refine h.answered regular move taken ?_ fun going => absurd going.1 broken
      rw [cache]
      exact ⟨List.Subset.refl _, rfl⟩
    cases isReady : m.isReady with
    | false =>
      have hears := onQueryMessage_hears (c.enter [.received m]) isReady
      rw [← e] at hears
      rcases hears with ⟨cache, broken⟩ | ⟨f, g, rest, head, inFlight, hears, cache⟩
      · exact refused cache broken
      · exact h.heard regular move isReady head taken inFlight hears cache
    | true =>
      obtain ⟨status, rfl⟩ : ∃ status, m = .readyForQuery status := by
        cases m <;> first | exact ⟨_, rfl⟩ | cases isReady
      cases head : c.inFlight with
      | nil =>
        have empty : (c.enter [.received (.readyForQuery status)]).inFlight = [] := head
        refine refused ?_ ?_ <;> rw [e] <;>
          simp [onQueryMessage, onReadyForQuery, withHead, empty, Turn.fail]
        rfl
      | cons f rest =>
        obtain ⟨ready, opened⟩ := regular.orderly.ready_of_head head stage
        exact h.closed regular ⟨reached, .refl, ready, opened, rest, head⟩ head rfl
  · rw [e] at move ⊢
    exact h.sameWork regular move record (by simp [Entry.sentNumber?]) rfl rfl

theorem sent {s : Submission ρ} {p : Prepared} (h : Sparing origin t) (regular : Regular t)
    (move : Move K t u) (rationed : Rationed origin t) (rests : Rests origin t s)
    (chooses : t.after.cache.Chooses p.lookup.key p.lookup.id p.cache)
    (name : p.batch.statement.name = Statement.nameOf p.lookup.id)
    (known : s.number < t.after.inbox.nextNumber)
    (nextNumber : u.after.inbox.nextNumber = t.after.inbox.nextNumber)
    (waiting : ∀ r ∈ u.after.waiting, r ∈ t.after.waiting ∧ s.number ≠ r.number)
    (others : ∀ f ∈ t.after.inFlight, s.number ≠ f.submission.number)
    (cache : u.after.cache = p.cache)
    (inFlight : u.after.inFlight =
      t.after.inFlight ++ [.start s p.lookup.id p.lookup.key p.batch.prepares])
    (record : u.after.record = t.after.record ++
      [.queued p.batch.messages, .sent s.number p.batch.statement.name]) : Sparing origin u := by
  have sound := regular.orderly.sound
  have grows : t.after.cache.table.length ≤ u.after.cache.table.length := cache ▸ chooses.grows
  have mine : Record.sendings s.number u.after.record =
      Record.sendings s.number t.after.record ++ [p.batch.sending] := by
    rw [record, Record.sendings_sent, if_pos rfl]
    rfl
  have other {n : Nat} (ne : s.number ≠ n) :
      Record.sendings n u.after.record = Record.sendings n t.after.record := by
    rw [record, Record.sendings_sent, if_neg ne]
  obtain ⟨past, used, count, retired, lapsed⟩ := rests
  have used_ : u.after.Used s.number (past ++ [p.lookup.id]) := by
    refine ⟨?_, ?_, fun id mem => ?_⟩
    · rw [mine, List.map_append, used.names, List.map_append]
      exact congrArg (past.map Statement.nameOf ++ [·]) name
    · refine List.Nodup.append used.nodup (List.nodup_singleton _) ?_
      intro id mem same
      obtain rfl := List.mem_singleton.mp same
      rcases chooses.mem_or_new with old | new
      · exact retired _ old mem
      · exact absurd (used.created _ mem) (Nat.not_le_of_lt new)
    · rcases List.mem_append.mp mem with mem | same
      · exact Nat.le_trans (used.created id mem) grows
      · rw [List.mem_singleton.mp same, cache]
        exact chooses.made sound
  refine ⟨fun n unknown => ?_, fun n => ?_, fun n => ?_, fun n two => ?_, fun _ _ => ⟨?_, ?_, ?_⟩⟩
  · rw [nextNumber] at unknown
    rw [other (Nat.ne_of_lt (Nat.lt_of_lt_of_le known unknown))]
    exact h.past n unknown
  · by_cases same : s.number = n
    · subst same
      refine ⟨_, used_, ?_⟩
      rw [List.length_append, List.length_singleton]
      omega
    · obtain ⟨ids, used, few⟩ := h.used n
      exact ⟨ids, used.still (other same) grows, few⟩
  · by_cases same : s.number = n
    · subst same
      intro x hx
      rw [mine] at hx
      rcases List.mem_append.mp hx with hx | hx
      · exact h.executes _ x hx
      · exact List.mem_singleton.mp hx ▸ p.batch.sending_executes
    · rw [other same]
      exact h.executes n
  · by_cases same : s.number = n
    · subst same
      refine (lapsed fun none_ => ?_).tail move
      rw [mine, List.length_append, used.length_eq, none_] at two
      exact absurd two (Nat.not_succ_le_self 1)
    · rw [other same] at two
      exact (h.lapsed n two).tail move
  · intro f hf e he same
    rw [inFlight] at hf
    rw [cache] at he
    rcases List.mem_append.mp hf with hf | hf
    · rcases chooses.of_mem he with old | ⟨rfl, new⟩
      · exact rationed.matched f hf e old same
      · obtain ⟨past, used, _⟩ := rationed.flies f hf
        have le := used.created f.statement (by simp)
        exact absurd le (Nat.not_le_of_lt (same ▸ new))
    · rw [List.mem_singleton.mp hf] at same ⊢
      exact chooses.matched sound he same
  · intro r hr
    obtain ⟨old, ne⟩ := waiting r hr
    refine (rationed.rests r old).still move (other ne) (fun e he => ?_) grows
    rw [cache] at he
    exact (chooses.of_mem he).imp_right fun ⟨same, new⟩ => same ▸ new
  · intro f hf
    rw [inFlight] at hf
    rcases List.mem_append.mp hf with hf | hf
    · exact (rationed.flies f hf).still (.refl f) (other (others f hf)) grows
    · rw [List.mem_singleton.mp hf]
      refine ⟨past, used_, count, p.batch.sending, ?_, p.batch.sending_prepares⟩
      rw [show (Flight.start s p.lookup.id p.lookup.key p.batch.prepares).submission.number =
        s.number from rfl, mine, List.getLast?_concat]

theorem send {c : Connection ρ} {s : Submission ρ} {rest : List (Submission ρ)}
    (h : Sparing origin (done c)) (regular : Regular (done c)) (ready : c.stage = .ready)
    (first : c.pending = s :: rest) (kept : c.isCancelled s.number = false) :
    Sparing origin (done (({ c with pending := rest } : Connection ρ).send s)) := by
  have move : Move (fun _ => True) (done c)
    (done (({ c with pending := rest } : Connection ρ).send s)) := .send ready first kept
  have going : GoesOn (done c) := .of_stage ready (by decide)
  have opened : c.inbox.closedBy = none := by
    refine Classical.byContradiction fun closed => ?_
    have none_ := regular.orderly.inStep.shut closed
    simp [Work.outstanding, work, first, done] at none_
  have rationed := h.rationed going opened
  have covered : c.Covered := regular.counted going opened
  have waits : c.waiting = s :: (rest ++ c.inbox.queue) := by
    rw [Connection.waiting, first]
    rfl
  -- Nothing else that is outstanding has the number.
  have others : (∀ r ∈ rest ++ c.inbox.queue, r.number ≠ s.number) ∧
      ∀ f ∈ c.inFlight, f.submission.number ≠ s.number := by
    have nodup := covered.numbers_nodup
    simp only [Work.outstanding, work, first, Submission.numbers, List.map_append, List.map_cons,
      List.append_assoc, List.cons_append, List.nodup_append, List.nodup_cons] at nodup
    obtain ⟨_, ⟨waits, _⟩, apart⟩ := nodup
    constructor
    · intro r hr same
      exact waits (same ▸ List.map_append ▸ List.mem_map_of_mem hr)
    · intro f hf
      exact apart _ (List.mem_map_of_mem (List.mem_map_of_mem hf)) _ List.mem_cons_self
  cases prepared : ({ c with pending := rest } : Connection ρ).prepare s with
  | error failure =>
    have settles : Settles c (({ c with pending := rest } : Connection ρ).resolve s.number
        (.error failure)) := by
      have taken : Settles c { c with pending := rest } := .of_eq rfl rfl rfl rfl rfl rfl
      exact taken.trans (.resolve _ s _)
    simp only [Connection.send, prepared] at move ⊢
    refine h.settled regular move settles fun _ _ => ⟨going, opened, rfl, fun r hr => .inl ?_⟩
    rw [done, waits]
    exact List.mem_cons_of_mem _ hr
  | ok p =>
    simp only [Connection.send, prepared] at move ⊢
    obtain ⟨chooses, name⟩ := prepare_chooses (c := { c with pending := rest })
      regular.orderly.sound prepared
    have mem : s ∈ c.waiting := by simp [waits]
    have outstanding : s.number ∈ Submission.numbers c.work.outstanding := by
      simp [Submission.numbers, Work.outstanding, work, first]
    refine h.sent regular move rationed (rationed.rests s mem) chooses name (covered.lt outstanding)
      rfl (fun r hr => ?_) (fun f hf => (others.2 f hf).symm) rfl rfl ?_
    · have hr : r ∈ rest ++ c.inbox.queue := hr
      refine ⟨?_, (others.1 r hr).symm⟩
      rw [done, waits]
      exact List.mem_cons_of_mem _ hr
    · exact List.append_assoc _ _ _

theorem step (h : Sparing origin t) (reached : Moves (fun _ => True) origin t)
    (regular : Regular t) (move : Move K t u) : Sparing origin u := by
  have goesOn := move.stride.goesOn
  cases move.stride with
  | idle same =>
    obtain ⟨es, record, _, quiet⟩ := same.aside.record
    refine h.sameWork regular move record (fun e he => ?_) same.aside.cache same.aside.work
    exact (Entry.unmarked (Entry.ofPipeline_eq_false (quiet e he).1)).1
  | submit query params consumer allowed => exact h.submit regular query params consumer allowed
  | tell cause =>
    refine h.settled regular move (.abort t.after cause) fun going _ => ?_
    exact absurd (abort_stage t.after cause) going.2
  | message m alive => exact h.message m alive reached regular
  | @collect c =>
    have same : Settles c c.collect := .of_eq rfl rfl rfl rfl rfl rfl
    refine h.settled regular move same fun going opened => ⟨goesOn going, opened, rfl, ?_⟩
    intro s hs
    exact .inl (by simpa [Connection.waiting, Connection.collect, done] using hs)
  | @close c =>
    refine h.settled regular move (.beginClose c) fun _ opened => ?_
    exact absurd opened regular.orderly.ends.beginClose
  | @drop c =>
    obtain ⟨inFlight, inbox, pending⟩ := dropCancelled_frame c
    refine h.settled regular move (.dropCancelled c) fun going opened =>
      ⟨goesOn going, (congrArg Inbox.closedBy inbox).symm.trans opened, inFlight, ?_⟩
    intro s hs
    refine .inl ?_
    rcases List.mem_append.mp hs with hs | hs
    · exact List.mem_append_left _ (pending.subset hs)
    · exact List.mem_append_right _ (congrArg Inbox.queue inbox ▸ hs)
  | send ready first kept => exact h.send regular ready first kept

end Sparing

structure Frugal (origin t : Turn ρ) : Prop where
  reached : Moves (fun _ => True) origin t
  regular : Regular t
  sparing : Sparing origin t
  voiced : Record.Voiced t.after.record

theorem Frugal.step (h : Frugal origin t) (move : Move K t u) : Frugal origin u :=
  ⟨h.reached.tail (move.weaken fun _ _ => trivial), h.regular.step move.stride,
    h.sparing.step h.reached h.regular (move.weaken fun _ _ => trivial),
    move.stride.voiced h.voiced⟩

theorem moves_frugal (config : Config) (nonces : Nat → List Char)
    (reached : Moves (fun _ => True) (done (.start config nonces)) t) :
    Frugal (done (.start config nonces)) t :=
  moves_invariant (fun move h => Frugal.step h move) reached
    ⟨.refl, .start config nonces, .start config nonces _, rfl⟩

theorem Ended.moves {d : Connection ρ} {f : Flight ρ} {status : TransactionStatus}
    (h : Ended origin t d f status) : Moves (fun _ => True) (done d) t :=
  .trans (.single (.message _ (by simp [h.ready]))) h.passed

end Turn

end PgPipeline
