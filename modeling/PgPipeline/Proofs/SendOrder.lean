import PgPipeline.Proofs.ByteQueue
import PgPipeline.Proofs.Cancellation
import PgPipeline.Proofs.Sending

/-!
Submissions are sent in the order in which they were handed in.

`Turn.Rearranges` lists what a stride does to the places where submissions wait, and to the record of
what was sent. A submission that is to be sent again goes back to its place among those that wait, so
these stay in order (`Places.InOrder`), and whatever is sent was in its turn: a submission that was
handed in later was sent before it only if a batch of its own ended after that
(`Turn.moves_send_in_order`).
-/

namespace PgPipeline

open FrontendMessage (encodeAll)
open scoped List

variable {ρ : Type}

structure Places where
  nextNumber : Nat
  queue : List Nat
  pending : List Nat
  inFlight : List Nat

namespace Places

def insert (n : Nat) (ns : List Nat) : List Nat :=
  (ns.takeWhile fun m => m < n) ++ n :: ns.dropWhile fun m => m < n

structure InOrder (p : Places) : Prop where
  waiting : (p.pending ++ p.queue).Pairwise (· < ·)
  behind : ∀ n ∈ p.inFlight, ∀ m ∈ p.queue, n < m
  apart : (p.inFlight ++ p.pending).Nodup
  given : ∀ n ∈ p.inFlight ++ p.pending ++ p.queue, n < p.nextNumber

variable {n : Nat} {ns : List Nat} {p q : Places}

theorem insert_perm (n : Nat) (ns : List Nat) : insert n ns ~ n :: ns := by
  refine List.perm_middle.trans ?_
  rw [List.takeWhile_append_dropWhile]

theorem dropWhile_above (sorted : ns.Pairwise (· < ·)) :
    ∀ m ∈ ns.dropWhile (fun m => m < n), n ≤ m := by
  induction ns with
  | nil => exact fun m mem => (nomatch mem)
  | cons k rest ih =>
    obtain ⟨above, others⟩ := List.pairwise_cons.mp sorted
    rw [List.dropWhile_cons]
    split
    · exact ih others
    · next notBelow =>
      have first : n ≤ k := by simpa using notBelow
      intro m mem
      rcases List.mem_cons.mp mem with rfl | mem
      · exact first
      · exact Nat.le_of_lt (Nat.lt_of_le_of_lt first (above m mem))

theorem pairwise_insert (sorted : ns.Pairwise (· < ·)) (new : n ∉ ns) :
    (insert n ns).Pairwise (· < ·) := by
  have parts : (ns.takeWhile (fun m => m < n) ++ ns.dropWhile fun m => m < n).Pairwise (· < ·) := by
    rwa [List.takeWhile_append_dropWhile]
  obtain ⟨front, back, across⟩ := List.pairwise_append.mp parts
  have below : ∀ m ∈ ns.takeWhile (fun m => m < n), m < n := fun m mem =>
    by simpa using List.all_eq_true.mp List.all_takeWhile m mem
  have above : ∀ m ∈ ns.dropWhile (fun m => m < n), n < m := fun m mem =>
    Nat.lt_of_le_of_ne (dropWhile_above sorted m mem) fun same =>
      new (same ▸ (List.dropWhile_sublist _).subset mem)
  refine List.pairwise_append.mpr ⟨front, List.pairwise_cons.mpr ⟨above, back⟩, fun m mem k mem' => ?_⟩
  rcases List.mem_cons.mp mem' with rfl | mem'
  · exact below m mem
  · exact across m mem k mem'

namespace InOrder

theorem thin (h : p.InOrder) (nextNumber : p.nextNumber ≤ q.nextNumber) (queue : q.queue <+ p.queue)
    (pending : q.pending <+ p.pending) (inFlight : q.inFlight <+ p.inFlight) : q.InOrder where
  waiting := h.waiting.sublist (pending.append queue)
  behind n mem m mem' := h.behind n (inFlight.subset mem) m (queue.subset mem')
  apart := h.apart.sublist (inFlight.append pending)
  given n mem := Nat.lt_of_lt_of_le
    (h.given n (((inFlight.append pending).append queue).subset mem)) nextNumber

theorem handIn (h : p.InOrder) : ({ p with
    nextNumber := p.nextNumber + 1, queue := p.queue ++ [p.nextNumber] } : Places).InOrder where
  waiting := by
    rw [← List.append_assoc]
    refine List.pairwise_append.mpr ⟨h.waiting, List.pairwise_singleton _ _, fun n mem m new => ?_⟩
    rw [List.mem_singleton.mp new]
    rw [List.mem_append] at mem
    exact h.given n (by simpa [or_assoc] using Or.inr mem)
  behind n mem m mem' := by
    rcases List.mem_append.mp mem' with mem' | new
    · exact h.behind n mem m mem'
    · rw [List.mem_singleton.mp new]
      exact h.given n (by simp [mem])
  apart := h.apart
  given n mem := by
    rw [← List.append_assoc] at mem
    rcases List.mem_append.mp mem with mem | new
    · exact Nat.lt_succ_of_lt (h.given n mem)
    · rw [List.mem_singleton.mp new]
      exact Nat.lt_succ_self _

theorem collect (h : p.InOrder) :
    ({ p with queue := [], pending := p.pending ++ p.queue } : Places).InOrder where
  waiting := by rw [List.append_nil]; exact h.waiting
  behind _ _ _ mem := (nomatch mem)
  apart := by
    rw [← List.append_assoc]
    refine List.nodup_append.mpr ⟨h.apart, ?_, fun n mem m mem' same => ?_⟩
    · exact ((List.pairwise_append.mp h.waiting).2.1).imp fun lt => Nat.ne_of_lt lt
    · subst same
      rcases List.mem_append.mp mem with mem | mem
      · exact Nat.lt_irrefl _ (h.behind n mem n mem')
      · exact Nat.lt_irrefl _ ((List.pairwise_append.mp h.waiting).2.2 n mem n mem')
  given n mem := h.given n (by simpa [or_assoc] using mem)

theorem send {rest : List Nat} (h : p.InOrder) (first : p.pending = n :: rest) :
    ({ p with pending := rest, inFlight := p.inFlight ++ [n] } : Places).InOrder := by
  obtain ⟨waiting, behind, apart, given⟩ := h
  rw [first] at waiting apart given
  obtain ⟨above, others⟩ := List.pairwise_cons.mp waiting
  refine ⟨others, fun k mem m mem' => ?_, ?_, fun k mem => ?_⟩
  · rcases List.mem_append.mp mem with mem | new
    · exact behind k mem m mem'
    · rw [List.mem_singleton.mp new]
      exact above m (List.mem_append_right _ mem')
  · rw [List.append_assoc]
    exact apart
  · exact given k (by simpa [or_assoc] using mem)

theorem again {rest : List Nat} (h : p.InOrder) (head : p.inFlight = n :: rest) :
    ({ p with pending := insert n p.pending, inFlight := rest } : Places).InOrder := by
  obtain ⟨waiting, behind, apart, given⟩ := h
  rw [head] at behind apart given
  obtain ⟨fresh, apart⟩ := List.nodup_cons.mp apart
  have perm : insert n p.pending ~ n :: p.pending := insert_perm n p.pending
  obtain ⟨pending, queue, across⟩ := List.pairwise_append.mp waiting
  have new : n ∉ p.pending := fun mem => fresh (List.mem_append_right _ mem)
  refine ⟨List.pairwise_append.mpr ⟨pairwise_insert pending new, queue, fun k mem m mem' => ?_⟩,
    fun k mem => behind k (List.mem_cons_of_mem _ mem), ?_, fun k mem => given k ?_⟩
  · rcases List.mem_cons.mp (perm.subset mem) with rfl | mem
    · exact behind k List.mem_cons_self m mem'
    · exact across k mem m mem'
  · have all : rest ++ insert n p.pending ~ n :: (rest ++ p.pending) :=
      (perm.append_left rest).trans List.perm_middle
    exact all.nodup_iff.mpr (List.nodup_cons.mpr ⟨fresh, apart⟩)
  · simp only [List.mem_append, perm.mem_iff, List.mem_cons] at mem ⊢
    tauto

end InOrder

end Places

namespace Record

/-- Whenever the submission or one that was handed in after it was sent, a batch of the submission
ended after that. -/
def InTurn (n : Nat) (es : List (Entry ρ)) : Prop :=
  ∀ before m name after, es = before ++ .sent m name :: after → n ≤ m → .finished n ∈ after

variable {n : Nat} {es more : List (Entry ρ)}

theorem InTurn.append (h : InTurn n es ∨ .finished n ∈ more) (older : ∀ m ∈ sent more, m < n) :
    InTurn n (es ++ more) := by
  intro before m name after parts le
  have sent_ (fs gs : List (Entry ρ)) (later : more = fs ++ .sent m name :: gs) : False := by
    have mem : m ∈ sent more := by
      rw [later]
      simp [sent, Entry.sentNumber?]
    exact Nat.not_lt_of_le le (older m mem)
  rcases List.append_eq_append_iff.mp parts with ⟨fs, -, later⟩ | ⟨fs, earlier, later⟩
  · exact (sent_ _ _ later).elim
  · cases fs with
    | nil => exact (sent_ [] _ later.symm).elim
    | cons e gs =>
      obtain ⟨rfl, rfl⟩ := List.cons.inj later
      rcases h with h | finished
      · exact List.mem_append_left _ (h before m name gs earlier le)
      · exact List.mem_append_right _ finished

theorem InTurn.of_newest (newest : ∀ m ∈ sent es, m < n) : InTurn n es := by
  have empty : InTurn (ρ := ρ) n [] := fun before m name after parts => by simp at parts
  exact InTurn.append (.inl empty) newest

end Record

namespace Connection

def places (c : Connection ρ) : Places :=
  ⟨c.inbox.nextNumber, Submission.numbers c.inbox.queue, Submission.numbers c.pending,
    Submission.numbers (c.inFlight.map (·.submission))⟩

theorem numbers_insert (s : Submission ρ) (ss : List (Submission ρ)) :
    Submission.numbers (Submission.insert s ss) =
      Places.insert s.number (Submission.numbers ss) := by
  rw [Submission.insert, Places.insert, Submission.numbers_append, Submission.numbers,
    Submission.numbers, Submission.numbers, List.takeWhile_map, List.dropWhile_map, List.map_cons]
  rfl

theorem places_of_work {c d : Connection ρ} (work : d.work = c.work) : d.places = c.places := by
  have read (k : Connection ρ) : k.places = ⟨k.work.nextNumber, Submission.numbers k.work.queue,
    Submission.numbers k.work.pending, Submission.numbers (k.work.inFlight.map (·.submission))⟩ := rfl
  rw [read, read, work]

end Connection

namespace Turn

open Connection

/-- What a stride does to the places of submissions, with what it enters. -/
inductive Rearranges (p q : Places) : List (Entry ρ) → Prop
  | thinned {es : List (Entry ρ)} (nextNumber : p.nextNumber ≤ q.nextNumber)
      (queue : q.queue <+ p.queue) (pending : q.pending <+ p.pending)
      (inFlight : q.inFlight <+ p.inFlight) (unsent : Record.sent es = []) : Rearranges p q es
  | handedIn (after : q = { p with
      nextNumber := p.nextNumber + 1, queue := p.queue ++ [p.nextNumber] }) : Rearranges p q []
  | collected (after : q = { p with queue := [], pending := p.pending ++ p.queue }) :
      Rearranges p q []
  | sent {n : Nat} {rest : List Nat} (name : String) (messages : List FrontendMessage)
      (first : p.pending = n :: rest)
      (after : q = { p with pending := rest, inFlight := p.inFlight ++ [n] }) :
      Rearranges p q [.queued messages, .sent n name]
  | again {n : Nat} {rest : List Nat} (m : BackendMessage) (head : p.inFlight = n :: rest)
      (after : q = { p with pending := Places.insert n p.pending, inFlight := rest }) :
      Rearranges p q [.received m, .finished n]

theorem Rearranges.inOrder {p q : Places} {es : List (Entry ρ)} (h : Rearranges p q es)
    (order : p.InOrder) : q.InOrder := by
  cases h with
  | thinned nextNumber queue pending inFlight => exact order.thin nextNumber queue pending inFlight
  | handedIn after => exact after ▸ order.handIn
  | collected after => exact after ▸ order.collect
  | sent name messages first after => exact after ▸ order.send first
  | again m head after => exact after ▸ order.again head

variable {K : Consumer ρ → Prop} {t u : Turn ρ} {c d : Connection ρ}

def Rearranged (c d : Connection ρ) : Prop :=
  ∃ es, d.record = c.record ++ es ∧ Rearranges c.places d.places es

namespace Rearranged

theorem of_extends {kind : Entry ρ → Prop} (record : Extends kind c d)
    (still : ∀ e, kind e → e.ofPipeline = false) (nextNumber : c.inbox.nextNumber ≤ d.inbox.nextNumber)
    (queue : d.inbox.queue <+ c.inbox.queue) (pending : d.pending <+ c.pending)
    (inFlight : d.inFlight.map (·.submission) <+ c.inFlight.map (·.submission)) :
    Rearranged c d := by
  obtain ⟨es, more, _, idle⟩ := record
  refine ⟨es, more, .thinned nextNumber (queue.map _) (pending.map _) (inFlight.map _) ?_⟩
  exact Record.sent_eq_nil fun e he => (Entry.unmarked (still e (idle e he))).1

theorem of_sameWork (same : SameWork c d) : Rearranged c d := by
  obtain ⟨es, more, _, idle⟩ := same.record
  refine ⟨es, more, ?_⟩
  rw [places_of_work same.work]
  refine .thinned (Nat.le_refl _) (.refl _) (.refl _) (.refl _) (Record.sent_eq_nil fun e he => ?_)
  exact (Entry.unmarked (Entry.ofPipeline_eq_false (idle e he))).1

theorem of_emptied {kind : Entry ρ → Prop} (record : Extends kind c d)
    (still : ∀ e, kind e → e.ofPipeline = false)
    (nextNumber : d.inbox.nextNumber = c.inbox.nextNumber)
    (emptied : d.work.outstanding = []) : Rearranged c d := by
  obtain ⟨waiting, queue⟩ := List.append_eq_nil_iff.mp emptied
  obtain ⟨inFlight, pending⟩ := List.append_eq_nil_iff.mp waiting
  refine of_extends record still (Nat.le_of_eq nextNumber.symm) ?_ ?_ ?_
  · exact (show d.inbox.queue = [] from queue) ▸ List.nil_sublist _
  · exact (show d.pending = [] from pending) ▸ List.nil_sublist _
  · exact (show d.inFlight.map (·.submission) = [] from inFlight) ▸ List.nil_sublist _

theorem abort (c : Connection ρ) (cause : Failure) : Rearranged c (c.abort cause) := by
  have record := (Settles.abort c cause).record
  by_cases closed : c.stage = .closed
  · have same : c.abort cause = c := if_pos closed
    rw [same]
    exact of_sameWork (.of_eq rfl rfl rfl rfl rfl)
  · refine of_emptied record (fun _ he => he.2) (c.abort_nextNumber cause) ?_
    rw [Connection.abort, if_neg closed]
    exact (failAll_frame (c.moveTo .closed) cause).1

theorem beginClose (c : Connection ρ) : Rearranged c c.beginClose := by
  by_cases ready : c.stage = .ready
  · refine of_emptied (Settles.beginClose c).record (fun _ he => he.2) c.beginClose_nextNumber ?_
    rw [Connection.beginClose, if_pos ready, (Aside.leave (c.failAll .closed)).work]
    exact (failAll_frame c .closed).1
  · have same : c.beginClose = c.abort .closed := if_neg ready
    rw [same]
    exact abort c .closed

theorem submit (c : Connection ρ) (query : String) (params : List Param) (consumer : Consumer ρ) :
    Rearranged c (c.submit query params consumer).2 := by
  unfold Connection.submit
  dsimp only
  split
  · exact ⟨[_], rfl, .thinned (Nat.le_succ _) (.refl _) (.refl _) (.refl _) rfl⟩
  · refine ⟨[], (List.append_nil _).symm, .handedIn ?_⟩
    simp only [places, Submission.numbers_append]
    rfl

theorem dropCancelled (c : Connection ρ) : Rearranged c c.dropCancelled := by
  obtain ⟨inFlight, inbox, pending⟩ := dropCancelled_frame c
  refine of_extends (Settles.dropCancelled c).record (fun _ he => he.2) ?_ ?_ pending ?_
  · exact Nat.le_of_eq (congrArg Inbox.nextNumber inbox.symm)
  · rw [inbox]
  · rw [inFlight]

theorem collect (c : Connection ρ) : Rearranged c c.collect := by
  refine ⟨[], (List.append_nil _).symm, .collected ?_⟩
  simp only [places, Connection.collect, Submission.numbers_append]
  rfl

theorem send {s : Submission ρ} {rest : List (Submission ρ)} (first : c.pending = s :: rest) :
    Rearranged c (({ c with pending := rest } : Connection ρ).send s) := by
  unfold Connection.send
  split
  · next p prepared =>
    have head : c.places.pending = s.number :: Submission.numbers rest := by
      rw [places, first]
      rfl
    refine ⟨[.queued p.batch.messages, .sent s.number p.batch.statement.name],
      List.append_assoc _ _ _, .sent _ _ head ?_⟩
    simp only [places, enter, queue, List.map_append, Submission.numbers_append]
    rfl
  · next failure _ =>
    have settles := Settles.resolve ({ c with pending := rest } : Connection ρ) s (.error failure)
    refine of_extends (c := c) settles.record (fun _ he => he.2) (Nat.le_refl _) (.refl _) ?_ (.refl _)
    rw [first]
    exact List.sublist_cons_self s rest

theorem answered {m : BackendMessage} (k : Answered (c.enter [.received m]) m u) :
    Rearranged c u.after := by
  obtain ⟨es, more, quiet⟩ := k.record
  have record : u.after.record = c.record ++ .received m :: es :=
    more.trans (List.append_assoc _ _ _)
  have unsent : Record.sent (.received m :: es) = [] := Record.sent_eq_nil fun e he => by
    rcases List.mem_cons.mp he with rfl | he
    · rfl
    · exact (Entry.unsent_of_answer (quiet e he)).1
  have thinned (inbox : u.after.inbox = c.inbox) (pending : u.after.pending = c.pending)
      (inFlight : Submission.numbers (u.after.inFlight.map (·.submission)) <+
        Submission.numbers (c.inFlight.map (·.submission))) : Rearranged c u.after := by
    refine ⟨_, record, .thinned ?_ ?_ ?_ inFlight unsent⟩
    · exact Nat.le_of_eq (congrArg Inbox.nextNumber inbox.symm)
    · rw [places, places, inbox]
    · rw [places, places, pending]
  have replaced {f g : Flight ρ} {rest : List (Flight ρ)} (head : c.inFlight = f :: rest)
      (number : g.submission.number = f.submission.number) :
      Submission.numbers ((g :: rest).map (·.submission)) <+
        Submission.numbers (c.inFlight.map (·.submission)) := by
    rw [head]
    simp [Submission.numbers, number]
  have fewer {f : Flight ρ} {rest : List (Flight ρ)} (head : c.inFlight = f :: rest) :
      Submission.numbers (rest.map (·.submission)) <+
        Submission.numbers (c.inFlight.map (·.submission)) := by
    rw [head]
    exact List.sublist_cons_self _ _
  cases k with
  | refused status i idle => exact thinned rfl rfl (.refl _)
  | noted cache plain head submission => exact thinned rfl rfl (replaced head (congrArg _ submission))
  | tagged tag head => exact thinned rfl rfl (replaced head rfl)
  | passed values columns head => exact thinned rfl rfl (replaced head rfl)
  | offered values columns head attends taken =>
    exact thinned rfl rfl (replaced head (Submission.offer_same taken).1)
  | broke values columns head => exact thinned rfl rfl (replaced head rfl)
  | @finished f rest _ status head result =>
    have head : c.inFlight = f :: rest := head
    cases result with
    | told result => exact thinned rfl rfl (fewer head)
    | broke text => exact thinned rfl rfl (fewer head)
    | failed cache failure => exact thinned rfl rfl (fewer head)
    | again cache left kept =>
      have head : c.places.inFlight =
          f.submission.number :: Submission.numbers (rest.map (·.submission)) := by
        rw [places, head]
        rfl
      refine ⟨[.received (.readyForQuery status), .finished f.submission.number],
        List.append_assoc _ _ _, .again _ head ?_⟩
      simp only [places, done, numbers_insert]
      rfl

theorem message (c : Connection ρ) (m : BackendMessage) : Rearranged c (c.onMessage m).after := by
  have entered {d : Connection ρ} {es : List (Entry ρ)} (work : d.work = c.work)
      (record : d.record = c.record ++ .received m :: es)
      (still : ∀ e ∈ es, e.sentNumber? = none) : Rearranged c d := by
    refine ⟨_, record, ?_⟩
    rw [places_of_work work]
    refine .thinned (Nat.le_refl _) (.refl _) (.refl _) (.refl _) (Record.sent_eq_nil fun e he => ?_)
    rcases List.mem_cons.mp he with rfl | he
    · rfl
    · exact still e he
  rcases onMessage_cases c m with ⟨_, info, e⟩ | ⟨_, _, e⟩ | ⟨_, _, e⟩ | ⟨_, _, _, i, e⟩
  · rw [e]
    exact entered rfl rfl (by simp)
  · have same := SameWork.onAuthMessage (c.enter [.received m]) m
    obtain ⟨es, more, _, idle⟩ := same.record
    rw [e]
    refine entered same.work (more.trans (List.append_assoc _ _ _)) fun e he => ?_
    exact (Entry.unmarked (Entry.ofPipeline_eq_false (idle e he))).1
  · exact answered (e ▸ onQueryMessage_answered _ m)
  · rw [e]
    exact entered rfl rfl (by simp)

theorem of_stride (stride : Stride K t u) : Rearranged t.after u.after := by
  cases stride with
  | idle same => exact of_sameWork same.aside.sameWork
  | submit query params consumer allowed => exact submit _ query params consumer
  | tell cause => exact abort _ cause
  | message m alive => exact message _ m
  | collect => exact collect _
  | close => exact beginClose _
  | drop => exact dropCancelled _
  | send ready first kept => exact send first

end Rearranged

structure InOrder (c : Connection ρ) : Prop where
  places : c.places.InOrder
  given : ∀ n ∈ Record.sent c.record, n < c.places.nextNumber
  waiting : ∀ n ∈ c.places.pending ++ c.places.queue, Record.InTurn n c.record
  sent : ∀ before n name after, c.record = before ++ .sent n name :: after → Record.InTurn n before

namespace InOrder

theorem start (config : Config) (nonces : Nat → List Char) :
    InOrder (Connection.start (ρ := ρ) config nonces) where
  places := ⟨List.Pairwise.nil, fun _ mem => (nomatch mem), List.nodup_nil, fun _ mem => (nomatch mem)⟩
  given _ mem := (nomatch mem)
  waiting _ mem := (nomatch mem)
  sent before n name after parts := by simp [Connection.start] at parts

theorem sent_append {es more : List (Entry ρ)}
    (earlier : ∀ before n name after, es = before ++ .sent n name :: after → Record.InTurn n before)
    (later : ∀ before n name after, more = before ++ .sent n name :: after →
      Record.InTurn n (es ++ before)) :
    ∀ before n name after, es ++ more = before ++ .sent n name :: after →
      Record.InTurn n before := by
  intro before n name after parts
  rcases List.append_eq_append_iff.mp parts with ⟨fs, rfl, later_⟩ | ⟨fs, earlier_, later_⟩
  · exact later fs n name after later_
  · cases fs with
    | nil =>
      have last := later [] n name after later_.symm
      rw [List.append_nil] at last earlier_
      exact earlier_ ▸ last
    | cons e gs =>
      obtain ⟨rfl, rfl⟩ := List.cons.inj later_
      exact earlier before n name gs earlier_

theorem unsent {es : List (Entry ρ)} (h : InOrder c) (record : d.record = c.record ++ es)
    (unsent : Record.sent es = []) (places : d.places.InOrder)
    (nextNumber : c.places.nextNumber ≤ d.places.nextNumber)
    (waits : ∀ n ∈ d.places.pending ++ d.places.queue,
      Record.InTurn n c.record ∨ .finished n ∈ es) : InOrder d := by
  refine ⟨places, fun n mem => ?_, fun n mem => ?_, ?_⟩
  · rw [record, Record.sent_append, unsent, List.append_nil] at mem
    exact Nat.lt_of_lt_of_le (h.given n mem) nextNumber
  · rw [record]
    exact Record.InTurn.append (waits n mem) (by simp [unsent])
  · rw [record]
    refine sent_append h.sent fun before n name after parts => ?_
    have mem : n ∈ Record.sent es := by
      rw [parts]
      simp [Record.sent, Entry.sentNumber?]
    rw [unsent] at mem
    cases mem

theorem sendFirst {k : Nat} {rest : List Nat} {name : String} {messages : List FrontendMessage}
    (h : InOrder c) (record : d.record = c.record ++ [.queued messages, .sent k name])
    (first : c.places.pending = k :: rest)
    (after : d.places = { c.places with pending := rest, inFlight := c.places.inFlight ++ [k] }) :
    InOrder d := by
  have waits : ∀ n ∈ k :: (rest ++ c.places.queue), Record.InTurn n c.record := by
    rw [← List.cons_append, ← first]
    exact h.waiting
  have below := h.places.waiting
  rw [first, List.cons_append, List.pairwise_cons] at below
  have mine : k < c.places.nextNumber := h.places.given k (by simp [first])
  refine ⟨after ▸ h.places.send first, fun n mem => ?_, fun n mem => ?_, ?_⟩
  · rw [record, Record.sent_append] at mem
    rw [after]
    rcases List.mem_append.mp mem with mem | mem
    · exact h.given n mem
    · rw [List.mem_singleton.mp mem]
      exact mine
  · rw [after] at mem
    rw [record]
    refine Record.InTurn.append (.inl (waits n (List.mem_cons_of_mem _ mem))) fun m sent => ?_
    rw [List.mem_singleton.mp sent]
    exact below.1 n mem
  · rw [record]
    refine sent_append h.sent fun before n name_ later parts => ?_
    cases before with
    | nil => cases (List.cons.inj parts).1
    | cons e fs =>
      obtain ⟨rfl, behind⟩ := List.cons.inj parts
      cases fs with
      | nil =>
        obtain ⟨rfl, -⟩ := Entry.sent.inj (List.cons.inj behind).1
        exact Record.InTurn.append (.inl (waits k List.mem_cons_self)) fun m sent => (nomatch sent)
      | cons e' gs => simp at parts

theorem rearrange (h : InOrder c) (rearranged : Rearranged c d) : InOrder d := by
  obtain ⟨es, record, change⟩ := rearranged
  have places := change.inOrder h.places
  cases change with
  | thinned nextNumber queue pending inFlight unsent =>
    exact h.unsent record unsent places nextNumber fun n mem =>
      .inl (h.waiting n ((pending.append queue).subset mem))
  | handedIn after =>
    refine h.unsent record rfl places ?_ fun n mem => .inl ?_
    · rw [after]
      exact Nat.le_succ _
    · rw [after, ← List.append_assoc] at mem
      rcases List.mem_append.mp mem with mem | new
      · exact h.waiting n mem
      · rw [List.mem_singleton.mp new]
        exact .of_newest h.given
  | collected after =>
    have same := (congrArg Places.nextNumber after).symm
    refine h.unsent record rfl places (Nat.le_of_eq same) fun n mem => .inl (h.waiting n ?_)
    rw [after, List.append_nil] at mem
    exact mem
  | @again k rest m head after =>
    have same := (congrArg Places.nextNumber after).symm
    refine h.unsent record rfl places (Nat.le_of_eq same) fun n mem => ?_
    rw [after] at mem
    rcases List.mem_append.mp mem with mem | mem
    · rcases List.mem_cons.mp ((Places.insert_perm k _).subset mem) with rfl | mem
      · exact .inr (by simp)
      · exact .inl (h.waiting n (List.mem_append_left _ mem))
    · exact .inl (h.waiting n (List.mem_append_right _ mem))
  | sent name messages first after => exact h.sendFirst record first after

end InOrder

end Turn

namespace Connection

/-- The submissions of a list that can be sent, each with the batch that it is sent as. -/
def batches (c : Connection ρ) : List (Submission ρ) → List (Submission ρ × Batch)
  | [] => []
  | s :: rest =>
    match c.prepare s with
    | .ok p => (s, p.batch) :: (c.send s).batches rest
    | .error _ => (c.send s).batches rest

variable {c d : Connection ρ}

/-- Whether a submission can be sent does not depend on the connection. -/
theorem prepare_isOk (c d : Connection ρ) (s : Submission ρ) :
    (d.prepare s).isOk = (c.prepare s).isOk := by
  cases mine : c.prepare s with
  | error f => rw [prepare_error_iff.mpr (prepare_error_iff.mp mine)]
  | ok p =>
    cases yours : d.prepare s with
    | error f => cases mine.symm.trans (prepare_error_iff.mpr (prepare_error_iff.mp yours))
    | ok q => rfl

theorem batches_submissions (c : Connection ρ) (ss : List (Submission ρ)) :
    (c.batches ss).map (·.1) = ss.filter fun s => (c.prepare s).isOk := by
  induction ss generalizing c with
  | nil => rfl
  | cons s rest ih =>
    have rest_ := ih (c.send s)
    simp only [prepare_isOk c] at rest_
    cases prepared : c.prepare s with
    | ok p => simp [batches, prepared, rest_, Except.isOk, Except.toBool]
    | error f => simp [batches, prepared, rest_, Except.isOk, Except.toBool]

theorem Alike.batches (h : Alike c d) (ss : List (Submission ρ)) : d.batches ss = c.batches ss := by
  induction ss generalizing c d with
  | nil => rfl
  | cons s rest ih =>
    have same : d.prepare s = c.prepare s := by rw [prepare, prepare, h.cache]
    rw [Connection.batches, Connection.batches, same, ih (h.send s)]

theorem foldl_send (ss : List (Submission ρ)) (c : Connection ρ) :
    (ss.foldl send c).inFlight.map (·.submission) =
        c.inFlight.map (·.submission) ++ (c.batches ss).map (·.1) ∧
      (ss.foldl send c).outbound.toBytes =
        c.outbound.toBytes ++ (c.batches ss).flatMap fun r => encodeAll r.2.messages := by
  induction ss generalizing c with
  | nil => simp [batches]
  | cons s rest ih =>
    obtain ⟨inFlight, outbound⟩ := ih (c.send s)
    rw [List.foldl_cons, inFlight, outbound, batches]
    cases prepared : c.prepare s with
    | ok p =>
      obtain ⟨queued, -, flies, -⟩ := send_prepared prepared
      rw [queued, flies, ByteQueue.toBytes_pushPiece]
      simp [Flight.start]
    | error f =>
      obtain ⟨queued, -, flies⟩ := (send_refused prepared).1
      rw [queued, flies]
      exact ⟨rfl, rfl⟩

/-- A connection that is ready sends what waits, was not given up and can be sent, and nothing waits
any more. -/
theorem pump_sends {c : Connection ρ} (ready : c.stage = .ready)
    (running : c.inbox.closeRequested = false) :
    let kept := (c.pending ++ c.inbox.queue).filter fun s => !c.isCancelled s.number
    c.pump.inFlight.map (·.submission) =
        c.inFlight.map (·.submission) ++ (c.batches kept).map (·.1) ∧
      c.pump.outbound.toBytes =
        c.outbound.toBytes ++ (c.batches kept).flatMap (fun r => encodeAll r.2.messages) ∧
      c.pump.pending = [] ∧ c.pump.inbox.queue = [] := by
  intro kept
  have stage : c.collect.dropCancelled.stage = .ready := (dropCancelled_stage c.collect).trans ready
  have sends : c.pump = c.collect.dropCancelled.sendPending := by
    have open_ : ¬ (c.collect.inbox.closeRequested = true ∧ ¬ c.collect.stage.isEnding) :=
      fun closing => Bool.false_ne_true (running.symm.trans closing.1)
    unfold pump
    dsimp only
    rw [if_neg open_, if_pos stage]
  -- What is given up is dropped before anything is sent, and this touches nothing else.
  have before : c.collect.dropCancelled.pending = kept ∧
      Alike c ({ c.collect.dropCancelled with pending := [] } : Connection ρ) := by
    rw [dropCancelled_eq]
    obtain ⟨_, _, dropped⟩ := resolveAll_eq
      ({ c.collect with
        pending := c.collect.pending.filter (not ∘ fun s => c.collect.isCancelled s.number) } :
        Connection ρ) (c.collect.pending.filter fun s => c.collect.isCancelled s.number)
      (.error .cancelled)
    rw [dropped]
    exact ⟨rfl, rfl, rfl, rfl⟩
  obtain ⟨waits, alike⟩ := before
  obtain ⟨inFlight, outbound⟩ := foldl_send kept { c.collect.dropCancelled with pending := [] }
  obtain ⟨emptied, inbox⟩ := Turn.sendPending_frame c.collect.dropCancelled
  rw [alike.batches, alike.inFlight] at inFlight
  rw [alike.batches, alike.outbound] at outbound
  rw [sends]
  refine ⟨?_, ?_, emptied, ?_⟩
  · rw [sendPending, waits]
    exact inFlight
  · rw [sendPending, waits]
    exact outbound
  · rw [inbox, (dropCancelled_frame c.collect).2.1]
    rfl

end Connection

namespace Turn

open Connection

variable {K : Consumer ρ → Prop} {t u : Turn ρ}

theorem moves_inOrder (moves : Moves K t u) (h : InOrder t.after) : InOrder u.after :=
  moves_invariant (P := fun t => InOrder t.after)
    (fun move h => h.rearrange (.of_stride move.stride)) moves h

/-- Wherever a connection has got to, the submissions that wait to be sent are in order, and those in
the inbox are newer than these and than those in flight. A connection that is ready and was not asked
to close sends all that waits in this order, except what was given up or is refused for its parameters
or its query: the batches are queued and the submissions are in flight one behind the other. So nothing
is sent before an older submission that waits, be it for the first time or to be sent again: when a
submission is sent, a batch of its own has ended since anything as new as it was sent. -/
theorem moves_send_in_order (config : Config) (nonces : Nat → List Char) {t : Turn ρ}
    (moves : Moves (fun _ => True) (done (.start config nonces)) t) :
    let c := t.after
    (Submission.numbers c.pending).Pairwise (· < ·) ∧
      (∀ n ∈ Submission.numbers c.inbox.queue,
        ∀ m ∈ Submission.numbers (c.pending ++ c.inFlight.map (·.submission)), m < n) ∧
      (c.stage = .ready → c.inbox.closeRequested = false →
        let waiting := c.pending ++ c.inbox.queue
        let run := c.batches (waiting.filter fun s => !c.isCancelled s.number)
        run.map (·.1) =
            waiting.filter (fun s => !c.isCancelled s.number && (c.prepare s).isOk) ∧
          (Submission.numbers (run.map (·.1))).Pairwise (· < ·) ∧
          c.pump.inFlight.map (·.submission) = c.inFlight.map (·.submission) ++ run.map (·.1) ∧
          c.pump.outbound.toBytes =
            c.outbound.toBytes ++ run.flatMap (fun r => encodeAll r.2.messages) ∧
          c.pump.pending = [] ∧ c.pump.inbox.queue = []) ∧
      ∀ before n name after, c.record = before ++ .sent n name :: after →
        Record.InTurn n before := by
  intro c
  have inOrder : InOrder c := moves_inOrder moves (.start config nonces)
  obtain ⟨pending, queue, across⟩ := List.pairwise_append.mp inOrder.places.waiting
  refine ⟨pending, fun n waits m earlier => ?_, fun ready running => ?_, inOrder.sent⟩
  · rw [Submission.numbers_append] at earlier
    rcases List.mem_append.mp earlier with earlier | earlier
    · exact across m earlier n waits
    · exact inOrder.places.behind m earlier n waits
  · intro waiting run
    have sent : run.map (·.1) =
        waiting.filter (fun s => !c.isCancelled s.number && (c.prepare s).isOk) := by
      rw [batches_submissions, List.filter_filter]
      exact List.filter_congr fun s _ => Bool.and_comm _ _
    refine ⟨sent, ?_, pump_sends ready running⟩
    rw [sent]
    have all : (Submission.numbers waiting).Pairwise (· < ·) := by
      rw [Submission.numbers_append]
      exact inOrder.places.waiting
    exact all.sublist (List.filter_sublist.map _)

theorem moves_send_in_order_retried :
    let unknown : List BackendMessage :=
      [.errorResponse [(Bytes.ascii 'C', "26000")], .readyForQuery .idle]
    let actions : List (Action Nat) :=
      Action.admission ++ [.submit "a" [] Consumer.count, .submit "b" [] Consumer.count, .attention,
        .submit "c" [] Consumer.count, .submit "" [] Consumer.count,
        .submit "d" [] Consumer.count, .cancel 4]
    let c := ((done (.start { Config.default with encryption := .disable } fun _ => [])).run
      actions).after
    let socket := Socket.giving ((unknown ++ unknown).flatMap BackendMessage.encode) []
    let d := (c.begin.onEvent .readable socket).after
    Submission.numbers (c.inFlight.map (·.submission)) = [0, 1] ∧
      Submission.numbers (d.pending ++ d.inbox.queue) = [0, 1, 2, 3, 4] ∧
      (∃ run : List (Submission Nat × Batch), run.map (·.2.statement.name) =
          ["__pm_3", "__pm_4", "__pm_5"] ∧
        (Submission.numbers (run.map (·.1))).Pairwise (· < ·) ∧
        d.pump.inFlight.map (·.submission) = run.map (·.1) ∧
        d.pump.outbound.toBytes =
          d.outbound.toBytes ++ run.flatMap (fun r => encodeAll r.2.messages) ∧
        d.pump.pending = []) ∧
      Submission.numbers (d.pump.inFlight.map (·.submission)) = [0, 1, 2] := by
  intro unknown actions c socket d
  have alive : c.stage ≠ .closed := by decide +kernel
  have ready : d.stage = .ready := by decide +kernel
  have running : d.inbox.closeRequested = false := by decide +kernel
  have before : d.inFlight.map (·.submission) = [] := List.isEmpty_iff.mp (by decide +kernel)
  let origin : Turn Nat := done (.start { Config.default with encryption := .disable } fun _ => [])
  have uninterrupted : (origin.run actions).interruption = none := by decide +kernel
  have moves : Moves (fun _ => True) origin (c.begin.onEvent .readable socket) := by
    have run : Moves (fun _ => True) origin (origin.run actions) :=
      run_moves origin fun a _ => allows_any a
    rw [eq_done uninterrupted] at run
    exact run.trans (onEvent_moves alive .readable socket)
  obtain ⟨-, rises, inFlight, outbound, emptied, -⟩ :=
    (moves_send_in_order { Config.default with encryption := .disable } (fun _ => [])
      moves).2.2.1 ready running
  refine ⟨by decide +kernel, by decide +kernel, ⟨_, ?_, rises, ?_, outbound, emptied⟩,
    by decide +kernel⟩
  · decide +kernel
  · exact inFlight.trans (congrArg (· ++ _) before)

end Turn

end PgPipeline
