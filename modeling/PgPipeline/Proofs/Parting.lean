import PgPipeline.Proofs.Finality
import PgPipeline.Proofs.Outflow

/-!
How a connection parts from its server.

A connection that is closing goes on until its leave is written, or the server has ended the stream,
exactly as long as the server says nothing but what it may say at any time. The first answer to a
batch finds nothing in flight and breaks the connection off, with bytes left to write
(`Turn.drive_parts_iff`).
-/

namespace PgPipeline

open FrontendMessage (encodeAll)

variable {ρ : Type}

namespace BackendMessage

def isAnswer : BackendMessage → Bool
  | .parseComplete => true
  | .parameterDescription _ => true
  | .rowDescription _ => true
  | .noData => true
  | .bindComplete => true
  | .dataRow _ => true
  | .commandComplete _ => true
  | .emptyQueryResponse => true
  | .portalSuspended => true
  | .closeComplete => true
  | .readyForQuery _ => true
  | _ => false

def stray : BackendMessage → Failure
  | .errorResponse fields =>
    if (ServerReport.ofFields fields).isFinal then .server (.ofFields fields)
    else .protocol "ErrorResponse with no submission in flight"
  | m =>
    .protocol (if m.isAnswer then m.name ++ " with no submission in flight"
      else s!"unexpected {m.name} while processing queries")

end BackendMessage

namespace Inbound

def isLegible (i : Inbound) : List Bytes → Bool
  | [] => true
  | piece :: rest =>
    (i.feed piece).drain.2.1.isNone && (i.feed piece).drain.2.2.isLegible rest

def after (i : Inbound) (pieces : List Bytes) : Inbound :=
  pieces.foldl (fun i piece => (i.feed piece).drain.2.2) i

theorem isLegible_append (i : Inbound) (xs ys : List Bytes) :
    i.isLegible (xs ++ ys) = (i.isLegible xs && (i.after xs).isLegible ys) := by
  induction xs generalizing i with
  | nil => rfl
  | cons piece rest ih =>
    rw [List.cons_append, isLegible, isLegible, ih, Bool.and_assoc]
    rfl

end Inbound

namespace Action

/-- The action is no failure, neither of the loop nor of the socket. -/
def isCalm : Action ρ → Bool
  | .dispatch (.failed _) _ => false
  | .dispatch .readable socket =>
    !socket.writes.any WriteAnswer.breaks &&
      (socket.readEnd == .blocked || socket.readEnd == .finished)
  | .dispatch _ socket => !socket.writes.any WriteAnswer.breaks
  | .tell _ => false
  | _ => true

def incoming : Action ρ → List Bytes
  | .dispatch .readable socket => socket.incoming
  | _ => []

def finishes : Action ρ → Bool
  | .dispatch .readable socket => socket.readEnd == .finished
  | _ => false

end Action

namespace Connection

variable {c d e : Connection ρ}

theorem withHead_nil (idle : c.inFlight = []) (name : String)
    (next : Flight ρ → List (Flight ρ) → Turn ρ) :
    c.withHead name next = .fail c (.protocol (name ++ " with no submission in flight")) := by
  rw [withHead, idle]

theorem onQueryMessage_stray (idle : c.inFlight = []) {m : BackendMessage}
    (answer : m.isAside = false) :
    ∃ transaction, c.onQueryMessage m = .fail { c with transaction } m.stray := by
  cases m
  case errorResponse fields =>
    refine ⟨c.transaction, ?_⟩
    unfold onQueryMessage onError BackendMessage.stray
    dsimp only
    split
    · rfl
    · exact withHead_nil idle _ _
  case readyForQuery status =>
    exact ⟨status, withHead_nil (c := { c with transaction := status }) idle _ _⟩
  case parameterStatus | backendKeyData | noticeResponse | notification => cases answer
  all_goals first
    | exact ⟨c.transaction, withHead_nil idle _ _⟩
    | exact ⟨c.transaction, rfl⟩

theorem onMessage_closing (closing : c.stage = .closing) {m : BackendMessage}
    (answer : m.isAside = false) : c.onMessage m = (c.enter [.received m]).onQueryMessage m := by
  have stage : (c.enter [.received m]).stage = .closing := closing
  cases m
  case parameterStatus | backendKeyData | noticeResponse | notification => cases answer
  all_goals
    unfold onMessage
    dsimp only
    rw [stage]

structure Overhears (messages : List BackendMessage) (c d : Connection ρ) : Prop where
  shell : d.shell = c.shell
  work : d.work = c.work
  outbound : d.outbound = c.outbound
  record : d.record = c.record ++ messages.map .received

namespace Overhears

variable {ms ns : List BackendMessage}

theorem of_eq (shell : d.shell = c.shell) (work : d.work = c.work)
    (outbound : d.outbound = c.outbound) (record : d.record = c.record) : Overhears [] c d :=
  ⟨shell, work, outbound, by rw [record, List.map_nil, List.append_nil]⟩

theorem trans (h : Overhears ms c d) (k : Overhears ns d e) : Overhears (ms ++ ns) c e := by
  refine ⟨k.shell.trans h.shell, k.work.trans h.work, k.outbound.trans h.outbound, ?_⟩
  rw [k.record, h.record, List.map_append, List.append_assoc]

theorem stage (h : Overhears ms c d) : d.stage = c.stage := congrArg Shell.stage h.shell

theorem inFlight (h : Overhears ms c d) : d.inFlight = c.inFlight := congrArg Work.inFlight h.work

theorem awaitingEncryption (h : Overhears ms c d) : d.awaitingEncryption = c.awaitingEncryption :=
  congrArg Shell.awaitingEncryption h.shell

end Overhears

/-- What it comes to that a closing connection listens: it has heard asides only, and this is left
of the input, or the last message that it heard broke it off. -/
inductive Listens (c : Connection ρ) (inbound : Inbound) : Turn ρ → Prop
  | on {d : Connection ρ} {ms : List BackendMessage} (asides : ∀ m ∈ ms, m.isAside = true)
      (heard : Overhears ms c d) (left : d.inbound = inbound) : Listens c inbound (.done d)
  | off {d : Connection ρ} {ms : List BackendMessage} {m : BackendMessage}
      (answer : m.isAside = false) (heard : Overhears (ms ++ [m]) c d) :
      Listens c inbound ⟨d, some (.failed m.stray)⟩

namespace Listens

variable {i j : Inbound} {ms : List BackendMessage} {t : Turn ρ} {f : Connection ρ → Turn ρ}

theorem nothing (left : c.inbound = i) : Listens c i (.done c) :=
  .on (fun _ mem => absurd mem List.not_mem_nil) (.of_eq rfl rfl rfl rfl) left

theorem from_aside (asides : ∀ m ∈ ms, m.isAside = true) (first : Overhears ms c d)
    (h : Listens d i t) : Listens c i t := by
  cases h with
  | on later heard left =>
    refine .on (fun m mem => ?_) (first.trans heard) left
    exact (List.mem_append.mp mem).elim (asides m) (later m)
  | off answer heard => exact .off answer (List.append_assoc .. ▸ first.trans heard)

theorem andThen (h : Listens c i t)
    (next : ∀ {d ms}, Overhears ms c d → d.inbound = i → Listens d j (f d)) :
    Listens c j (t.andThen f) := by
  cases h with
  | on asides heard left => exact from_aside asides heard (next heard left)
  | off answer heard => exact .off answer heard

theorem message (closing : c.stage = .closing) (idle : c.inFlight = []) (m : BackendMessage) :
    Listens c c.inbound (c.onMessage m) := by
  have taken {d : Connection ρ} (shell : d.shell = c.shell) (work : d.work = c.work)
      (outbound : d.outbound = c.outbound) (record : d.record = c.record ++ [.received m]) :
      Overhears [m] c d := ⟨shell, work, outbound, record⟩
  cases aside : m.isAside with
  | true =>
    rcases onMessage_cases c m with ⟨_, _, e⟩ | ⟨answer, _⟩ | ⟨answer, _⟩ | ⟨answer, _⟩
    · exact e ▸ .on (by simpa using aside) (taken rfl rfl rfl rfl) rfl
    all_goals exact absurd (answer.symm.trans aside) Bool.false_ne_true
  | false =>
    obtain ⟨transaction, stray⟩ := onQueryMessage_stray (c := c.enter [.received m]) idle aside
    rw [onMessage_closing closing aside, stray]
    have heard : Overhears ([] ++ [m]) c { c.enter [.received m] with transaction } :=
      taken rfl rfl rfl rfl
    exact .off aside heard

theorem messages (closing : c.stage = .closing) (idle : c.inFlight = [])
    (ms : List BackendMessage) : Listens c c.inbound (c.onMessages ms) := by
  induction ms generalizing c with
  | nil => exact nothing rfl
  | cons m rest ih =>
    refine (message closing idle m).andThen fun {d _} heard left => ?_
    rw [← left]
    exact ih (heard.stage.trans closing) (heard.inFlight.trans idle)

theorem takeMessages (closing : c.stage = .closing) (idle : c.inFlight = [])
    (legible : c.inbound.drain.2.1 = none) : Listens c c.inbound.drain.2.2 c.takeMessages := by
  rcases drained : c.inbound.drain with ⟨messages, fault, inbound⟩
  rw [drained] at legible
  have legible : fault = none := legible
  have fed : Overhears [] c { c with inbound } := .of_eq rfl rfl rfl rfl
  unfold Connection.takeMessages
  simp only [drained, legible]
  have all := Listens.messages (c := { c with inbound }) closing idle messages
  refine (from_aside (by simp) fed all).andThen fun _ left => ?_
  exact nothing left

theorem takePieces (closing : c.stage = .closing) (idle : c.inFlight = [])
    (unasked : c.awaitingEncryption = false) {pieces : List Bytes}
    (legible : c.inbound.isLegible pieces = true) :
    Listens c (c.inbound.after pieces) (c.takePieces pieces) := by
  induction pieces generalizing c with
  | nil => exact nothing rfl
  | cons piece rest ih =>
    rw [Inbound.isLegible, Bool.and_eq_true] at legible
    have fed : Overhears [] c { c with inbound := c.inbound.feed piece } := .of_eq rfl rfl rfl rfl
    have taken := Listens.takeMessages (c := { c with inbound := c.inbound.feed piece }) closing
      idle (Option.isNone_iff_eq_none.mp legible.1)
    have inbound : ({ c with inbound := c.inbound.feed piece } : Connection ρ).takeInbound =
        ({ c with inbound := c.inbound.feed piece } : Connection ρ).takeMessages := by
      rw [takeInbound, if_neg (by simp [unasked])]
    rw [Connection.takePieces, inbound]
    refine (from_aside (by simp) fed taken).andThen fun {d _} heard left => ?_
    have later := ih (c := d) (heard.stage.trans closing) (heard.inFlight.trans idle)
      (heard.awaitingEncryption.trans unasked) (left ▸ legible.2)
    rw [left] at later
    exact later

end Listens

structure Parted (r : List (Entry ρ)) (c : Connection ρ) (es : List (Entry ρ)) : Prop where
  record : c.record = r ++ es
  course : c.Course
  cause : c.inbox.closedBy = some .closed
  flows : c.Flows
  last : ∃ messages, Record.queued c.record = messages ++ [.terminate]
  idle : c.work.outstanding = []

structure Lingers (c d : Connection ρ) (es : List (Entry ρ)) : Prop where
  record : d.record = c.record ++ es
  silent : ∀ e ∈ es, e.ofStream = false
  outbound : d.outbound = c.outbound
  closedBy : d.inbox.closedBy = c.inbox.closedBy
  outstanding : d.work.outstanding = c.work.outstanding

theorem Overhears.lingers {ms : List BackendMessage} (h : Overhears ms c d) :
    Lingers c d (ms.map .received) := by
  refine ⟨h.record, fun e he => ?_, h.outbound, congrArg Shell.closedBy h.shell,
    congrArg Work.outstanding h.work⟩
  obtain ⟨m, _, rfl⟩ := List.mem_map.mp he
  rfl

theorem moveTo_lingers {stage : Stage} (other : c.stage ≠ stage) :
    Lingers c (c.moveTo stage) [.moved stage] := by
  rw [moveTo, if_neg other]
  exact ⟨rfl, by simp [Entry.ofStream], rfl, rfl, rfl⟩

namespace Parted

variable {r es fs : List (Entry ρ)}

theorem inFlight (h : Parted r c es) : c.inFlight = [] := by
  have idle := h.idle
  simp only [Work.outstanding, work, List.append_eq_nil_iff, List.map_eq_nil_iff] at idle
  exact idle.1.1

theorem lingers (h : Parted r c es) (lingers : Lingers c d fs) (course : d.Course) :
    Parted r d (es ++ fs) := by
  have silent : Silent c d := ⟨lingers.outbound, fs, lingers.record, lingers.silent⟩
  refine ⟨?_, course, lingers.closedBy.trans h.cause, h.flows.adds (.of_silent silent), ?_,
    lingers.outstanding.trans h.idle⟩
  · rw [lingers.record, h.record, List.append_assoc]
  · rw [lingers.record, Record.queued_append, Record.queued_eq_nil lingers.silent, List.append_nil]
    exact h.last

theorem flush (h : Parted r c es) (answers : List WriteAnswer) :
    ∃ fs, Parted r (c.flush (c.outbound.writeTo answers)) (es ++ fs) ∧ ∀ m, .received m ∉ fs := by
  refine ⟨if (c.outbound.writeTo answers).sent.isEmpty then []
    else [.wrote (c.outbound.writeTo answers).sent],
    ⟨?_, h.course.stays (.flush _ _), h.cause, h.flows.flush answers, ?_, h.idle⟩, ?_⟩
  · rw [Connection.flush, enter]
    dsimp only
    rw [h.record, List.append_assoc]
  · obtain ⟨messages, last⟩ := h.last
    refine ⟨messages, ?_⟩
    rw [Connection.flush, enter]
    dsimp only
    rw [Record.queued_append, last]
    split <;> exact List.append_nil _
  · intro m mem
    split at mem <;> simp at mem

end Parted

/-- How far the parting has come: it goes on, with these pieces of input to come, or it is over
since all is written or the server has finished, or an answer has broken it off. -/
inductive Farewell (r : List (Entry ρ)) (finished : Prop) (pieces : List Bytes) : Turn ρ → Prop
  | staying {c : Connection ρ} {es : List (Entry ρ)} (parted : Parted r c es)
      (closing : c.stage = .closing) (holds : c.outbound.toBytes ≠ [])
      (asides : ∀ m, .received m ∈ es → m.isAside = true)
      (legible : c.inbound.isLegible pieces = true) : Farewell r finished pieces (.done c)
  | left {c : Connection ρ} {es : List (Entry ρ)} (parted : Parted r c es)
      (closed : c.stage = .closed) (asides : ∀ m, .received m ∈ es → m.isAside = true)
      (gone : c.outbound.toBytes = [] ∨ finished) : Farewell r finished pieces (.done c)
  | disturbed {t : Turn ρ} {es : List (Entry ρ)} {m : BackendMessage} (parted : Parted r t.after es)
      (closing : t.after.stage = .closing) (holds : t.after.outbound.toBytes ≠ [])
      (heard : .received m ∈ es) (answer : m.isAside = false)
      (broken : t.interruption = some (.failed m.stray)) : Farewell r finished pieces t

namespace Farewell

variable {r es : List (Entry ρ)} {finished : Prop} {pieces : List Bytes} {t : Turn ρ}

theorem asides_append {as bs : List (Entry ρ)} (ha : ∀ m, .received m ∈ as → m.isAside = true)
    (hb : ∀ m, .received m ∈ bs → m.isAside = true) :
    ∀ m, .received m ∈ as ++ bs → m.isAside = true := fun m mem =>
  (List.mem_append.mp mem).elim (ha m) (hb m)

theorem weaken {wide : Prop} (h : Farewell r finished pieces t) (le : finished → wide) :
    Farewell r wide pieces t := by
  cases h with
  | staying parted closing holds asides legible => exact .staying parted closing holds asides legible
  | left parted closed asides gone => exact .left parted closed asides (gone.imp_right le)
  | disturbed parted closing holds heard answer broken =>
    exact .disturbed parted closing holds heard answer broken

theorem pump_closing (closing : c.stage = .closing) (idle : c.work.outstanding = []) :
    c.pump = c := by
  simp only [Work.outstanding, work, List.append_eq_nil_iff, List.map_eq_nil_iff] at idle
  obtain ⟨⟨_, pending⟩, queue⟩ := idle
  have collected : c.collect = c := by
    have same : c.pending ++ c.inbox.queue = c.pending := by rw [queue, List.append_nil]
    have inbox : ({ c.inbox with queue := [] } : Inbox ρ) = c.inbox := by rw [← queue]
    rw [collect, same, inbox]
  have dropped : c.dropCancelled = c := by
    rw [dropCancelled_eq, pending]
    change ({ c with pending := [] } : Connection ρ) = c
    rw [← pending]
  unfold pump
  dsimp only
  rw [collected, dropped, closing]
  simp [Stage.isEnding]

theorem write (parted : Parted r c es) (closing : c.stage = .closing)
    (asides : ∀ m, .received m ∈ es → m.isAside = true)
    (legible : c.inbound.isLegible pieces = true) {socket : Socket}
    (works : socket.writes.any WriteAnswer.breaks = false) :
    Farewell r finished pieces (c.write socket) := by
  obtain ⟨fs, flushed, still⟩ := parted.flush socket.writes
  have quiet := asides_append asides fun m mem => absurd mem (still m)
  have connected : c.connected = true := (parted.course.talks (closing ▸ rfl)).1
  have drained := c.outbound.writeTo_drained socket.writes
  have unbroken := c.outbound.writeTo_works works
  rcases c.write_cases socket with ⟨_, idle | closed⟩ | ⟨_, _, writes⟩
  · exact absurd (connected.symm.trans idle) (by decide)
  · exact absurd (closing.symm.trans closed) (by decide)
  · generalize c.outbound.writeTo socket.writes = w at flushed drained unbroken writes
    generalize c.write socket = t at writes
    cases writes with
    | left ending leaving =>
      have stage : (c.flush w).stage ≠ .closed := by
        rw [show (c.flush w).stage = .closing from closing]
        decide
      have moved := moveTo_lingers stage
      have course : ((c.flush w).moveTo .closed).Course :=
        flushed.course.moveTo (Course.rank_lt stage) fun talking => by cases talking
      refine .left (flushed.lingers moved course) (moveTo_stage _ _) ?_ (.inl ?_)
      · exact asides_append quiet (by simp)
      · rw [moved.outbound]
        exact drained.mp ending
    | drained ending staying => exact absurd closing staying
    | blocked ending =>
      exact .staying flushed closing (fun nothing => by simp [drained.mpr nothing] at ending) quiet
        legible
    | failed ending => exact absurd ending (unbroken _)

theorem settle (parted : Parted r c es) (closing : c.stage = .closing)
    (asides : ∀ m, .received m ∈ es → m.isAside = true)
    (legible : c.inbound.isLegible pieces = true) {socket : Socket}
    (works : socket.writes.any WriteAnswer.breaks = false) :
    Farewell r finished pieces (c.settle socket) := by
  rw [Connection.settle, if_neg (by simp [closing]), pump_closing closing parted.idle]
  exact write parted closing asides legible works

theorem read (parted : Parted r c es) (closing : c.stage = .closing)
    (holds : c.outbound.toBytes ≠ []) (asides : ∀ m, .received m ∈ es → m.isAside = true)
    {socket : Socket}
    (legible : c.inbound.isLegible (socket.incoming ++ pieces) = true)
    (works : socket.writes.any WriteAnswer.breaks = false)
    (reads : socket.readEnd = .blocked ∨ socket.readEnd = .finished) :
    Farewell r (finished ∨ socket.readEnd = .finished) pieces
      ((c.read socket).andThen fun d => d.settle socket) := by
  rw [Inbound.isLegible_append, Bool.and_eq_true] at legible
  have unasked : c.awaitingEncryption = false := (parted.course.talks (closing ▸ rfl)).2
  have learnt : Overhears [] c (c.learnCertificate socket.certificate) := by
    unfold learnCertificate
    split <;> exact .of_eq rfl rfl rfl rfl
  have inbound : (c.learnCertificate socket.certificate).inbound = c.inbound := by
    unfold learnCertificate
    split <;> rfl
  have listens := Listens.takePieces (learnt.stage.trans closing)
    (learnt.inFlight.trans parted.inFlight) (learnt.awaitingEncryption.trans unasked)
    (inbound ▸ legible.1)
  rw [inbound] at listens
  have listens := Listens.from_aside (by simp) learnt listens
  have heard {d : Connection ρ} {ms : List BackendMessage} (heard : Overhears ms c d) :
      Parted r d (es ++ ms.map .received) := by
    refine parted.lingers heard.lingers (parted.course.stays ⟨heard.shell, _, heard.record, ?_⟩)
    simp [Entry.ofCourse]
  unfold Connection.read
  generalize (c.learnCertificate socket.certificate).takePieces socket.incoming = t at listens
  cases listens with
  | @on d ms quiet said left =>
    have stage : d.stage = .closing := said.stage.trans closing
    have later : ∀ m, .received m ∈ ms.map (Entry.received (ρ := ρ)) → m.isAside = true := by
      intro m mem
      obtain ⟨k, hk, same⟩ := List.mem_map.mp mem
      cases same
      exact quiet m hk
    have asides := asides_append asides later
    have more : d.inbound.isLegible pieces = true := left ▸ legible.2
    rcases reads with blocked | finishes
    · have rest : Farewell r finished pieces (d.settle socket) :=
        settle (heard said) stage asides more works
      simp only [Turn.andThen, Turn.done, blocked]
      exact rest.weaken .inl
    · have alive : d.stage ≠ .closed := by
        rw [stage]
        decide
      have course : (d.moveTo .closed).Course :=
        (heard said).course.moveTo (Course.rank_lt alive) fun talking => by cases talking
      rw [finishes]
      dsimp only [Turn.andThen, Turn.done]
      rw [if_pos stage]
      dsimp only
      rw [Connection.settle, if_pos (moveTo_stage _ _)]
      exact .left ((heard said).lingers (moveTo_lingers alive) course) (moveTo_stage _ _)
        (asides_append asides (by simp)) (.inr (.inr rfl))
  | @off d ms m answer said =>
    have mem : .received m ∈ es ++ (ms ++ [m]).map Entry.received := by simp
    exact .disturbed (heard said) (said.stage.trans closing) (said.outbound ▸ holds) mem answer rfl

theorem skip {a : Action ρ} (h : Farewell r finished (a.incoming ++ pieces) t)
    (silent : a.incoming = []) : Farewell r (finished ∨ a.finishes = true) pieces t := by
  rw [silent, List.nil_append] at h
  exact h.weaken .inl

theorem dispatch {event : LoopEvent} {socket : Socket}
    (h : Farewell r finished ((Action.dispatch event socket : Action ρ).incoming ++ pieces) t)
    (timely : (Action.dispatch event socket : Action ρ).isTimely t.after = true)
    (calm : (Action.dispatch event socket : Action ρ).isCalm = true) :
    Farewell r (finished ∨ (Action.dispatch event socket : Action ρ).finishes = true) pieces
      (t.act (.dispatch event socket)) := by
  cases h with
  | @staying c es parted closing holds asides legible =>
    have begun : c.begin = c := by rw [begin, if_neg (by simp [closing])]
    unfold Turn.act Turn.andThen Connection.dispatch
    dsimp only [Turn.done]
    rw [if_neg (by simp [closing]), begun]
    cases event with
    | readable =>
      simp only [Action.isCalm, Bool.and_eq_true, Bool.not_eq_true', Bool.or_eq_true, beq_iff_eq]
        at calm
      have read : Farewell r (finished ∨ socket.readEnd = .finished) pieces
          ((c.read socket).andThen fun d => d.settle socket) :=
        read parted closing holds asides legible calm.1 calm.2
      exact read.weaken (Or.imp_right fun finishes => by simp [Action.finishes, finishes])
    | connected =>
      have waiting : (!c.connected && c.stage != .closed) = true := timely
      have connected := (parted.course.talks (closing ▸ rfl)).1
      simp [connected] at waiting
    | failed failure => cases calm
    | writable | notified =>
      have works := (Bool.not_eq_true' _).mp calm
      exact (settle parted closing asides legible works).weaken .inl
    | timer =>
      have works := (Bool.not_eq_true' _).mp calm
      have idle : c.onTimer = .done c := by rw [onTimer, if_neg (by simp [closing])]
      simp only [onEvent, idle]
      exact (settle parted closing asides legible works).weaken .inl
  | @left c es parted closed asides gone =>
    have same : (Turn.done c).act (.dispatch event socket) = .done c := by
      unfold Turn.act Turn.andThen Connection.dispatch
      simp [Turn.done, closed]
    rw [same]
    exact .left parted closed asides (gone.imp_right .inl)
  | disturbed parted closing holds heard answer broken =>
    have same : t.act (.dispatch event socket) = t := by
      unfold Turn.act Turn.andThen
      simp only [broken]
    rw [same]
    exact .disturbed parted closing holds heard answer broken

end Farewell

theorem request_lingers {t : Turn ρ} {a : Action ρ}
    (asked : ∀ event socket, a ≠ .dispatch event socket) (calm : a.isCalm = true)
    (ended : t.after.inbox.closedBy ≠ none) :
    ∃ es, Lingers t.after (t.act a).after es ∧ (∀ m, .received m ∉ es) ∧
      (t.act a).after.stage = t.after.stage ∧ (t.act a).after.inbound = t.after.inbound ∧
      (t.act a).interruption = t.interruption := by
  cases a with
  | submit query params consumer =>
    unfold Turn.act Turn.request Connection.submit
    dsimp only
    split
    · exact ⟨_, ⟨rfl, by simp [Entry.ofStream], rfl, rfl, rfl⟩, by simp, rfl, rfl, rfl⟩
    · next opened => exact absurd opened ended
  | cancel number =>
    unfold Turn.act Turn.request Connection.cancel
    dsimp only
    refine ⟨[], ?_⟩
    split
    all_goals
      exact ⟨⟨(List.append_nil _).symm, by simp, rfl, rfl, rfl⟩, by simp, rfl, rfl, rfl⟩
  | awaitReady =>
    unfold Turn.act Turn.request Connection.awaitReady
    dsimp only
    split
    · exact ⟨[], ⟨(List.append_nil _).symm, by simp, rfl, rfl, rfl⟩, by simp, rfl, rfl, rfl⟩
    all_goals exact ⟨_, ⟨rfl, by simp [Entry.ofStream], rfl, rfl, rfl⟩, by simp, rfl, rfl, rfl⟩
  | requestClose =>
    exact ⟨[], ⟨(List.append_nil _).symm, by simp, rfl, rfl, rfl⟩, by simp, rfl, rfl, rfl⟩
  | dispatch event socket => exact absurd rfl (asked event socket)
  | tell cause => cases calm

namespace Farewell

variable {r : List (Entry ρ)} {finished : Prop} {pieces : List Bytes} {t : Turn ρ} {a : Action ρ}

theorem request (h : Farewell r finished pieces t)
    (asked : ∀ event socket, a ≠ .dispatch event socket) (calm : a.isCalm = true) :
    Farewell r finished pieces (t.act a) := by
  have ended : t.after.inbox.closedBy ≠ none := by
    cases h with
    | staying parted | left parted | disturbed parted => simp [parted.cause, Turn.done]
  obtain ⟨es, lingers, still, stage, inbound, same⟩ := request_lingers asked calm ended
  have course (before : t.after.Course) : (t.act a).after.Course :=
    Turn.course_persists.request asked before
  have silent : ∀ m, .received m ∈ es → m.isAside = true := fun m mem => absurd mem (still m)
  cases h with
  | staying parted closing holds asides legible =>
    rw [Turn.eq_done same]
    exact .staying (parted.lingers lingers (course parted.course)) (stage.trans closing)
      (lingers.outbound ▸ holds) (asides_append asides silent) (inbound ▸ legible)
  | left parted closed asides gone =>
    rw [Turn.eq_done same]
    exact .left (parted.lingers lingers (course parted.course)) (stage.trans closed)
      (asides_append asides silent) (lingers.outbound ▸ gone)
  | disturbed parted closing holds heard answer broken =>
    exact .disturbed (parted.lingers lingers (course parted.course)) (stage.trans closing)
      (lingers.outbound ▸ holds) (List.mem_append_left _ heard) answer (same.trans broken)

theorem heed (h : Farewell r finished (a.incoming ++ pieces) t) (calm : a.isCalm = true) :
    Farewell r (finished ∨ a.finishes = true) pieces (t.heed a) := by
  unfold Turn.heed
  split
  · next timely =>
    cases a with
    | dispatch event socket => exact h.dispatch timely calm
    | tell cause => cases calm
    | _ => exact (h.skip rfl).request (by simp) rfl
  · next untimely =>
    cases a with
    | dispatch event socket =>
      cases event with
      | connected => exact h.skip rfl
      | _ => exact absurd rfl untimely
    | _ => exact absurd rfl untimely

theorem drive {actions : List (Action ρ)}
    (h : Farewell r finished (actions.flatMap Action.incoming) t)
    (calm : ∀ a ∈ actions, a.isCalm = true) :
    Farewell r (finished ∨ ∃ a ∈ actions, a.finishes = true) [] (t.drive actions) := by
  induction actions generalizing t finished with
  | nil => exact h.weaken .inl
  | cons a rest ih =>
    have first := Farewell.heed h (calm a List.mem_cons_self)
    refine (ih first fun b hb => calm b (List.mem_cons_of_mem _ hb)).weaken ?_
    rintro ((before | now) | ⟨b, hb, later⟩)
    · exact .inl before
    · exact .inr ⟨a, List.mem_cons_self, now⟩
    · exact .inr ⟨b, List.mem_cons_of_mem _ hb, later⟩

end Farewell

end Connection

theorem BackendMessage.stray_ne_closed (m : BackendMessage) : m.stray ≠ .closed := by
  unfold stray
  split
  · split <;> simp
  · simp

namespace Turn

open Connection

theorem Lasting.parted {t : Turn ρ} (lasting : Lasting t) (conveys : t.after.Conveys)
    (leaving : t.after.Leaving) (closing : t.after.stage = .closing) :
    Parted t.after.record t.after [] := by
  obtain ⟨cause, _, last⟩ := leaving
  have ended : t.after.inbox.closedBy ≠ none := by simp [cause]
  exact ⟨(List.append_nil _).symm, lasting.course, cause, conveys.flows (closing ▸ by decide), last,
    lasting.regular.orderly.inStep.shut ended⟩

/-- Whatever happens to a closing connection other than failures, in any order and with any partial
writes: what was written and what is queued are together all messages, of which the leave is the
last, and late submissions are told that the connection is closed. It goes on in this way exactly if
all that the server has said since is what it may say at any time, and is closed only when the leave
is written or the server has ended the stream. Otherwise the first answer has broken it off: that is
the failure which late submissions are told of, and some of the bytes are never written. -/
theorem drive_parts_iff (config : Config) (nonces : Nat → List Char)
    (before later : List (Action ρ)) :
    let t : Turn ρ := (done (.start config nonces)).drive before
    let u := t.drive later
    t.interruption = none → t.after.stage = .closing → (∀ a ∈ later, a.isCalm = true) →
    t.after.inbound.isLegible (later.flatMap Action.incoming) = true →
    ∃ es, u.after.record = t.after.record ++ es ∧
      u.after.inbox.closedBy = some .closed ∧
      (∃ messages, Record.queued u.after.record = messages ++ [.terminate]) ∧
      Record.written u.after.record ++ u.after.outbound.toBytes =
        encodeAll (Record.queued u.after.record) ∧
      (u.interruption = none ↔ ∀ m, .received m ∈ es → m.isAside = true) ∧
      (u.interruption = none →
        u.after.stage = .closing ∧ u.after.outbound.toBytes ≠ [] ∨
        u.after.stage = .closed ∧
          (u.after.outbound.toBytes = [] ∨ ∃ a ∈ later, a.finishes = true)) ∧
      (u.interruption ≠ none → ∃ m, .received m ∈ es ∧ m.isAside = false ∧
        u.interruption = some (.failed m.stray) ∧ m.stray ≠ .closed ∧ ∀ cause,
          let d := (u.act (.tell cause)).after
          d.stage = .closed ∧ d.inbox.closedBy = some m.stray ∧ d.outbound = .empty ∧
          Record.queued d.record = Record.queued u.after.record ∧
          ∃ lost, lost ≠ [] ∧
            Record.written d.record ++ lost = encodeAll (Record.queued d.record)) := by
  intro t u going closing calm legible
  have lasting : Lasting t := (start_lasting config nonces).drive before
  have leaving : t.after.Leaving := drive_leaving config nonces before closing
  have parted := lasting.parted (drive_conveys config nonces before) leaving closing
  have start : Farewell t.after.record False (later.flatMap Action.incoming) t := by
    rw [eq_done going]
    exact .staying parted closing leaving.holds
      (fun m mem => absurd mem List.not_mem_nil) legible
  have farewell : Farewell t.after.record _ [] u := start.drive calm
  clear_value u
  cases farewell with
  | staying parted closing holds asides =>
    exact ⟨_, parted.record, parted.cause, parted.last, parted.flows, iff_of_true rfl asides,
      fun _ => .inl ⟨closing, holds⟩, fun broken => absurd rfl broken⟩
  | left parted closed asides gone =>
    exact ⟨_, parted.record, parted.cause, parted.last, parted.flows, iff_of_true rfl asides,
      fun _ => .inr ⟨closed, gone.imp_right fun h => h.resolve_left id⟩,
      fun broken => absurd rfl broken⟩
  | @disturbed _ es m parted closing holds heard answer broken =>
    have interrupted : u.interruption ≠ none := by simp [broken]
    refine ⟨_, parted.record, parted.cause, parted.last, parted.flows,
      iff_of_false interrupted fun asides => ?_, fun going => absurd going interrupted, fun _ => ?_⟩
    · exact Bool.false_ne_true (answer.symm.trans (asides m heard))
    · refine ⟨m, heard, answer, broken, m.stray_ne_closed, fun cause => ?_⟩
      have told : (u.act (.tell cause)).after = u.after.abort m.stray := by
        unfold Turn.act
        rw [broken]
        rfl
      obtain ⟨stage, closedBy, outbound, queued, written⟩ :=
        abort_quiet (c := u.after) (by simp [closing]) m.stray
      dsimp only
      rw [told]
      refine ⟨stage, closedBy, outbound, queued, _, holds, ?_⟩
      rw [written, queued]
      exact parted.flows

theorem drive_parts_iff_noticed :
    let before : List (Action Nat) := Action.admission ++ [.submit "select" [] Consumer.count,
      .dispatch .notified (.quiet [.takes 200]), .requestClose,
      .dispatch .notified (.quiet [.takes 2])]
    let later : List (Action Nat) :=
      [.answers [.noticeResponse []], .dispatch .writable (.quiet [.takes 3])]
    let t := (done (.start { Config.default with encryption := .disable } fun _ => [])).drive before
    let u := t.drive later
    t.after.stage = .closing ∧ t.after.outbound.toBytes ≠ [] ∧ u.interruption = none ∧
      u.after.stage = .closed ∧ u.after.inbox.closedBy = some .closed ∧
      Record.written u.after.record = encodeAll (Record.queued u.after.record) := by
  intro before later t u
  have closing : t.after.stage = .closing := by decide +kernel
  obtain ⟨es, _, cause, _, flows, _, gone, _⟩ :=
    drive_parts_iff { Config.default with encryption := .disable } (fun _ => []) before later
      (by decide +kernel) closing (by decide +kernel) (by decide +kernel)
  have going : u.interruption = none := by decide +kernel
  have closed : u.after.stage = .closed := by decide +kernel
  have unfinished : ¬ ∃ a ∈ later, a.finishes = true := by decide
  refine ⟨closing, by decide +kernel, going, closed, cause, ?_⟩
  rcases gone going with ⟨still, _⟩ | ⟨_, empty | finished⟩
  · exact absurd (still.symm.trans closed) (by decide)
  · have empty : u.after.outbound.toBytes = [] := empty
    rw [← List.append_nil (Record.written u.after.record), ← empty]
    exact flows
  · exact absurd finished unfinished

/-- A batch is written, closing is asked for, and the socket takes a part of the leave. The answers
to the batch, which are as they should be, break the connection off, and the rest of the leave is
lost. -/
theorem drive_parts_answered :
    let before : List (Action Nat) := Action.admission ++ [.submit "select" [] Consumer.count,
      .dispatch .notified (.quiet [.takes 200]), .requestClose,
      .dispatch .notified (.quiet [.takes 2])]
    let answers : List BackendMessage := [.parseComplete, .parameterDescription [], .noData,
      .bindComplete, .commandComplete "SELECT 0", .readyForQuery .idle]
    let t := (done (.start { Config.default with encryption := .disable } fun _ => [])).drive before
    let u := t.drive [.answers answers]
    let v := u.act (.tell .closed)
    t.interruption = none ∧ t.after.stage = .closing ∧ t.after.inbox.closedBy = some .closed ∧
      Record.sent t.after.record = [0] ∧ t.after.outbound.toBytes = [0, 0, 4] ∧
      u.interruption =
        some (.failed (.protocol "ParseComplete with no submission in flight")) ∧
      v.after.stage = .closed ∧
      v.after.inbox.closedBy = some (.protocol "ParseComplete with no submission in flight") ∧
      Record.written v.after.record ++ [0, 0, 4] = encodeAll (Record.queued v.after.record) := by
  refine ⟨?_, ?_, ?_, ?_, ?_, ?_, ?_, ?_, ?_⟩ <;> decide +kernel

end Turn

end PgPipeline
