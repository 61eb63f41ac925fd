import PgPipeline.Proofs.Hearing
import PgPipeline.Proofs.VeiledAnswers

namespace PgPipeline

variable {ρ : Type} {n : Nat}

theorem Submission.veil_create (number : Nat) (query : String) (params : List Param)
    {k k' : Consumer ρ} (steady : k.Steady) (steady' : k'.Steady) :
    (create number query params k).veil number = (create number query params k').veil number := by
  have same {k : Consumer ρ} (steady : k.Steady) :
      (create number query params k).veil number =
        { create number query params .deaf with refusal := some .closed } :=
    veil_of_isVeiled ⟨rfl, steady⟩
  rw [same steady, same steady']

inductive Handle where
  | submission (number : Nat)
  | startup (waiter : Nat)
  deriving DecidableEq

def Entry.handle? : Entry ρ → Option Handle
  | .resolved r => some (.submission r.number)
  | .informed waiter _ => some (.startup waiter)
  | _ => none

theorem Entry.veil_cases (n : Nat) (e : Entry ρ) :
    e.veil n = some e ∨
    (e.veil n = none ∧ ((∃ row, e = .offered n row) ∨ ∃ summary, e = .concluded n summary)) ∨
    ∃ result, e = .resolved ⟨n, result⟩ ∧ e.veil n = some (.resolved ⟨n, .error .closed⟩) := by
  cases e with
  | offered number row =>
    by_cases same : number = n
    · exact .inr (.inl ⟨if_pos same, .inl ⟨row, same ▸ rfl⟩⟩)
    · exact .inl (if_neg same)
  | concluded number summary =>
    by_cases same : number = n
    · exact .inr (.inl ⟨if_pos same, .inr ⟨summary, same ▸ rfl⟩⟩)
    · exact .inl (if_neg same)
  | resolved r =>
    obtain ⟨number, result⟩ := r
    by_cases same : number = n
    · subst same
      exact .inr (.inr ⟨result, rfl, by simp [Entry.veil, Resolution.veil]⟩)
    · exact .inl (by simp [Entry.veil, Resolution.veil, same])
  | _ => exact .inl rfl

namespace Record

def handles (es : List (Entry ρ)) : List Handle := es.filterMap Entry.handle?

def otherOutcomes (n : Nat) (es : List (Entry ρ)) : List (Entry ρ) :=
  es.filter fun e => e.handle?.any (· ≠ .submission n)

theorem filterMap_veil {β : Type} {f : Entry ρ → Option β} (same : ∀ e, (e.veil n).bind f = f e)
    (es : List (Entry ρ)) : (veil n es).filterMap f = es.filterMap f := by
  rw [veil, List.filterMap_filterMap, funext same]

theorem handles_veil (n : Nat) (es : List (Entry ρ)) : handles (veil n es) = handles es := by
  refine filterMap_veil (fun e => ?_) es
  rcases e.veil_cases n with same | ⟨gone, ⟨row, rfl⟩ | ⟨summary, rfl⟩⟩ | ⟨result, rfl, veiled⟩
  · rw [same, Option.bind_some]
  · rw [gone]
    rfl
  · rw [gone]
    rfl
  · rw [veiled]
    rfl

theorem otherOutcomes_veil (n : Nat) (es : List (Entry ρ)) :
    otherOutcomes n (veil n es) = otherOutcomes n es := by
  unfold otherOutcomes
  rw [← List.filterMap_eq_filter]
  refine filterMap_veil (fun e => ?_) es
  rcases e.veil_cases n with same | ⟨gone, ⟨row, rfl⟩ | ⟨summary, rfl⟩⟩ | ⟨result, rfl, veiled⟩
  · rw [same, Option.bind_some]
  · rw [gone]
    rfl
  · rw [gone]
    rfl
  · rw [veiled]
    simp [Option.guard, Entry.handle?]

theorem queued_veil (n : Nat) (es : List (Entry ρ)) : queued (veil n es) = queued es := by
  induction es with
  | nil => rfl
  | cons e rest ih =>
    have first : queued (e.veil n).toList = queued [e] := by
      rcases e.veil_cases n with same | ⟨gone, ⟨row, rfl⟩ | ⟨summary, rfl⟩⟩ | ⟨result, rfl, veiled⟩
      · rw [same, Option.toList_some]
      · rw [gone]
        rfl
      · rw [gone]
        rfl
      · rw [veiled]
        rfl
    have split : veil n (e :: rest) = (e.veil n).toList ++ veil n rest := by
      rw [veil, List.filterMap_cons]
      cases e.veil n <;> rfl
    rw [split, queued_append, ih, first]
    exact (queued_append [e] rest).symm

end Record

namespace Connection

variable {c d : Connection ρ}

theorem onMessage_veil (c : Connection ρ) (m : BackendMessage) :
    Turn.AlikeBut n ((c.veil n).onMessage m) (c.onMessage m) := by
  have received : (c.veil n).enter [.received m] = (c.enter [.received m]).veil n := by
    rw [enter_veil]
    rfl
  unfold onMessage
  rw [received]
  generalize c.enter [.received m] = c
  have same := AlikeBut.veiled n c
  dsimp only
  split
  · next name value =>
    exact (AlikeBut.veiled n { c with
      info := { c.info with parameters := KeyOrder.insert name value c.info.parameters } }).done
  · next process secret =>
    exact (AlikeBut.veiled n { c with info := { c.info with process, secret } }).done
  · exact same.done
  · exact same.done
  · have stage : (c.veil n).stage = c.stage := rfl
    rw [stage]
    split
    · exact onAuthMessage_veil c m
    · exact onQueryMessage_veil c m
    · exact onQueryMessage_veil c m
    · exact same.fail _

namespace AlikeBut

theorem onMessages (h : AlikeBut n c d) (ms : List BackendMessage) :
    Turn.AlikeBut n (c.onMessages ms) (d.onMessages ms) := by
  induction ms generalizing c d with
  | nil => exact h.done
  | cons m rest ih =>
    exact (h.liftTurn (·.onMessage m) fun c => onMessage_veil c m).andThen fun _ _ h => ih h

theorem takeMessages (h : AlikeBut n c d) : Turn.AlikeBut n c.takeMessages d.takeMessages := by
  refine h.liftTurn (·.takeMessages) fun c => ?_
  have inbound : (c.veil n).inbound = c.inbound := rfl
  unfold Connection.takeMessages
  rw [inbound]
  obtain ⟨messages, fault, left⟩ := c.inbound.drain
  refine ((veiled n { c with inbound := left }).onMessages messages).andThen fun c d h => ?_
  cases fault with
  | none => exact h.done
  | some e => exact h.fail _

theorem takeInbound (h : AlikeBut n c d) : Turn.AlikeBut n c.takeInbound d.takeInbound := by
  refine h.liftTurn (·.takeInbound) fun c => ?_
  unfold Connection.takeInbound
  change Turn.AlikeBut n (if c.awaitingEncryption then _ else _) _
  split
  · have inbound : (c.veil n).inbound = c.inbound := rfl
    rw [inbound]
    cases c.inbound.takeRaw? 1 with
    | none => exact (veiled n c).done
    | some taken =>
      exact (onEncryptionAnswer_veil { c with inbound := taken.2 } _).andThen fun _ _ h =>
        h.takeMessages
  · exact (veiled n c).takeMessages

theorem takePieces (h : AlikeBut n c d) (pieces : List Bytes) :
    Turn.AlikeBut n (c.takePieces pieces) (d.takePieces pieces) := by
  induction pieces generalizing c d with
  | nil => exact h.done
  | cons piece rest ih =>
    have fed := h.lift (fun c => { c with inbound := c.inbound.feed piece }) fun c =>
      veiled n { c with inbound := c.inbound.feed piece }
    exact fed.takeInbound.andThen fun _ _ h => ih h

theorem learnCertificate (h : AlikeBut n c d) (certificate : Option Bytes) :
    AlikeBut n (c.learnCertificate certificate) (d.learnCertificate certificate) := by
  refine h.lift (·.learnCertificate certificate) fun c => ?_
  have transport : (c.veil n).transport = c.transport := rfl
  unfold Connection.learnCertificate
  rw [transport]
  split
  · exact veiled n { c with transport := .encrypted certificate }
  · exact veiled n c

theorem read (h : AlikeBut n c d) (socket : Socket) :
    Turn.AlikeBut n (c.read socket) (d.read socket) := by
  refine ((h.learnCertificate socket.certificate).takePieces socket.incoming).andThen
    fun c d h => ?_
  have stage : c.stage = d.stage := congrArg (·.stage) h
  cases socket.readEnd with
  | blocked => exact h.done
  | finished =>
    dsimp only
    rw [stage]
    split
    · exact (h.moveTo .closed).done
    · exact h.fail _
  | failed text => exact h.fail _

theorem write (h : AlikeBut n c d) (socket : Socket) :
    Turn.AlikeBut n (c.write socket) (d.write socket) := by
  refine h.liftTurn (·.write socket) fun c => ?_
  unfold Connection.write
  change Turn.AlikeBut n (if ¬ c.connected ∨ c.stage = .closed then _ else _) _
  split
  · exact (veiled n c).done
  · have wrote := (veiled n { c with outbound := (c.outbound.writeTo socket.writes).queue }).enter
      (if (c.outbound.writeTo socket.writes).sent.isEmpty then []
        else [.wrote (c.outbound.writeTo socket.writes).sent])
    have outbound : (c.veil n).outbound = c.outbound := rfl
    rw [outbound]
    dsimp only
    cases (c.outbound.writeTo socket.writes).ending with
    | drained =>
      change Turn.AlikeBut n (.done (if c.stage = .closing then _ else _))
        (.done (if c.stage = .closing then _ else _))
      split
      · exact (wrote.moveTo .closed).done
      · exact wrote.done
    | blocked => exact wrote.done
    | failed text => exact wrote.fail _

theorem begin (h : AlikeBut n c d) : AlikeBut n c.begin d.begin := by
  have stage : c.stage = d.stage := congrArg (·.stage) h
  unfold Connection.begin
  rw [stage]
  split
  · exact h.moveTo .connecting
  · exact h

theorem onTimer (h : AlikeBut n c d) : Turn.AlikeBut n c.onTimer d.onTimer := by
  refine h.liftTurn (·.onTimer) fun c => ?_
  unfold Connection.onTimer
  change Turn.AlikeBut n (if c.stage = .connecting ∨ c.stage = .authenticating then _ else _) _
  split
  · exact (veiled n c).fail _
  · exact (veiled n c).done

theorem onEvent (h : AlikeBut n c d) (event : LoopEvent) (socket : Socket) :
    Turn.AlikeBut n (c.onEvent event socket) (d.onEvent event socket) := by
  cases event with
  | connected => exact (h.lift (·.onConnected) onConnected_veil).done
  | readable => exact h.read socket
  | writable => exact h.done
  | notified => exact h.done
  | timer => exact h.onTimer
  | failed f => exact h.fail f

theorem settle (h : AlikeBut n c d) (socket : Socket) :
    Turn.AlikeBut n (c.settle socket) (d.settle socket) := by
  have stage : c.stage = d.stage := congrArg (·.stage) h
  unfold Connection.settle
  rw [stage]
  split
  · exact h.done
  · exact h.pump.write socket

theorem dispatch (h : AlikeBut n c d) (event : LoopEvent) (socket : Socket) :
    Turn.AlikeBut n (c.dispatch event socket) (d.dispatch event socket) := by
  have stage : c.stage = d.stage := congrArg (·.stage) h
  unfold Connection.dispatch
  rw [stage]
  split
  · exact h.done
  · exact (h.begin.onEvent event socket).andThen fun _ _ h => h.settle socket

theorem submit (h : AlikeBut n c d) (query : String) (params : List Param) {k k' : Consumer ρ}
    (same : (Submission.create d.inbox.nextNumber query params k).veil n =
      (Submission.create d.inbox.nextNumber query params k').veil n) :
    AlikeBut n (c.submit query params k).2 (d.submit query params k').2 := by
  have unchanged : AlikeBut n (c.submit query params k).2 (d.submit query params k).2 := by
    refine h.lift (·.submit query params k |>.2) fun c => ?_
    have closedBy : (c.veil n).inbox.closedBy = c.inbox.closedBy := rfl
    have numbered := veiled n { c with
      inbox := { c.inbox with nextNumber := c.inbox.nextNumber + 1 } }
    unfold Connection.submit
    rw [closedBy]
    cases c.inbox.closedBy with
    | some cause => exact numbered.enter _
    | none => exact numbered.inboxQueue (by simp [veil, Function.comp_def])
  refine unchanged.trans ?_
  unfold Connection.submit
  cases d.inbox.closedBy with
  | some cause => exact refl _
  | none =>
    refine (refl { d with
      inbox := { d.inbox with nextNumber := d.inbox.nextNumber + 1 } }).inboxQueue ?_
    simp only [List.map_append, List.map_cons, List.map_nil, same]

theorem cancel (h : AlikeBut n c d) (number : Nat) :
    AlikeBut n (c.cancel number) (d.cancel number) := by
  refine h.lift (·.cancel number) fun c => ?_
  unfold Connection.cancel
  change AlikeBut n (if number < c.inbox.nextNumber ∧ ¬ c.isCancelled number then _ else _) _
  split
  · exact veiled n
      { c with inbox := { c.inbox with cancelled := number :: c.inbox.cancelled } }
  · exact veiled n c

theorem awaitReady (h : AlikeBut n c d) : AlikeBut n c.awaitReady.2 d.awaitReady.2 := by
  refine h.lift (·.awaitReady.2) fun c => ?_
  have readiness : (c.veil n).inbox.readiness = c.inbox.readiness := rfl
  unfold Connection.awaitReady
  rw [readiness]
  let inbox := { c.inbox with nextWaiter := c.inbox.nextWaiter + 1 }
  cases c.inbox.readiness with
  | pending waiters =>
    exact veiled n { c with
      inbox := { inbox with readiness := .pending (waiters ++ [c.inbox.nextWaiter]) } }
  | ready info => exact (veiled n { c with inbox }).enter _
  | failed f => exact (veiled n { c with inbox }).enter _

theorem requestClose (h : AlikeBut n c d) : AlikeBut n c.requestClose d.requestClose :=
  h.comm (·.requestClose) fun _ => rfl

end AlikeBut

end Connection

namespace Turn.AlikeBut

variable {t u : Turn ρ}

theorem request (h : AlikeBut n t u) {f g : Connection ρ → Connection ρ}
    (each : Connection.AlikeBut n (f t.after) (g u.after)) :
    AlikeBut n (t.request f) (u.request g) := by
  unfold Turn.request
  rw [h.interruption]
  exact each.turn u.interruption

theorem act (h : AlikeBut n t u) (a : Action ρ) : AlikeBut n (t.act a) (u.act a) := by
  cases a with
  | submit query params consumer => exact h.request (h.after.submit query params rfl)
  | cancel number => exact h.request (h.after.cancel number)
  | awaitReady => exact h.request h.after.awaitReady
  | requestClose => exact h.request h.after.requestClose
  | dispatch event socket => exact h.andThen fun _ _ h => h.dispatch event socket
  | tell cause =>
    unfold Turn.act
    rw [h.interruption]
    exact (h.after.abort _).done

theorem run (h : AlikeBut n t u) (actions : List (Action ρ)) :
    AlikeBut n (t.run actions) (u.run actions) := by
  induction actions generalizing t u with
  | nil => exact h
  | cons a rest ih => exact ih (h.act a)

end Turn.AlikeBut

namespace Turn

/-- Everything but what concerns one submission alone is the same: what the server is sent, the
cache, what the other handles are told, and the order in which all handles resolve. -/
structure AgreeBeyond (n : Nat) (t u : Turn ρ) : Prop where
  queued : Record.queued t.after.record = Record.queued u.after.record
  outbound : t.after.outbound = u.after.outbound
  cache : t.after.cache = u.after.cache
  otherOutcomes : Record.otherOutcomes n t.after.record = Record.otherOutcomes n u.after.record
  handles : Record.handles t.after.record = Record.handles u.after.record
  interruption : t.interruption = u.interruption

theorem AlikeBut.agreeBeyond {t u : Turn ρ} (h : AlikeBut n t u) : AgreeBeyond n t u := by
  have record : Record.veil n t.after.record = Record.veil n u.after.record :=
    congrArg (·.record) h.after
  refine ⟨?queued, congrArg (·.outbound) h.after, congrArg (·.cache) h.after, ?others, ?handles,
    h.interruption⟩
  case queued => rw [← Record.queued_veil n, record, Record.queued_veil]
  case others => rw [← Record.otherOutcomes_veil, record, Record.otherOutcomes_veil]
  case handles => rw [← Record.handles_veil n, record, Record.handles_veil]

/-- Two histories that differ only in the consumer of one submission, of which neither breaks off,
agree in everything beyond that submission. -/
theorem run_confines_consumer (config : Config) (nonces : Nat → List Char)
    (before after : List (Action ρ)) (query : String) (params : List Param) {k k' : Consumer ρ}
    (steady : k.Steady) (steady' : k'.Steady)
    (numbered : ((done (Connection.start (ρ := ρ) config nonces)).run before).after.inbox.nextNumber
      = n) :
    let start : Turn ρ := done (.start config nonces)
    AgreeBeyond n (start.run (before ++ .submit query params k :: after))
      (start.run (before ++ .submit query params k' :: after)) := by
  intro start
  subst numbered
  have submitted : AlikeBut (start.run before).after.inbox.nextNumber
      ((start.run before).act (.submit query params k))
      ((start.run before).act (.submit query params k')) :=
    AlikeBut.request rfl ((Connection.AlikeBut.refl _).submit query params
      (Submission.veil_create _ query params steady steady'))
  rw [run_append, run_append]
  exact (submitted.run after).agreeBeyond

/-- The second of two queries has its rows counted, or refused. -/
theorem run_confines_consumer_refusing :
    let fussy : Consumer Nat := ⟨fun _ _ => .error (.failed (.conversion "odd")), fun _ _ => .ok 0⟩
    let answers : List BackendMessage :=
      [.parseComplete, .noData, .bindComplete, .dataRow [some [0, 0, 0, 7]],
        .commandComplete "SELECT 1", .readyForQuery .idle]
    let before : List (Action Nat) := Action.admission ++ [.submit "select 1" [] .count]
    let after : List (Action Nat) := [.attention, .answers answers, .answers answers]
    let start : Turn Nat :=
      done (.start { Config.default with encryption := .disable } fun _ => [])
    let t := start.run (before ++ .submit "select 2" [] .count :: after)
    let u := start.run (before ++ .submit "select 2" [] fussy :: after)
    Consumer.count.Steady ∧ fussy.Steady ∧
      (∃ r ∈ Record.resolutions t.after.record, r.number = 1 ∧ r.result = .ok 1) ∧
      (∃ r ∈ Record.resolutions u.after.record, r.number = 1 ∧
        r.result = .error (.conversion "odd")) ∧
      AgreeBeyond 1 t u := by
  intro fussy answers before after start t u
  have steady : (Consumer.count).Steady := by
    constructor <;> exact fun _ _ _ h => by cases h
  have steady' : fussy.Steady := by
    constructor <;> exact fun _ _ _ h => by cases h
  exact ⟨steady, steady', by decide +kernel, by decide +kernel,
    run_confines_consumer { Config.default with encryption := .disable } (fun _ => []) before after
      "select 2" [] steady steady' (by decide +kernel)⟩

end Turn

end PgPipeline
