import PgPipeline.Proofs.Framing
import PgPipeline.Proofs.Parting
import PgPipeline.Proofs.Passage

namespace PgPipeline

open FrontendMessage (encodeAll)

variable {ρ : Type}

theorem Inbound.takeRaw?_one {i j : Inbound} {answer : Bytes}
    (h : i.takeRaw? 1 = some (answer, j)) :
    i.buffered = answer.headD 0 :: j.buffered ∧ j.limit = i.limit := by
  unfold takeRaw? at h
  split at h
  · next enough =>
    obtain ⟨rfl, rfl⟩ := Prod.mk.inj (Option.some.inj h)
    obtain ⟨first, rest, there⟩ := List.exists_cons_of_length_pos enough
    rw [there]
    exact ⟨rfl, rfl⟩
  · cases h

theorem Transport.encrypted_ne_plain (certificate : Option Bytes) :
    Transport.encrypted certificate ≠ .plain := by simp

theorem Turn.andThen_transport {t : Turn ρ} {f : Connection ρ → Turn ρ} {transport : Transport}
    (before : t.after.transport = transport)
    (kept : (f t.after).after.transport = t.after.transport) :
    (t.andThen f).after.transport = transport := by
  unfold Turn.andThen
  split
  · exact kept.trans before
  · exact before

variable {c d : Connection ρ}

namespace Connection

def secured (c : Connection ρ) : Connection ρ :=
  { c with
    inbound := .empty c.inbound.limit
    awaitingEncryption := false
    transport := .encrypted none
    info := { c.info with encrypted := true } }

/-- With this piece the server agrees to encryption, and nothing else has come in. -/
structure Agrees (c : Connection ρ) (piece : Bytes) : Prop where
  plain : c.transport = .plain
  awaiting : c.awaitingEncryption = true
  answer : c.inbound.buffered ++ piece = [Bytes.ascii 'S']
  upgrade : ({ c with inbound := c.inbound.feed piece } : Connection ρ).takeInbound =
    .done c.secured.sendStartup

theorem onMessages_passes (c : Connection ρ) (ms : List BackendMessage) :
    ∃ taken qs, taken <+: ms ∧ Passes taken qs c (c.onMessages ms).after ∧
      ((c.onMessages ms).interruption = none → taken = ms) := by
  induction ms generalizing c with
  | nil => exact ⟨[], [], List.prefix_refl _, .refl c, fun _ => rfl⟩
  | cons m rest ih =>
    obtain ⟨qs, first, _⟩ := Passes.onMessage c m
    unfold Connection.onMessages Turn.andThen
    split
    · obtain ⟨taken, rs, front, more, all⟩ := ih (c.onMessage m).after
      refine ⟨m :: taken, qs ++ rs, (List.prefix_cons_inj m).mpr front, first.trans more, ?_⟩
      exact fun going => congrArg (m :: ·) (all going)
    · next broken =>
      exact ⟨[m], qs, (List.prefix_cons_inj m).mpr List.nil_prefix, first,
        fun going => by rw [going] at broken; cases broken⟩

theorem takeMessages_passes (c : Connection ρ) :
    ∃ taken qs, taken <+: c.inbound.drain.1 ∧
      Passes taken qs { c with inbound := c.inbound.drain.2.2 } c.takeMessages.after ∧
      (c.takeMessages.interruption = none →
        taken = c.inbound.drain.1 ∧ c.inbound.drain.2.1 = none) := by
  rcases drained : c.inbound.drain with ⟨messages, fault, inbound⟩
  obtain ⟨taken, qs, front, passes, all⟩ := onMessages_passes { c with inbound } messages
  refine ⟨taken, qs, front, ?_, ?_⟩
  · unfold takeMessages Turn.andThen
    simp only [drained]
    cases fault <;> split <;> exact passes
  · unfold takeMessages Turn.andThen
    simp only [drained]
    intro going
    cases fault with
    | none =>
      split at going
      · next whole => exact ⟨all whole, rfl⟩
      · next broken => exact absurd going (by simp [broken])
    | some e =>
      split at going
      · cases going
      · next broken => exact absurd going (by simp [broken])

theorem takeMessages_transport (c : Connection ρ) :
    c.takeMessages.after.transport = c.transport := by
  obtain ⟨_, _, _, passes, _⟩ := takeMessages_passes c
  exact congrArg Line.transport passes.line

theorem takeMessages_idle (limit : Nat) (idle : c.inbound = .empty limit) :
    c.takeMessages = .done c := by
  have drained : c.inbound.drain = ([], none, c.inbound) := by
    rw [idle, Inbound.drain]
    rfl
  unfold takeMessages
  simp only [drained]
  rfl

theorem encrypt_cases (c : Connection ρ) : (∃ i, c.encrypt = ⟨c, some i⟩) ∨
    c.encrypt = .done { c with
      transport := .encrypted none, info := { c.info with encrypted := true } } := by
  unfold encrypt
  split
  · exact .inl ⟨_, rfl⟩
  · split
    · exact .inl ⟨_, rfl⟩
    · exact .inr rfl

theorem onEncryptionAnswer_cases (c : Connection ρ) (byte : UInt8) :
    (∃ i, c.onEncryptionAnswer byte = ⟨{ c with awaitingEncryption := false }, some i⟩) ∨
      c.config.encryption ≠ .require ∧ c.onEncryptionAnswer byte =
        .done ({ c with awaitingEncryption := false } : Connection ρ).sendStartup ∨
      byte = Bytes.ascii 'S' ∧ c.inbound.buffered = [] ∧
        c.onEncryptionAnswer byte = .done c.secured.sendStartup := by
  unfold Connection.onEncryptionAnswer
  dsimp only
  split
  · next agreed =>
    split
    · next nothing =>
      rcases encrypt_cases { c with awaitingEncryption := false } with ⟨i, e⟩ | e <;> rw [e]
      · exact .inl ⟨i, rfl⟩
      · have nothing := List.isEmpty_iff.mp nothing
        have empty : Inbound.empty c.inbound.limit = c.inbound := by rw [Inbound.empty, ← nothing]
        refine .inr (.inr ⟨agreed, nothing, ?_⟩)
        rw [secured, empty]
        rfl
    · exact .inl ⟨_, rfl⟩
  · split
    · split
      · exact .inl ⟨_, rfl⟩
      · next optional => exact .inr (.inl ⟨optional, rfl⟩)
    · exact .inl ⟨_, rfl⟩

theorem sendStartup_line (c : Connection ρ) : c.sendStartup.line = c.line :=
  (Passes.sendStartup c).line

theorem takeInbound_cases (plain : c.transport = .plain) :
    c.takeInbound.after.transport = .plain ∨
      c.awaitingEncryption = true ∧ c.inbound.buffered = [Bytes.ascii 'S'] ∧
        c.takeInbound = .done c.secured.sendStartup := by
  unfold takeInbound
  split
  · next awaiting =>
    split
    · next answer inbound raw =>
      obtain ⟨front, limit⟩ := Inbound.takeRaw?_one raw
      have still {t : Turn ρ} (kept : t.after.transport = .plain) :
          (t.andThen Connection.takeMessages).after.transport = .plain :=
        Turn.andThen_transport kept (takeMessages_transport _)
      rcases onEncryptionAnswer_cases { c with inbound } (answer.headD 0) with
        ⟨i, same⟩ | ⟨_, same⟩ | ⟨agreed, nothing, same⟩ <;> rw [same]
      · exact .inl (still plain)
      · exact .inl (still ((congrArg Line.transport (sendStartup_line _)).trans plain))
      · have nothing : inbound.buffered = [] := nothing
        have secured : secured { c with inbound } = c.secured := by
          unfold secured
          rw [limit]
        refine .inr ⟨awaiting, by rw [front, agreed, nothing], ?_⟩
        rw [secured]
        exact takeMessages_idle c.inbound.limit
          (congrArg Line.inbound (sendStartup_line c.secured))
    · exact .inl plain
  · exact .inl ((takeMessages_transport c).trans plain)

theorem takePieces_cases (plain : c.transport = .plain) (pieces : List Bytes) :
    (c.takePieces pieces).after.transport = .plain ∨
      ∃ taken piece left b, pieces = taken ++ piece :: left ∧ c.takePieces taken = .done b ∧
        b.Agrees piece ∧ c.takePieces pieces = b.secured.sendStartup.takePieces left := by
  induction pieces generalizing c with
  | nil => exact .inl plain
  | cons piece rest ih =>
    rcases takeInbound_cases (c := { c with inbound := c.inbound.feed piece }) plain with
      kept | ⟨awaiting, agreed, same⟩
    · generalize first : ({ c with inbound := c.inbound.feed piece } : Connection ρ).takeInbound = t
        at kept
      cases going : t.interruption with
      | none =>
        have next (more : List Bytes) : c.takePieces (piece :: more) = t.after.takePieces more := by
          rw [Connection.takePieces, first, Turn.andThen, going]
        rw [next]
        rcases ih kept with still | ⟨taken, p, left, b, split, before, later⟩
        · exact .inl still
        · refine .inr ⟨piece :: taken, p, left, b, ?_, (next taken).trans before, later⟩
          rw [split, List.cons_append]
      | some i =>
        have stopped : c.takePieces (piece :: rest) = t := by
          rw [Connection.takePieces, first, Turn.andThen, going]
        exact .inl (stopped ▸ kept)
    · refine .inr ⟨[], piece, rest, c, rfl, rfl, ⟨plain, awaiting, agreed, same⟩, ?_⟩
      rw [Connection.takePieces, same]
      rfl

end Connection

open Connection in
theorem Turn.request_cases (t : Turn ρ) {a : Action ρ}
    (asked : ∀ event socket, a ≠ .dispatch event socket) :
    (t.act a).after.stage = t.after.stage ∧ (t.act a).interruption = t.interruption ∨
      (t.act a).after.stage = .closed := by
  cases a with
  | submit query params consumer => exact .inl ⟨submit_stage _ query params consumer, rfl⟩
  | cancel number => exact .inl ⟨Turn.Idle.cancel_stage _ number, rfl⟩
  | awaitReady => exact .inl ⟨Turn.Idle.awaitReady_stage _, rfl⟩
  | requestClose => exact .inl ⟨rfl, rfl⟩
  | dispatch event socket => exact absurd rfl (asked event socket)
  | tell cause => exact .inr (abort_stage _ _)

namespace Connection

/-- What is guarded as long as a line is plain that must not stay so: messages do not pass, and
nothing but the request for encryption is queued. -/
structure Guarded (config : Config) (c : Connection ρ) : Prop where
  settings : c.config = config
  course : c.Course
  quiet : config.encryption = .require → c.transport = .plain → c.stage.isTalking = false ∧
    Record.queued c.record = if c.connected then [.sslRequest] else []

namespace Guarded

variable {config : Config} {ms : List BackendMessage} {qs : List FrontendMessage}

theorem start (config : Config) (nonces : Nat → List Char) :
    Guarded config (Connection.start (ρ := ρ) config nonces) :=
  ⟨rfl, .start config nonces, fun _ _ => ⟨rfl, rfl⟩⟩

theorem passes (h : Guarded config c) (course : d.Course) (passes : Passes ms qs c d)
    (silent : c.stage.isTalking = false → d.stage.isTalking = false ∧ qs = []) :
    Guarded config d := by
  refine ⟨(congrArg Line.config passes.line).trans h.settings, course, fun require plain => ?_⟩
  -- A plain line was plain before, so that nothing was queued.
  have before : c.transport = .plain := (congrArg Line.transport passes.line).symm.trans plain
  obtain ⟨quiet, queued⟩ := h.quiet require before
  obtain ⟨still, rfl⟩ := silent quiet
  obtain ⟨es, record, _, nothing⟩ := passes.record
  have connected : d.connected = c.connected := congrArg Line.connected passes.line
  refine ⟨still, ?_⟩
  rw [record, Record.queued_append, nothing, List.append_nil, queued, connected]

theorem begin (h : Guarded config c) : Guarded config c.begin := by
  unfold Connection.begin
  split
  · next new =>
    refine h.passes (Course.serves.begin new h.course) (.moveTo c .connecting) fun _ => ⟨?_, rfl⟩
    rw [moveTo_stage]
    rfl
  · exact h

theorem learnCertificate (h : Guarded config c) (certificate : Option Bytes) :
    Guarded config (c.learnCertificate certificate) := by
  refine ⟨?_, Course.serves.learn certificate h.course, ?_⟩
  all_goals
    unfold Connection.learnCertificate
    split
  · exact h.settings
  · exact h.settings
  · intro _ plain
    cases plain
  · exact h.quiet

theorem onEncryptionAnswer (h : Guarded config c) (alive : c.stage ≠ .closed)
    (awaiting : c.awaitingEncryption = true) (byte : UInt8) :
    Guarded config (c.onEncryptionAnswer byte).after := by
  have course := Course.serves.answer byte alive awaiting h.course
  have told (d : Connection ρ) : d.sendStartup.config = d.config :=
    congrArg Line.config (sendStartup_line d)
  rcases onEncryptionAnswer_cases c byte with ⟨i, same⟩ | ⟨optional, same⟩ | ⟨_, _, same⟩ <;>
    refine ⟨?_, course, fun require plain => ?_⟩ <;> rw [same] at *
  · exact h.settings
  · exact h.quiet require plain
  · exact (told _).trans h.settings
  · exact absurd (h.settings ▸ require) optional
  · exact (told _).trans h.settings
  · cases (congrArg Line.transport (sendStartup_line c.secured)).symm.trans plain

theorem message_stage (m : BackendMessage) (quiet : c.stage.isTalking = false) :
    (c.onMessage m).after.stage = c.stage ∧ c.stage ≠ .authenticating := by
  rcases onMessage_cases c m with
    ⟨_, _, e⟩ | ⟨_, stage, _⟩ | ⟨_, stage | stage, _⟩ | ⟨_, other, _, _, e⟩
  · rw [e]
    refine ⟨rfl, fun stage => ?_⟩
    rw [stage] at quiet
    cases quiet
  · rw [stage] at quiet
    cases quiet
  · rw [stage] at quiet
    cases quiet
  · rw [stage] at quiet
    cases quiet
  · exact ⟨e ▸ rfl, other⟩

theorem write_stage (socket : Socket) (quiet : c.stage.isTalking = false) :
    (c.write socket).after.stage = c.stage := by
  rcases c.write_cases socket with ⟨e, _⟩ | ⟨_, _, writes⟩
  · rw [e]
    rfl
  · generalize c.write socket = t at writes
    cases writes with
    | left ending leaving =>
      rw [leaving] at quiet
      cases quiet
    | drained | blocked | failed => rfl

theorem serves (config : Config) :
    Turn.Serves (ρ := ρ) fun t u => Guarded config t.after → Guarded config u.after where
  begin {c} new h := by
    have begun := h.begin
    rwa [Turn.done, Connection.begin, if_pos new] at begun
  breakOff i h := h
  feed inbound h := ⟨h.settings, Course.serves.feed inbound h.course, h.quiet⟩
  learn certificate h := h.learnCertificate certificate
  answer byte alive awaiting h := h.onEncryptionAnswer alive awaiting byte
  message {c} m alive h := by
    obtain ⟨qs, passes, silent⟩ := Passes.onMessage c m
    refine h.passes (Course.serves.message m alive h.course) passes fun quiet => ?_
    obtain ⟨stage, other⟩ := message_stage m quiet
    exact ⟨stage ▸ quiet, silent other⟩
  part {c} leaving h := h.passes (Course.serves.part leaving h.course) (.moveTo c .closed) fun _ =>
    ⟨by rw [Turn.done, moveTo_stage]; rfl, rfl⟩
  collect h := h.passes (Course.serves.collect h.course) (.of_eq rfl rfl) fun quiet => ⟨quiet, rfl⟩
  close {c} h := by
    obtain ⟨qs, passes, silent⟩ := Passes.beginClose c
    refine h.passes (Course.serves.close h.course) passes fun quiet => ?_
    have other : c.stage ≠ .ready := fun ready => by
      have quiet : c.stage.isTalking = false := quiet
      rw [ready] at quiet
      cases quiet
    refine ⟨?_, silent other⟩
    rw [Turn.done, Connection.beginClose, if_neg other, abort_stage]
    rfl
  drop {c} h := h.passes (Course.serves.drop h.course) (.dropCancelled c) fun quiet =>
    ⟨by rw [Turn.done, dropCancelled_stage]; exact quiet, rfl⟩
  send {c s rest} ready first kept h := by
    have taken : Guarded config { c with pending := rest } :=
      h.passes (h.course.stays (.of_eq rfl rfl)) (.of_eq rfl rfl) fun quiet => ⟨quiet, rfl⟩
    obtain ⟨qs, passes⟩ := Passes.send { c with pending := rest } s
    refine taken.passes (Course.serves.send ready first kept h.course) passes fun quiet => ?_
    have quiet : c.stage.isTalking = false := quiet
    rw [show c.stage = .ready from ready] at quiet
    cases quiet
  write {c} socket h := h.passes (Course.serves.write socket h.course) (.write c socket)
    fun quiet => ⟨(write_stage socket quiet).symm ▸ quiet, rfl⟩

theorem takePieces (h : Guarded config c) (alive : c.stage ≠ .closed) (pieces : List Bytes) :
    Guarded config (c.takePieces pieces).after := by
  have steps := takePieces_steps (serves config) alive pieces
  generalize c.takePieces pieces = t at steps
  induction steps with
  | refl => exact h
  | tail _ last ih => exact last ih

theorem persists (config : Config) : Turn.Persists (ρ := ρ) (Guarded config) where
  serves := serves config
  connect {c} alive fresh h := by
    refine ⟨?_, h.course.onConnected alive fresh, fun require plain => ?_⟩
    · unfold onConnected
      dsimp only
      split
      · exact (congrArg Line.config (sendStartup_line _)).trans h.settings
      · exact h.settings
    · have required : c.config.encryption ≠ .disable := by
        rw [h.settings, require]
        decide
      have asking : c.onConnected = ({ c with connected := true, awaitingEncryption := true } :
          Connection ρ).queue [.sslRequest] := if_neg required
      rw [asking] at plain ⊢
      obtain ⟨quiet, queued⟩ := h.quiet require plain
      rw [fresh] at queued
      refine ⟨quiet, ?_⟩
      have added : Record.queued (c.record ++ [.queued [.sslRequest]]) = [.sslRequest] := by
        rw [Record.queued_append, queued]
        rfl
      exact added
  request {t a} asked h := by
    refine h.passes (Turn.course_persists.request asked h.course) (.request t asked) fun quiet => ?_
    rcases t.request_cases asked with ⟨same, _⟩ | closed
    · exact ⟨by rw [same]; exact quiet, rfl⟩
    · exact ⟨by rw [closed]; rfl, rfl⟩

end Guarded

end Connection

namespace Turn

open Connection

/-- What holds when these bytes have come in over an encrypted channel, with what was entered
before: the messages that were taken since are those of these bytes. -/
structure Secluded (before : List (Entry ρ)) (limit : Nat) (data : Bytes) (t : Turn ρ) : Prop where
  secret : t.after.transport ≠ .plain
  connected : t.after.connected = true
  answered : t.after.awaitingEncryption = false
  since : ∃ es, t.after.record = before ++ es ∧
    (Record.received es).map .ok <+: (Inbound.results ⟨data, limit⟩).1 ∧
    (t.GoesOn → Inbound.results ⟨data, limit⟩ = ((Record.received es).map .ok, t.after.inbound))

namespace Secluded

variable {before : List (Entry ρ)} {limit : Nat} {data : Bytes} {t u : Turn ρ} {c : Connection ρ}
  {qs : List FrontendMessage}

theorem passes (h : Secluded before limit data t) (passes : Passes [] qs t.after u.after)
    (goesOn : u.GoesOn → t.GoesOn) : Secluded before limit data u := by
  obtain ⟨es, record, taken, current⟩ := h.since
  obtain ⟨fs, added, nothing, _⟩ := passes.record
  have line := passes.line
  have same : Record.received (es ++ fs) = Record.received es := by
    rw [Record.received_append, nothing, List.append_nil]
  refine ⟨?_, ?_, ?_, es ++ fs, ?_, same ▸ taken, fun going => ?_⟩
  · rw [show u.after.transport = t.after.transport from congrArg Line.transport line]
    exact h.secret
  · exact (congrArg Line.connected line).trans h.connected
  · exact (congrArg Line.awaitingEncryption line).trans h.answered
  · rw [added, record, List.append_assoc]
  · rw [same, show u.after.inbound = t.after.inbound from congrArg Line.inbound line]
    exact current (goesOn going)

theorem deaf (h : Secluded before limit data t) (stopped : ¬ t.GoesOn) (more : Bytes) :
    Secluded before limit (data ++ more) t := by
  obtain ⟨es, record, taken, _⟩ := h.since
  exact ⟨h.secret, h.connected, h.answered, es, record,
    taken.trans (Inbound.results_prefix limit data more), fun going => absurd going stopped⟩

theorem idle {pieces : List Bytes} (nothing : pieces = []) (h : Secluded before limit data t) :
    Secluded before limit (data ++ pieces.flatten) t := by
  rw [nothing, List.flatten_nil, List.append_nil]
  exact h

theorem andThen {f : Connection ρ → Turn ρ} (h : Secluded before limit data t)
    (next : t.interruption = none → Secluded before limit data (f t.after)) :
    Secluded before limit data (t.andThen f) := by
  unfold Turn.andThen
  split
  · next going => exact next going
  · exact h

theorem learnCertificate (h : Secluded before limit data (done c)) (certificate : Option Bytes) :
    Secluded before limit data (done (c.learnCertificate certificate)) := by
  unfold Connection.learnCertificate
  split
  · exact ⟨Transport.encrypted_ne_plain _, h.connected, h.answered, h.since⟩
  · exact h

theorem takeMessages {es : List (Entry ρ)} (secret : c.transport ≠ .plain)
    (connected : c.connected = true) (answered : c.awaitingEncryption = false)
    (record : c.record = before ++ es)
    (due : Inbound.results ⟨data, limit⟩ =
      ((Record.received es).map .ok ++ c.inbound.results.1, c.inbound.results.2)) :
    Secluded before limit data c.takeMessages := by
  obtain ⟨front, all⟩ := Inbound.drain_results c.inbound
  obtain ⟨taken, qs, first, passes, whole⟩ := takeMessages_passes c
  obtain ⟨fs, added, received, _⟩ := passes.record
  have line := passes.line
  refine ⟨?_, (congrArg Line.connected line).trans connected,
    (congrArg Line.awaitingEncryption line).trans answered, es ++ fs, ?_, ?_, fun going => ?_⟩
  · rw [takeMessages_transport]
    exact secret
  · rw [added, ← List.append_assoc, ← record]
  · rw [due, Record.received_append, received, List.map_append]
    exact (List.prefix_append_right_inj _).mpr ((first.map _).trans front)
  · obtain ⟨rfl, legible⟩ := whole going.1
    have left : c.takeMessages.after.inbound = c.inbound.drain.2.2 := congrArg Line.inbound line
    rw [due, all legible, Record.received_append, received, List.map_append, left]

theorem takeInbound (h : Secluded before limit data (done c)) (alive : c.stage ≠ .closed)
    (piece : Bytes) : Secluded before limit (data ++ piece)
      ({ c with inbound := c.inbound.feed piece } : Connection ρ).takeInbound := by
  obtain ⟨es, record, _, current⟩ := h.since
  have goesOn : ∀ r ∈ (Record.received es).map Except.ok, isStuck r = false := by
    intro r mem
    obtain ⟨m, _, rfl⟩ := List.mem_map.mp mem
    rfl
  have due := Inbound.results_append (current ⟨rfl, alive⟩) goesOn piece
  have unasked : ¬ c.awaitingEncryption = true := by
    simp [show c.awaitingEncryption = false from h.answered]
  rw [Connection.takeInbound, if_neg unasked]
  exact takeMessages h.secret h.connected h.answered record due

theorem takePieces (h : Secluded before limit data (done c)) (alive : c.stage ≠ .closed)
    (pieces : List Bytes) :
    Secluded before limit (data ++ pieces.flatten) (c.takePieces pieces) := by
  induction pieces generalizing c data with
  | nil =>
    rw [List.flatten_nil, List.append_nil]
    exact h
  | cons piece rest ih =>
    have first := h.takeInbound alive piece
    have lives := (takeInbound_steps (Move.serves (K := fun _ => True))
      (c := { c with inbound := c.inbound.feed piece }) alive).2
    rw [List.flatten_cons, ← List.append_assoc, Connection.takePieces]
    generalize ({ c with inbound := c.inbound.feed piece } : Connection ρ).takeInbound = t at *
    unfold Turn.andThen
    split
    · next going => exact ih (eq_done going ▸ first) lives
    · next broken => exact first.deaf (fun going => by simp [going.1] at broken) _

theorem settle (h : Secluded before limit data (done c)) (socket : Socket) :
    Secluded before limit data (c.settle socket) := by
  unfold Connection.settle
  split
  · exact h
  · next alive =>
    obtain ⟨qs, pumped⟩ := Passes.pump c
    exact h.passes (pumped.before (.write c.pump socket)) fun _ => ⟨rfl, alive⟩

theorem readEnd (h : Secluded before limit data (done c)) (ending : ReadEnd) :
    Secluded before limit data (match ending with
      | .blocked => done c
      | .finished => if c.stage = .closing then .done (c.moveTo .closed) else .fail c .closed
      | .failed text => .fail c (.io text)) := by
  cases ending with
  | blocked => exact h
  | finished =>
    dsimp only
    split
    · exact h.passes (.moveTo c .closed) fun going => absurd (moveTo_stage c .closed) going.2
    · exact h.passes (.refl c) fun going => by cases going.1
  | failed text => exact h.passes (.refl c) fun going => by cases going.1

theorem onEvent (h : Secluded before limit data (done c)) (alive : c.stage ≠ .closed)
    {event : LoopEvent} (late : event ≠ .connected) (socket : Socket) :
    Secluded before limit (data ++ (Action.dispatch event socket : Action ρ).incoming.flatten)
      (c.onEvent event socket) := by
  cases event with
  | connected => exact absurd rfl late
  | readable =>
    have learnt := h.learnCertificate socket.certificate
    have taken := learnt.takePieces (by rwa [learnCertificate_stage]) socket.incoming
    unfold Connection.onEvent Connection.read
    exact taken.andThen fun going => readEnd (eq_done going ▸ taken) socket.readEnd
  | writable | notified => exact idle rfl h
  | timer =>
    refine idle rfl ?_
    rw [Connection.onEvent, onTimer]
    split
    · exact h.passes (.refl c) fun going => by cases going.1
    · exact h
  | failed f => exact idle rfl (h.passes (.refl c) fun going => by cases going.1)

theorem dispatch (h : Secluded before limit data (done c)) {event : LoopEvent}
    (late : event ≠ .connected) (socket : Socket) :
    Secluded before limit (data ++ (Action.dispatch event socket : Action ρ).incoming.flatten)
      (c.dispatch event socket) := by
  unfold Connection.dispatch
  split
  · next closed => exact h.deaf (fun going => going.2 closed) _
  · next alive =>
    have begun : Secluded before limit data (done c.begin) :=
      h.passes (.begin c) fun _ => ⟨rfl, alive⟩
    have heard := begun.onEvent (begin_alive alive) late socket
    exact heard.andThen fun going => (eq_done going ▸ heard).settle socket

theorem request (h : Secluded before limit data t) {a : Action ρ}
    (asked : ∀ event socket, a ≠ .dispatch event socket) :
    Secluded before limit data (t.act a) := by
  refine h.passes (.request t asked) fun going => ?_
  rcases t.request_cases asked with ⟨stage, interruption⟩ | closed
  · exact ⟨interruption.symm.trans going.1, stage ▸ going.2⟩
  · exact absurd closed going.2

theorem heed (h : Secluded before limit data t) (a : Action ρ) :
    Secluded before limit (data ++ a.incoming.flatten) (t.heed a) := by
  unfold Turn.heed
  split
  · next timely =>
    cases a with
    | dispatch event socket =>
      have late : event ≠ .connected := by
        rintro rfl
        simp [Action.isTimely, behaviour, h.connected] at timely
      unfold Turn.act Turn.andThen
      dsimp only
      split
      · next going => exact (eq_done going ▸ h).dispatch late socket
      · next broken => exact h.deaf (fun going => by simp [going.1] at broken) _
    | _ => exact idle rfl (h.request (by simp))
  · next untimely =>
    cases a with
    | dispatch event socket =>
      cases event with
      | connected => exact idle rfl h
      | _ => exact absurd rfl untimely
    | _ => exact absurd rfl untimely

end Secluded

end Turn

namespace Connection

open Turn (Secluded)

variable {config : Config} {c : Connection ρ}

theorem Agrees.secluded {b : Connection ρ} {piece : Bytes} (h : b.Agrees piece) (course : b.Course)
    (left : List Bytes) :
    Secluded b.record b.inbound.limit left.flatten (b.secured.sendStartup.takePieces left) := by
  have line := sendStartup_line b.secured
  have start : Secluded b.record b.inbound.limit [] (.done b.secured.sendStartup) := by
    refine ⟨?_, ?_, congrArg Line.awaitingEncryption line, ?_⟩
    · rw [Turn.done, show b.secured.sendStartup.transport = _ from congrArg Line.transport line]
      exact Transport.encrypted_ne_plain _
    · exact (congrArg Line.connected line).trans (course.awaits h.awaiting)
    · obtain ⟨es, record, nothing, _⟩ := (Passes.sendStartup b.secured).record
      refine ⟨es, record, ?_, fun _ => ?_⟩ <;> rw [nothing]
      · exact List.nil_prefix
      · have inbound : b.secured.sendStartup.inbound = .empty b.inbound.limit :=
          congrArg Line.inbound line
        rw [Turn.done, inbound]
        exact Inbound.results_of_idle rfl
  exact start.takePieces (sendStartup_alive _) left

def AgreesAmong (c : Connection ρ) (pieces left : List Bytes) (b : Connection ρ) : Prop :=
  ∃ taken piece, pieces = taken ++ piece :: left ∧ c.takePieces taken = .done b ∧ b.Agrees piece

theorem onConnected_transport (c : Connection ρ) : c.onConnected.transport = c.transport := by
  unfold Connection.onConnected
  dsimp only
  split
  · exact congrArg Line.transport (sendStartup_line _)
  · rfl

theorem settle_transport (c : Connection ρ) (socket : Socket) :
    (c.settle socket).after.transport = c.transport := by
  unfold Connection.settle
  split
  · rfl
  · obtain ⟨qs, pumped⟩ := Passes.pump c
    exact congrArg Line.transport (pumped.before (.write c.pump socket)).line

theorem onEvent_cases (guarded : Guarded config c) (alive : c.stage ≠ .closed)
    (plain : c.transport = .plain) (event : LoopEvent) (socket : Socket) :
    (c.onEvent event socket).after.transport = .plain ∨
      ∃ left b, event = .readable ∧ c.AgreesAmong socket.incoming left b ∧ Guarded config b ∧
        Secluded b.record b.inbound.limit left.flatten (c.onEvent event socket) := by
  cases event with
  | connected => exact .inl ((onConnected_transport c).trans plain)
  | writable | notified | failed => exact .inl plain
  | timer =>
    rw [Connection.onEvent, onTimer]
    split <;> exact .inl plain
  | readable =>
    have unlearnt : c.learnCertificate socket.certificate = c := by
      rw [Connection.learnCertificate, plain]
    unfold Connection.onEvent Connection.read
    rw [unlearnt]
    rcases takePieces_cases plain socket.incoming with kept | ⟨taken, piece, left, b, split, first,
      agrees, same⟩
    · refine .inl (Turn.andThen_transport kept ?_)
      cases socket.readEnd with
      | blocked | failed => rfl
      | finished =>
        dsimp only
        split
        · exact congrArg Line.transport (Passes.moveTo _ .closed).line
        · rfl
    · have guarded : Guarded config b := by
        have before := guarded.takePieces alive taken
        rwa [first] at before
      have heard := same ▸ agrees.secluded guarded.course left
      refine .inr ⟨left, b, rfl, ⟨taken, piece, split, first, agrees⟩, guarded, ?_⟩
      exact heard.andThen fun going => Secluded.readEnd (Turn.eq_done going ▸ heard) socket.readEnd

end Connection

namespace Turn

open Connection

/-- The server agrees to encryption over these actions; `left` has come in after that, and `b` is
the connection just before. -/
def AgreesOver (t : Turn ρ) (actions : List (Action ρ)) (left : List Bytes) (b : Connection ρ) :
    Prop :=
  ∃ earlier socket later c own, actions = earlier ++ .dispatch .readable socket :: later ∧
    t.drive earlier = done c ∧ c.begin.AgreesAmong socket.incoming own b ∧
    left = own ++ later.flatMap Action.incoming

theorem AgreesOver.snoc {t : Turn ρ} {actions : List (Action ρ)} {left : List Bytes}
    {b : Connection ρ} (h : t.AgreesOver actions left b) (a : Action ρ) :
    t.AgreesOver (actions ++ [a]) (left ++ a.incoming) b := by
  obtain ⟨earlier, socket, later, c, own, rfl, before, agrees, rfl⟩ := h
  refine ⟨earlier, socket, later ++ [a], c, own, ?_, before, agrees, ?_⟩
  · rw [List.append_assoc, List.cons_append]
  · rw [List.flatMap_append, List.append_assoc, List.flatMap_singleton]

/-- What is said of a connection after each action: its line is plain, or the server has agreed to
encryption and what was taken since has come in since. -/
def Negotiates (config : Config) (start : Turn ρ) (actions : List (Action ρ)) (t : Turn ρ) : Prop :=
  t.after.transport = .plain ∨ ∃ left b, start.AgreesOver actions left b ∧ Guarded config b ∧
    Secluded b.record b.inbound.limit left.flatten t

theorem request_transport (t : Turn ρ) {a : Action ρ}
    (asked : ∀ event socket, a ≠ .dispatch event socket) :
    (t.act a).after.transport = t.after.transport :=
  congrArg Line.transport (Passes.request t asked).line

theorem Negotiates.dispatch {config : Config} {start : Turn ρ} {actions : List (Action ρ)}
    {c : Connection ρ} (reached : start.drive actions = done c) (guarded : Guarded config c)
    (plain : c.transport = .plain) (event : LoopEvent) (socket : Socket) :
    Negotiates config start (actions ++ [.dispatch event socket]) (c.dispatch event socket) := by
  unfold Connection.dispatch
  split
  · exact .inl plain
  · next alive =>
    have line := (Passes.begin c).line
    rcases onEvent_cases guarded.begin (begin_alive alive)
      ((congrArg Line.transport line).trans plain) event socket with
      kept | ⟨left, b, rfl, agrees, before, heard⟩
    · exact .inl (andThen_transport kept (settle_transport _ socket))
    · refine .inr ⟨left, b, ⟨actions, socket, [], c, left, rfl, reached, agrees, ?_⟩, before, ?_⟩
      · rw [List.flatMap_nil, List.append_nil]
      · exact heard.andThen fun going => (eq_done going ▸ heard).settle socket

theorem Negotiates.heed {config : Config} {start t : Turn ρ} {actions : List (Action ρ)}
    (reached : start.drive actions = t) (guarded : Guarded config t.after)
    (h : Negotiates config start actions t) (a : Action ρ) :
    Negotiates config start (actions ++ [a]) (t.heed a) := by
  rcases h with plain | ⟨left, b, agrees, before, secluded⟩
  · unfold Turn.heed
    split
    · cases a with
      | dispatch event socket =>
        unfold Turn.act Turn.andThen
        dsimp only
        split
        · next going => exact .dispatch (reached.trans (eq_done going)) guarded plain event socket
        · exact .inl plain
      | _ => exact .inl ((request_transport t (by simp)).trans plain)
    · exact .inl plain
  · refine .inr ⟨left ++ a.incoming, b, agrees.snoc a, before, ?_⟩
    rw [List.flatten_append]
    exact secluded.heed a

end Turn

end PgPipeline
