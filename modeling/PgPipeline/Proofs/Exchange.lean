import PgPipeline.Proofs.BackendRoundTrip
import PgPipeline.Proofs.Greeting
import PgPipeline.Proofs.Handshake
import PgPipeline.Proofs.Hearing

namespace PgPipeline

variable {ρ : Type}

structure Terms where
  config : Config
  nonces : Nat → List Char
  binding : Option Bytes

namespace Terms

structure Grows (t u : Terms) : Prop where
  config : u.config = t.config
  nonces : u.nonces = t.nonces
  binding : ∀ data, t.binding = some data → u.binding = some data

end Terms

structure Opening where
  offered : List String
  binding : Option Bytes
  mechanism : Mechanism
  mode : BindingMode
  password : String

namespace Opening

structure Fits (o : Opening) (t : Terms) : Prop where
  chosen : Mechanism.select o.offered t.config.mechanisms t.config.binding o.binding =
    .ok (o.mechanism, o.mode)
  live : ∀ data, o.binding = some data → t.binding = some data
  known : t.config.password = some o.password

/-- The client of the exchange, which is made when this many exchanges have begun before it. -/
def client (o : Opening) (t : Terms) (number : Nat) : Scram.Client :=
  .start t.config.user o.password (t.nonces number) o.mode

def entries (o : Opening) (client : Scram.Client) : List (Entry ρ) :=
  [.received (.sasl o.offered),
    .queued [.saslInitial o.mechanism.name (Utf8.encodeChars client.first)]]

end Opening

/-- The client began the latest exchange of the record, and this is what came after it. -/
def Began (t : Terms) (es : List (Entry ρ)) (client : Scram.Client) (later : List (Entry ρ)) :
    Prop :=
  ∃ (o : Opening) (earlier : List (Entry ρ)), o.Fits t ∧
    client = o.client t (Record.exchanges earlier) ∧
    es = earlier ++ o.entries client ++ later ∧ Record.exchanges later = 0

def Proved (client answered : Scram.Client) (later : List (Entry ρ)) : Prop :=
  ∃ (before after : List (Entry ρ)) (challenge : Bytes) (final : List Char),
    client.receiveFirst challenge = .ok (final, answered) ∧
    later = before ++ .received (.saslContinue challenge) ::
      .queued [.saslResponse (Utf8.encodeChars final)] :: after

def Verified (client : Scram.Client) (later : List (Entry ρ)) : Prop :=
  ∃ (answered : Scram.Client) (before after : List (Entry ρ)) (signature : Bytes),
    Proved client answered before ∧ answered.verifyFinal signature = .ok () ∧
    later = before ++ .received (.saslFinal signature) :: after

/-- No exchange was begun, or the server has proved itself in the latest one. -/
def Mutual (t : Terms) (es : List (Entry ρ)) : Prop :=
  Record.exchanges es = 0 ∨ ∃ client later, Began t es client later ∧ Verified client later

def Trace (t : Terms) (es : List (Entry ρ)) : AuthPhase → Prop
  | .started => Record.exchanges es = 0
  | .challenged client => ∃ later, Began t es client later
  | .proven answered => ∃ client later, Began t es client later ∧ Proved client answered later
  | .verified => Mutual t es

section Growth

variable {t u : Terms} {es fs later : List (Entry ρ)} {client answered : Scram.Client}

theorem Opening.Fits.mono {o : Opening} (h : o.Fits t) (grows : t.Grows u) : o.Fits u := by
  refine ⟨?_, fun data hd => grows.binding data (h.live data hd), ?_⟩
  · rw [grows.config]
    exact h.chosen
  · rw [grows.config]
    exact h.known

theorem Began.mono (h : Began t es client later) (grows : t.Grows u) : Began u es client later := by
  obtain ⟨o, earlier, fits, made, record, last⟩ := h
  refine ⟨o, earlier, fits.mono grows, ?_, record, last⟩
  rw [made, Opening.client, Opening.client, grows.config, grows.nonces]

theorem Began.goOn (h : Began t es client later) (quiet : Record.exchanges fs = 0) :
    Began t (es ++ fs) client (later ++ fs) := by
  obtain ⟨o, earlier, fits, made, record, last⟩ := h
  refine ⟨o, earlier, fits, made, ?_, ?_⟩
  · rw [record, List.append_assoc]
  · rw [Record.exchanges_append, last, quiet]

theorem Proved.goOn (h : Proved client answered later) : Proved client answered (later ++ fs) := by
  obtain ⟨before, after, challenge, final, accepted, rfl⟩ := h
  exact ⟨before, after ++ fs, challenge, final, accepted, by simp⟩

theorem Verified.goOn (h : Verified client later) : Verified client (later ++ fs) := by
  obtain ⟨answered, before, after, signature, proved, signed, rfl⟩ := h
  exact ⟨answered, before, after ++ fs, signature, proved, signed, by simp⟩

theorem Mutual.mono (h : Mutual t es) (grows : t.Grows u) : Mutual u es := by
  rcases h with none_ | ⟨client, later, began, verified⟩
  · exact .inl none_
  · exact .inr ⟨client, later, began.mono grows, verified⟩

theorem Mutual.goOn (h : Mutual t es) (quiet : Record.exchanges fs = 0) : Mutual t (es ++ fs) := by
  rcases h with none_ | ⟨client, later, began, verified⟩
  · exact .inl (by rw [Record.exchanges_append, none_, quiet])
  · exact .inr ⟨client, later ++ fs, began.goOn quiet, verified.goOn⟩

theorem Trace.mono {phase : AuthPhase} (h : Trace t es phase) (grows : t.Grows u) :
    Trace u es phase := by
  cases phase with
  | started => exact h
  | challenged client =>
    obtain ⟨later, began⟩ := h
    exact ⟨later, began.mono grows⟩
  | proven answered =>
    obtain ⟨client, later, began, proved⟩ := h
    exact ⟨client, later, began.mono grows, proved⟩
  | verified => exact Mutual.mono h grows

theorem Trace.goOn {phase : AuthPhase} (h : Trace t es phase) (quiet : Record.exchanges fs = 0) :
    Trace t (es ++ fs) phase := by
  cases phase with
  | started =>
    have none_ : Record.exchanges es = 0 := h
    rw [Trace, Record.exchanges_append, none_, quiet]
  | challenged client =>
    obtain ⟨later, began⟩ := h
    exact ⟨later ++ fs, began.goOn quiet⟩
  | proven answered =>
    obtain ⟨client, later, began, proved⟩ := h
    exact ⟨client, later ++ fs, began.goOn quiet, proved.goOn⟩
  | verified => exact Mutual.goOn h quiet

end Growth

namespace Connection

def terms (c : Connection ρ) : Terms := ⟨c.config, c.nonces, c.transport.binding?⟩

theorem SameLogin.grows {c d : Connection ρ} (h : SameLogin c d) : c.terms.Grows d.terms :=
  ⟨congrArg Login.config h.login, congrArg Login.nonces h.login, h.binding⟩

theorem becomeReady_eq {c : Connection ρ} (h : c.stage ≠ .ready) :
    ∃ (inbox : Inbox ρ) (informed : List (Entry ρ)), (∀ e ∈ informed, e.ofLogin = false) ∧
      c.becomeReady = { c with
        stage := .ready, inbox, record := c.record ++ [.moved .ready] ++ informed } := by
  unfold becomeReady moveTo
  rw [if_neg h]
  dsimp only [enter]
  split
  · next waiters _ =>
    exact ⟨_, waiters.map fun w => .informed w (.ok c.info), by simp [Entry.ofLogin], rfl⟩
  · exact ⟨_, [], by simp, rfl⟩

end Connection

def ReadyMutual (t : Terms) (es : List (Entry ρ)) : Prop :=
  Record.Each (fun before e => e = .moved .ready → Mutual t before) es

theorem ReadyMutual.mono {t u : Terms} {es : List (Entry ρ)} (h : ReadyMutual t es)
    (grows : t.Grows u) : ReadyMutual u es :=
  fun before e after hes ready => (h before e after hes ready).mono grows

theorem ReadyMutual.goOn {t : Terms} {es fs : List (Entry ρ)} (h : ReadyMutual t es)
    (unready : ∀ e ∈ fs, e ≠ .moved .ready) : ReadyMutual t (es ++ fs) :=
  Record.each_append_of_forall h fun e he _ ready => absurd ready (unready e he)

namespace Turn

open Connection

structure Authentic (config : Config) (nonces : Nat → List Char) (t : Turn ρ) : Prop where
  settings : t.after.config = config ∧ t.after.nonces = nonces
  counted : t.after.exchanges = Record.exchanges t.after.record
  ready : ReadyMutual t.after.terms t.after.record
  -- A step that was broken off may leave a phase behind that says less than was done.
  phase : t.GoesOn → Trace t.after.terms t.after.record t.after.auth

namespace Authentic

variable {config : Config} {nonces : Nat → List Char} {t u : Turn ρ} {c : Connection ρ}

theorem start (config : Config) (nonces : Nat → List Char) :
    Authentic config nonces (done (Connection.start (ρ := ρ) config nonces)) :=
  ⟨⟨rfl, rfl⟩, rfl, Record.each_nil, fun _ => rfl⟩

theorem sameLogin (h : Authentic config nonces t) (same : SameLogin t.after u.after)
    (goesOn : u.GoesOn → t.GoesOn) : Authentic config nonces u := by
  obtain ⟨es, record, _, quiet⟩ := same.record
  have none_ : Record.exchanges es = 0 := Record.exchanges_eq_zero quiet
  have grows := same.grows
  refine ⟨⟨?_, ?_⟩, ?_, ?_, fun goes => ?_⟩
  · exact (congrArg Login.config same.login).trans h.settings.1
  · exact (congrArg Login.nonces same.login).trans h.settings.2
  · rw [record, Record.exchanges_append, none_]
    exact (congrArg Login.exchanges same.login).trans h.counted
  · rw [record]
    refine (h.ready.mono grows).goOn fun e he ready => ?_
    subst ready
    exact absurd (quiet _ he) (by simp [Entry.ofLogin])
  · have auth : u.after.auth = t.after.auth := congrArg Login.auth same.login
    rw [record, auth]
    exact ((h.phase (goesOn goes)).mono grows).goOn none_

theorem entered {es : List (Entry ρ)} {auth : AuthPhase} (h : Authentic config nonces (done c))
    (settings : u.after.terms = c.terms) (record : u.after.record = c.record ++ es)
    (unready : ∀ e ∈ es, e ≠ .moved .ready)
    (counted : u.after.exchanges = c.exchanges + Record.exchanges es)
    (auth_ : u.after.auth = auth) (phase : u.GoesOn → Trace c.terms (c.record ++ es) auth) :
    Authentic config nonces u := by
  refine ⟨⟨?_, ?_⟩, ?_, ?_, fun goesOn => ?_⟩
  · exact (congrArg Terms.config settings).trans h.settings.1
  · exact (congrArg Terms.nonces settings).trans h.settings.2
  · rw [counted, record, Record.exchanges_append]
    exact congrArg (· + _) h.counted
  · rw [settings, record]
    exact h.ready.goOn unready
  · rw [settings, record, auth_]
    exact phase goesOn

theorem opened (status : TransactionStatus) (h : Authentic config nonces (done c))
    (stage : c.stage = .authenticating) (verified : c.auth = .verified) :
    Authentic config nonces (done ({ c.enter [.received (.readyForQuery status)] with
      transaction := status } : Connection ρ).becomeReady) := by
  have goesOn : GoesOn (done c) := .of_stage stage (by decide)
  have phase : Trace c.terms c.record c.auth := h.phase goesOn
  have authentic : Mutual c.terms (c.record ++ [.received (.readyForQuery status)]) := by
    rw [verified] at phase
    exact Mutual.goOn phase rfl
  obtain ⟨inbox, informed, quiet, eq⟩ := becomeReady_eq (c := { c.enter
    [.received (.readyForQuery status)] with transaction := status })
    fun ready => absurd (stage.symm.trans ready) (by decide)
  have none_ : Record.exchanges informed = 0 := Record.exchanges_eq_zero quiet
  rw [eq]
  refine ⟨h.settings, ?_, ?_, fun _ => ?_⟩
  · have number : c.exchanges = Record.exchanges c.record := h.counted
    change c.exchanges = Record.exchanges (c.record ++ [.received (.readyForQuery status)] ++
      [.moved .ready] ++ informed)
    rw [Record.exchanges_append, Record.exchanges_append, Record.exchanges_append, none_, number]
    rfl
  · have received : ReadyMutual c.terms (c.record ++ [.received (.readyForQuery status)]) :=
      ReadyMutual.goOn h.ready (by simp)
    have moved : ReadyMutual c.terms
        (c.record ++ [.received (.readyForQuery status)] ++ [.moved .ready]) :=
      Record.each_snoc received fun _ => authentic
    refine moved.goOn fun e he ready => ?_
    subst ready
    exact absurd (quiet _ he) (by simp [Entry.ofLogin])
  · have opened : Mutual c.terms (c.record ++ [.received (.readyForQuery status)] ++
        [.moved .ready] ++ informed) := (authentic.goOn (by rfl)).goOn none_
    change Trace c.terms _ c.auth
    rw [verified]
    exact opened

theorem greeted {m : BackendMessage} (h : Authentic config nonces (done c))
    (stage : c.stage = .authenticating) (k : Greeted (c.enter [.received m]) m u) :
    Authentic config nonces u := by
  have goesOn : GoesOn (done c) := .of_stage stage (by decide)
  have phase : Trace c.terms c.record c.auth := h.phase goesOn
  cases k with
  | refused auth i unknown =>
    exact h.entered rfl rfl (by simp) rfl rfl fun goesOn => absurd goesOn.1 (by simp)
  | satisfied free =>
    refine h.entered rfl rfl (by simp) rfl rfl fun _ => ?_
    have satisfied : Mutual c.terms c.record := by
      rcases free with started | verified
      · have phase : Trace c.terms c.record .started := by rwa [← started]
        exact .inl phase
      · have phase : Trace c.terms c.record .verified := by rwa [← verified]
        exact phase
    exact satisfied.goOn rfl
  | disclosed secret asked known =>
    exact h.entered rfl (List.append_assoc _ _ _) (by simp) rfl rfl fun _ => phase.goOn rfl
  | @began offered mechanism mode password client chosen known made =>
    refine h.entered rfl (List.append_assoc _ _ _) (by simp) rfl rfl fun _ => ?_
    have number : c.exchanges = Record.exchanges c.record := h.counted
    refine ⟨[], ⟨offered, c.transport.binding?, mechanism, mode, password⟩, c.record,
      ⟨chosen, fun _ known => known, known⟩, ?_, ?_, rfl⟩
    · rw [made, ← number]
      rfl
    · exact (List.append_nil _).symm
  | @proved data final client answered waiting accepted =>
    refine h.entered rfl (List.append_assoc _ _ _) (by simp) rfl rfl fun _ => ?_
    have phase : Trace c.terms c.record (.challenged client) := by rwa [← waiting]
    obtain ⟨later, began⟩ := phase
    exact ⟨client, _, began.goOn rfl, later, [], data, final, accepted, rfl⟩
  | @verified data answered waiting signed =>
    refine h.entered rfl rfl (by simp) rfl rfl fun _ => ?_
    have phase : Trace c.terms c.record (.proven answered) := by rwa [← waiting]
    obtain ⟨client, later, began, proved⟩ := phase
    exact .inr ⟨client, _, began.goOn rfl, answered, later, [], data, proved, signed, rfl⟩
  | opened status verified => exact h.opened status stage verified

theorem step {K : Consumer ρ → Prop} (stride : Stride K t u) (h : Authentic config nonces t) :
    Authentic config nonces u := by
  rcases stride.login with same | ⟨c, m, i, rfl, _, rfl⟩ | ⟨c, m, rfl, stage, rfl⟩
  · exact h.sameLogin same stride.goesOn
  · exact h.entered rfl rfl (by simp) rfl rfl fun goesOn => absurd goesOn.1 (by simp)
  · exact h.greeted stage (onAuthMessage_greeted _ m)

end Authentic

theorem run_authentic (config : Config) (nonces : Nat → List Char) (actions : List (Action ρ)) :
    Authentic config nonces ((done (.start config nonces)).run actions) :=
  run_induction (.start config nonces) Authentic.step fun a _ => allows_any a

theorem run_told (config : Config) (nonces : Nat → List Char) (actions : List (Action ρ)) :
    ((done (.start config nonces)).run actions).after.Told :=
  have start : (done (Connection.start (ρ := ρ) config nonces)).after.Told := rfl
  run_induction start Told.step fun a _ => allows_any a

end Turn

namespace Connection

variable {c : Connection ρ}

theorem onMessages_proves {client answered : Scram.Client} {challenge signature : Bytes}
    {reply : List Char} (stage : c.stage = .authenticating) (began : c.auth = .challenged client)
    (received : client.receiveFirst challenge = .ok (reply, answered))
    (verified : answered.verifyFinal signature = .ok ()) (status : TransactionStatus) :
    ∃ d, c.onMessages [.saslContinue challenge, .saslFinal signature, .authenticationOk,
        .readyForQuery status] = .done d ∧
      (c.record ++ [.received (.saslContinue challenge),
        .queued [.saslResponse (Utf8.encodeChars reply)], .received (.saslFinal signature),
        .received .authenticationOk, .received (.readyForQuery status)]) ++ [.moved .ready] <+:
        d.record := by
  let c₁ : Connection ρ := { (c.enter [.received (.saslContinue challenge)]).queue
    [.saslResponse (Utf8.encodeChars reply)] with auth := .proven answered }
  let c₂ : Connection ρ := { c₁.enter [.received (.saslFinal signature)] with auth := .verified }
  let c₃ : Connection ρ := { c₂.enter [.received .authenticationOk] with auth := .verified }
  let c₄ : Connection ρ :=
    { c₃.enter [.received (.readyForQuery status)] with transaction := status }
  have first : c.onMessage (.saslContinue challenge) = .done c₁ := by
    simp [onMessage, enter, stage, onAuthMessage, onChallenge, began, received, c₁, queue]
  have second : c₁.onMessage (.saslFinal signature) = .done c₂ := by
    simp [onMessage, enter, stage, onAuthMessage, onSignature, verified, c₁, c₂, queue]
  have third : c₂.onMessage .authenticationOk = .done c₃ := by
    simp [onMessage, enter, stage, onAuthMessage, onAuthenticationOk, c₁, c₂, c₃, queue]
  have fourth : c₃.onMessage (.readyForQuery status) = .done c₄.becomeReady := by
    simp [onMessage, enter, stage, onAuthMessage, c₁, c₂, c₃, c₄, queue]
  have earlier : c₄.stage ≠ .ready := by simp [c₁, c₂, c₃, c₄, enter, queue, stage]
  have opens : c₄.record ++ [.moved .ready] <+: c₄.becomeReady.record := by
    rw [becomeReady, moveTo, if_neg earlier]
    exact List.prefix_append _ _
  refine ⟨c₄.becomeReady, ?_, ?_⟩
  · simp [onMessages, first, second, third, fourth, Turn.andThen, Turn.done]
  · simpa [c₁, c₂, c₃, c₄, enter, queue] using opens

end Connection

namespace Turn

open Connection

/-- If exchanges were begun before a connection became ready, then the client of the latest one had
accepted the server's challenge and then verified the server's signature. -/
theorem run_authenticates_server (config : Config) (nonces : Nat → List Char)
    (actions : List (Action ρ)) :
    let c : Connection ρ := ((done (.start config nonces)).run actions).after
    (∀ before after, c.record = before ++ .moved .ready :: after → Record.exchanges before ≠ 0 →
      ∃ client later, Began ⟨config, nonces, c.transport.binding?⟩ before client later ∧
        Verified client later) ∧
    (c.stage = .ready → ∃ before after, c.record = before ++ .moved .ready :: after) := by
  intro c
  have authentic := run_authentic config nonces actions
  have told : Record.stage c.record = c.stage := run_told config nonces actions
  constructor
  · intro before after record begun
    have terms : c.terms = ⟨config, nonces, c.transport.binding?⟩ :=
      congrArg₂ (Terms.mk · · c.transport.binding?) authentic.settings.1 authentic.settings.2
    rw [← terms]
    exact (authentic.ready before _ after record rfl).resolve_left begun
  · intro ready
    exact List.append_of_mem (Record.mem_of_stageFrom (told.trans ready) (by decide))

theorem run_authenticates_server_honest :
    let config : Config := { Config.default with encryption := .disable, password := some "pencil" }
    let nonces : Nat → List Char := fun _ => "rOprNGfwEbeRWgbNEkqO".toList
    let client := Scram.Client.start "postgres" "pencil" (nonces 0) .unsupported
    let server : Scram.Server :=
      ⟨.ofPassword "pencil" [0, 255] 4096, "%hvYDpWUa2RaTCAfuxFIlj".toList⟩
    let proofs : List BackendMessage :=
      [.saslContinue (Utf8.encodeChars (server.first client.opening)),
        .saslFinal (Utf8.encodeChars (server.final client.opening (client.closing server))),
        .authenticationOk, .readyForQuery .idle]
    let actions : List (Action Nat) :=
      [.dispatch .connected (.quiet []), .answers [.sasl ["SCRAM-SHA-256"]], .answers proofs]
    let c := ((done (.start config nonces)).run actions).after
    ∃ before after began later, c.record = before ++ .moved .ready :: after ∧
      Record.exchanges before ≠ 0 ∧
      Began ⟨config, nonces, c.transport.binding?⟩ before began later ∧ Verified began later := by
  intro config nonces client server proofs actions c
  obtain ⟨t, started⟩ : ∃ t : Turn Nat, (done (.start config nonces)).run
    [.dispatch .connected (.quiet []), .answers [.sasl ["SCRAM-SHA-256"]]] = t := ⟨_, rfl⟩
  have asked : t.interruption = none ∧ t.after.stage = .authenticating ∧
      t.after.auth = .challenged client ∧ t.after.inbound = .empty Inbound.defaultLimit ∧
      t.after.transport = .plain ∧ t.after.awaitingEncryption = false ∧
      Record.exchanges t.after.record = 1 := by
    rw [← started]
    decide +kernel
  obtain ⟨uninterrupted, stage, phase, inbound, plain, agreed, begun⟩ := asked
  have shares : server.credentials = .ofPassword client.password [0, 255] 4096 := rfl
  have received := Scram.Client.receiveFirst_first (c := client) (s := server) (by decide) (by decide)
    (by decide) (by decide) (by decide)
  have verified := Scram.Client.verifyFinal_signature
    (c := { client with exchange := some (client.agreed server) }) rfl
    (rfl : (client.agreed server).signature = _)
  rw [← Scram.Client.final_closing shares] at verified
  obtain ⟨d, heard, opens⟩ := onMessages_proves
    (c := { t.after with inbound := .empty Inbound.defaultLimit }) stage phase received verified .idle
  have challenge : (Utf8.encodeChars (server.first client.opening)).length ≤ 1000 := by decide +kernel
  have signature : (Utf8.encodeChars (server.final client.opening (client.closing server))).length ≤
      1000 := by
    have digits := Base64.length_encode_le (client.agreed server).signature
    rw [Scram.Exchange.signature, Digest.length_hmac] at digits
    refine Nat.le_trans (Utf8.length_encodeChars_le _) ?_
    rw [Scram.Client.final_closing shares, List.length_cons, List.length_cons,
      Scram.Exchange.signature]
    omega
  have drained : (t.after.inbound.feed (proofs.flatMap BackendMessage.encode)).drain =
      (proofs, none, .empty Inbound.defaultLimit) := by
    rw [inbound, Inbound.feed, Inbound.empty, List.nil_append]
    refine Inbound.drain_encode (by simp [proofs, BackendMessage.IsWritable]) ?_
    simp only [proofs, List.forall_mem_cons, Frame.Fits, BackendMessage.body, List.length_append,
      Bytes.length_int32, Inbound.defaultLimit]
    refine ⟨by omega, by omega, by decide, by decide, by simp⟩
  have read : t.after.read (.giving (proofs.flatMap BackendMessage.encode) []) = done d :=
    read_giving plain agreed drained heard []
  have grown : d.record <+: c.record := by
    have ran : (done (.start config nonces)).run actions = t.run [.answers proofs] := by
      rw [← started, ← run_append]
      rfl
    have last : c = (t.run [.answers proofs]).after := congrArg Turn.after ran
    rw [last, run, List.foldl_cons, List.foldl_nil, eq_done uninterrupted]
    exact act_answers (by rw [stage]; decide) (by rw [stage]; decide) read
  obtain ⟨after, more⟩ := opens.trans grown
  rw [List.append_assoc, List.singleton_append] at more
  have exchanged : Record.exchanges (t.after.record ++
      [.received (.saslContinue (Utf8.encodeChars (server.first client.opening))),
        .queued [.saslResponse (Utf8.encodeChars (client.reply server))],
        .received (.saslFinal
          (Utf8.encodeChars (server.final client.opening (client.closing server)))),
        .received .authenticationOk, .received (.readyForQuery .idle)]) ≠ 0 := by
    rw [Record.exchanges_append, begun]
    exact Nat.ne_of_gt (Nat.le_add_right 1 _)
  obtain ⟨began, later, opened, verifies⟩ :=
    (run_authenticates_server config nonces actions).1 _ after more.symm exchanged
  exact ⟨_, after, began, later, more.symm, exchanged, opened, verifies⟩

end Turn

end PgPipeline
