import PgPipeline.Proofs.Veil

namespace PgPipeline

variable {ρ : Type} {n : Nat}

namespace Submission

variable {s : Submission ρ}

theorem offer_of_steady (steady : s.consumer.Steady) (row : Row) :
    ∃ taken refusal, s.offer row = .ok { s with taken, refusal } := by
  unfold offer
  cases answer : s.consumer.onRow s.taken row with
  | ok _ => exact ⟨s.taken ++ [row], s.refusal, rfl⟩
  | error i =>
    cases i with
    | failed f => exact ⟨s.taken, some f, rfl⟩
    | crashed text => exact absurd answer (steady.1 s.taken row text)

theorem conclude_of_steady (steady : s.consumer.Steady) (cancelled : Bool) (summary : Summary) :
    ∃ result, s.conclude cancelled summary = .ok result := by
  unfold conclude
  split
  · exact ⟨_, rfl⟩
  · split
    · exact ⟨_, rfl⟩
    · cases answer : s.consumer.onComplete s.taken summary with
      | ok result => exact ⟨.ok result, rfl⟩
      | error i =>
        cases i with
        | failed f => exact ⟨.error f, rfl⟩
        | crashed text => exact absurd answer (steady.2 s.taken summary text)

end Submission

namespace Connection.AlikeBut

variable {c d : Connection ρ}

theorem turn (h : AlikeBut n c d) (i : Option Interruption) : Turn.AlikeBut n ⟨c, i⟩ ⟨d, i⟩ :=
  congrArg (fun c => (⟨c, i⟩ : Turn ρ)) h

theorem done (h : AlikeBut n c d) : Turn.AlikeBut n (.done c) (.done d) := h.turn none

theorem fail (h : AlikeBut n c d) (f : Failure) : Turn.AlikeBut n (.fail c f) (.fail d f) :=
  h.turn (some (.failed f))

end Connection.AlikeBut

namespace Turn.AlikeBut

variable {t u : Turn ρ}

theorem after (h : AlikeBut n t u) : Connection.AlikeBut n t.after u.after := congrArg Turn.after h

theorem interruption (h : AlikeBut n t u) : t.interruption = u.interruption :=
  congrArg (·.interruption) (show t.veil n = u.veil n from h)

theorem andThen {f g : Connection ρ → Turn ρ} (h : AlikeBut n t u)
    (next : ∀ c d, Connection.AlikeBut n c d → AlikeBut n (f c) (g d)) :
    AlikeBut n (t.andThen f) (u.andThen g) := by
  have same := h.interruption
  cases stopped : t.interruption with
  | none =>
    rw [stopped] at same
    simp only [Turn.andThen, stopped, ← same]
    exact next _ _ h.after
  | some i =>
    rw [stopped] at same
    simp only [Turn.andThen, stopped, ← same]
    exact h

end Turn.AlikeBut

namespace Connection

variable {c d : Connection ρ}

theorem withHead_veil (name : String) {next next' : Flight ρ → List (Flight ρ) → Turn ρ}
    (each : ∀ flight rest, Turn.AlikeBut n (next (flight.veil n) (rest.map (Flight.veil n)))
      (next' flight rest)) :
    Turn.AlikeBut n ((c.veil n).withHead name next) (c.withHead name next') := by
  have flights : (c.veil n).inFlight = c.inFlight.map (Flight.veil n) := rfl
  cases found : c.inFlight with
  | nil =>
    simp only [withHead, flights, found, List.map_nil]
    exact (AlikeBut.veiled n c).fail _
  | cons flight rest =>
    simp only [withHead, flights, found, List.map_cons]
    exact each flight rest

def offerHead (c : Connection ρ) (flight : Flight ρ) (rest : List (Flight ρ)) (row : Row) : Turn ρ :=
  if c.isCancelled flight.submission.number || flight.submission.refusal.isSome then .done c
  else
    let c := c.enter [.offered flight.submission.number row]
    match flight.submission.offer row with
    | .ok submission => .done { c with inFlight := { flight with submission } :: rest }
    | .error i => ⟨c, some i⟩

theorem onDataRow_eq (c : Connection ρ) (name : String) (values : List (Option Bytes)) :
    c.onDataRow name values = c.withHead name fun flight rest =>
      let columns := flight.columns.getD ((c.cache.columns? flight.statement).getD [])
      let flight := { flight with columns := some columns }
      { c with inFlight := flight :: rest }.offerHead flight rest ⟨columns, values⟩ := rfl

theorem offerHead_veil (c : Connection ρ) (flight : Flight ρ) (rest : List (Flight ρ)) (row : Row)
    (head : c.inFlight = flight :: rest) :
    Turn.AlikeBut n ((c.veil n).offerHead (flight.veil n) (rest.map (Flight.veil n)) row)
      (c.offerHead flight rest row) := by
  have same := AlikeBut.veiled n c
  by_cases veiled : flight.submission.IsVeiled n
  · have refused : (flight.veil n).submission.refusal = some .closed := by
      simp [Flight.veil, Submission.veil_of_isVeiled veiled]
    simp only [offerHead, refused, Option.isSome_some, Bool.or_true, if_true]
    split
    · exact same.done
    obtain ⟨taken, refusal, offered⟩ := Submission.offer_of_steady veiled.2 row
    rw [offered]
    have told : AlikeBut n (c.veil n) (c.enter [.offered flight.submission.number row]) :=
      same.enter_hidden (by simp [Record.veil, Entry.veil, veiled.1])
    have flights : (c.veil n).inFlight.map (Flight.veil n) =
        ({ flight with submission := { flight.submission with taken, refusal } } :: rest).map
          (Flight.veil n) := by
      simp [veil, head, Flight.veil, Submission.veil_answered veiled]
    exact (told.flights flights).done
  · have bare : flight.veil n = flight := by simp [Flight.veil, Submission.veil_of_not veiled]
    rw [bare]
    have told := same.enter [.offered flight.submission.number row]
    unfold offerHead
    change Turn.AlikeBut n
      (if c.isCancelled flight.submission.number || flight.submission.refusal.isSome then _ else _) _
    split
    · exact same.done
    · cases flight.submission.offer row with
      | ok submission => exact (told.flights (by simp [Function.comp_def])).done
      | error i => exact told.turn (some i)

theorem onDataRow_veil (c : Connection ρ) (name : String) (values : List (Option Bytes)) :
    Turn.AlikeBut n ((c.veil n).onDataRow name values) (c.onDataRow name values) := by
  rw [onDataRow_eq, onDataRow_eq]
  refine withHead_veil name fun flight rest => ?_
  let columns := flight.columns.getD ((c.cache.columns? flight.statement).getD [])
  let described := { flight with columns := some columns }
  exact offerHead_veil { c with inFlight := described :: rest } described rest ⟨columns, values⟩ rfl

theorem updateHead_veil (c : Connection ρ) (name : String) {f : Flight ρ → Flight ρ}
    (comm : ∀ flight, f (flight.veil n) = (f flight).veil n) :
    Turn.AlikeBut n ((c.veil n).updateHead name f) (c.updateHead name f) := by
  refine withHead_veil name fun flight rest => ?_
  rw [comm]
  exact (AlikeBut.veiled n { c with inFlight := f flight :: rest }).done

theorem onError_veil (c : Connection ρ) (name : String) (report : ServerReport) :
    Turn.AlikeBut n ((c.veil n).onError name report) (c.onError name report) := by
  unfold onError
  split
  · exact (AlikeBut.veiled n c).fail _
  · exact updateHead_veil c name fun _ => rfl

theorem onRowDescription_veil (c : Connection ρ) (name : String) (columns : List Column) :
    Turn.AlikeBut n ((c.veil n).onRowDescription name columns) (c.onRowDescription name columns) := by
  refine withHead_veil name fun flight rest => ?_
  have cached : (c.veil n).cache = c.cache := rfl
  have statement : (flight.veil n).statement = flight.statement := rfl
  simp only [cached, statement]
  generalize c.cache.learnColumns flight.statement _ = cache
  exact (AlikeBut.veiled n { c with
    cache, inFlight := { flight with columns := cache.columns? flight.statement } :: rest }).done

theorem onNoData_veil (c : Connection ρ) (name : String) :
    Turn.AlikeBut n ((c.veil n).onNoData name) (c.onNoData name) := by
  refine withHead_veil name fun flight rest => ?_
  change Turn.AlikeBut n (.done (if flight.preparedHere then _ else _)) _
  split
  · exact (AlikeBut.veiled n
      { c with cache := c.cache.learnColumns flight.statement [] }).done
  · exact (AlikeBut.veiled n c).done

theorem finishSuccess_of_steady (c : Connection ρ) {flight : Flight ρ}
    (steady : flight.submission.consumer.Steady) :
    ∃ told result, c.finishSuccess flight = .done (told.resolve flight.submission.number result) ∧
      (told = c ∨ told = c.enter [.concluded flight.submission.number flight.summary]) := by
  obtain ⟨result, given⟩ := Submission.conclude_of_steady steady
    (c.isCancelled flight.submission.number) flight.summary
  simp only [finishSuccess, given]
  refine ⟨_, result, rfl, ?_⟩
  split
  · exact .inl rfl
  · exact .inr rfl

theorem finishSuccess_veil (c : Connection ρ) (flight : Flight ρ) :
    Turn.AlikeBut n ((c.veil n).finishSuccess (flight.veil n)) (c.finishSuccess flight) := by
  have same := AlikeBut.veiled n c
  by_cases veiled : flight.submission.IsVeiled n
  · have hidden : Record.veil n [.concluded flight.submission.number flight.summary] =
        ([] : List (Entry ρ)) := by
      simp [Record.veil, Entry.veil, veiled.1]
    have unseen {c told : Connection ρ}
        (which : told = c ∨ told = c.enter [.concluded flight.submission.number flight.summary]) :
        AlikeBut n c told := by
      rcases which with h | h
      · rw [h]
        exact .refl c
      · rw [h]
        exact (AlikeBut.refl c).enter_hidden hidden
    obtain ⟨told, result, finished, which⟩ := finishSuccess_of_steady c veiled.2
    have steady' : (flight.veil n).submission.consumer.Steady := Submission.steady_veil veiled
    obtain ⟨told', result', finished', which'⟩ := finishSuccess_of_steady (c.veil n) steady'
    have both : AlikeBut n told' told := (unseen which').symm.trans (same.trans (unseen which))
    rw [finished, finished']
    exact (both.resolve fun other => absurd veiled.1 other).done
  · have bare : flight.veil n = flight := by simp [Flight.veil, Submission.veil_of_not veiled]
    rw [bare]
    have told : AlikeBut n
        (if c.isCancelled flight.submission.number || flight.submission.refusal.isSome then c.veil n
          else (c.veil n).enter [.concluded flight.submission.number flight.summary])
        (if c.isCancelled flight.submission.number || flight.submission.refusal.isSome then c
          else c.enter [.concluded flight.submission.number flight.summary]) := by
      split
      · exact same
      · exact same.enter _
    have cancelled : (c.veil n).isCancelled flight.submission.number =
        c.isCancelled flight.submission.number := rfl
    cases given : flight.submission.conclude (c.isCancelled flight.submission.number)
        flight.summary with
    | ok result =>
      simp only [finishSuccess, cancelled, given]
      exact (told.resolve fun _ => rfl).done
    | error i =>
      simp only [finishSuccess, cancelled, given]
      exact (told.enter _).turn (some i)

theorem finishUnknownStatement_veil (c : Connection ρ) (flight : Flight ρ) :
    AlikeBut n ((c.veil n).finishUnknownStatement (flight.veil n))
      (c.finishUnknownStatement flight) := by
  unfold finishUnknownStatement
  let forgetful := { c with
    cache := c.cache.invalidate flight.key (c.cache.nameOf flight.statement) }
  let again := { flight.submission with retries := flight.submission.retries - 1 }
  change AlikeBut n
    (if 0 < flight.submission.retries ∧ ¬ c.isCancelled flight.submission.number then _ else _) 
    (if 0 < flight.submission.retries ∧ ¬ c.isCancelled flight.submission.number then _ else _)
  split
  · have kept := AlikeBut.veiled n
      { forgetful with pending := Submission.insert again c.pending }
    simp only [veil, ← Submission.insert_veil] at kept
    exact kept
  · exact (AlikeBut.veiled n forgetful).resolve fun _ => rfl

theorem finishFailure_veil (c : Connection ρ) (flight : Flight ρ) (report : ServerReport) :
    AlikeBut n ((c.veil n).finishFailure (flight.veil n) report)
      (c.finishFailure flight report) :=
  (AlikeBut.veiled n { c with cache := _ }).resolve fun _ => rfl

theorem finish_veil (c : Connection ρ) (flight : Flight ρ) :
    Turn.AlikeBut n ((c.veil n).finish (flight.veil n)) (c.finish flight) := by
  have same : (flight.veil n).error = flight.error := rfl
  cases found : flight.error with
  | none =>
    simp only [finish, same, found]
    exact finishSuccess_veil c flight
  | some report =>
    simp only [finish, same, found]
    split
    · exact (finishUnknownStatement_veil c flight).done
    · exact (finishFailure_veil c flight report).done

theorem onReadyForQuery_veil (c : Connection ρ) (name : String) (status : TransactionStatus) :
    Turn.AlikeBut n ((c.veil n).onReadyForQuery name status) (c.onReadyForQuery name status) := by
  refine withHead_veil (c := { c with transaction := status }) name fun flight rest => ?_
  have finished := finish_veil (n := n) ({ c with transaction := status, inFlight := rest }.enter
    [.finished flight.submission.number]) flight
  rw [enter_veil] at finished
  exact finished

theorem onQueryMessage_veil (c : Connection ρ) (m : BackendMessage) :
    Turn.AlikeBut n ((c.veil n).onQueryMessage m) (c.onQueryMessage m) := by
  unfold onQueryMessage
  split
  · exact onError_veil c _ _
  · exact updateHead_veil c _ fun _ => rfl
  · exact onRowDescription_veil c _ _
  · exact onNoData_veil c _
  · exact onDataRow_veil c _ _
  · exact updateHead_veil c _ fun _ => rfl
  · exact updateHead_veil c _ fun _ => rfl
  · exact updateHead_veil c _ fun _ => rfl
  · exact updateHead_veil c _ fun _ => rfl
  · exact updateHead_veil c _ fun _ => rfl
  · exact updateHead_veil c _ fun _ => rfl
  · exact onReadyForQuery_veil c _ _
  · exact (AlikeBut.veiled n c).fail _

theorem AlikeBut.sendStartup (h : AlikeBut n c d) : AlikeBut n c.sendStartup d.sendStartup :=
  h.lift (·.sendStartup) fun c =>
    ((veiled n c).queue [c.config.startupMessage]).moveTo .authenticating

theorem onConnected_veil (c : Connection ρ) :
    AlikeBut n (c.veil n).onConnected c.onConnected := by
  unfold onConnected
  change AlikeBut n (if c.config.encryption = .disable then _ else _) _
  dsimp only
  split
  · exact (AlikeBut.veiled n { c with connected := true }).sendStartup
  · exact (AlikeBut.veiled n
      { c with connected := true, awaitingEncryption := true }).queue [.sslRequest]

theorem encrypt_veil (c : Connection ρ) : Turn.AlikeBut n (c.veil n).encrypt c.encrypt := by
  have transport : (c.veil n).transport = c.transport := rfl
  have config : (c.veil n).config = c.config := rfl
  unfold encrypt
  cases channel : c.transport with
  | encrypted certificate =>
    simp only [transport, channel]
    exact (AlikeBut.veiled n c).fail _
  | plain =>
    simp only [transport, config, channel]
    cases ServerName.check c.config.host with
    | error f => exact (AlikeBut.veiled n c).fail f
    | ok _ =>
      exact (AlikeBut.veiled n
        { c with transport := .encrypted none, info := { c.info with encrypted := true } }).done

theorem onEncryptionAnswer_veil (c : Connection ρ) (answer : UInt8) :
    Turn.AlikeBut n ((c.veil n).onEncryptionAnswer answer) (c.onEncryptionAnswer answer) := by
  have awaited := AlikeBut.veiled n { c with awaitingEncryption := false }
  have encrypted := encrypt_veil (n := n) { c with awaitingEncryption := false }
  unfold onEncryptionAnswer
  split
  · change Turn.AlikeBut n (if c.inbound.buffered.isEmpty then _ else _) _
    dsimp only
    split
    · exact encrypted.andThen fun _ _ h => h.sendStartup.done
    · exact awaited.fail _
  · split
    · change Turn.AlikeBut n (if c.config.encryption = .require then _ else _) _
      dsimp only
      split
      · exact awaited.fail _
      · exact awaited.sendStartup.done
    · exact awaited.fail _

theorem withPassword_veil (c : Connection ρ) {next next' : String → Turn ρ}
    (each : ∀ password, Turn.AlikeBut n (next password) (next' password)) :
    Turn.AlikeBut n ((c.veil n).withPassword next) (c.withPassword next') := by
  have config : (c.veil n).config = c.config := rfl
  unfold withPassword
  rw [config]
  cases c.config.password with
  | some password => exact each password
  | none => exact (AlikeBut.veiled n c).fail _

theorem beginExchange_veil (c : Connection ρ) (offered : List String) :
    Turn.AlikeBut n ((c.veil n).beginExchange offered) (c.beginExchange offered) := by
  have config : (c.veil n).config = c.config := rfl
  have transport : (c.veil n).transport = c.transport := rfl
  unfold beginExchange
  rw [config, transport]
  cases Mechanism.select offered c.config.mechanisms c.config.binding c.transport.binding? with
  | error e => exact (AlikeBut.veiled n c).fail _
  | ok choice =>
    refine withPassword_veil c fun password => ?_
    let client := Scram.Client.start c.config.user password (c.nonces c.exchanges) choice.2
    have begun := (AlikeBut.veiled n c).queue
      [.saslInitial choice.1.name (Utf8.encodeChars client.first)]
    exact (begun.comm (fun c => { c with
      exchanges := c.exchanges + 1
      info := { c.info with mechanism := some choice.1 }
      auth := .challenged client }) fun _ => rfl).done

theorem onChallenge_veil (c : Connection ρ) (data : Bytes) :
    Turn.AlikeBut n ((c.veil n).onChallenge data) (c.onChallenge data) := by
  have auth : (c.veil n).auth = c.auth := rfl
  have restarted := AlikeBut.veiled n { c with auth := .started }
  unfold onChallenge
  rw [auth]
  split
  · next client _ =>
    cases client.receiveFirst data with
    | error e => exact restarted.fail _
    | ok answer =>
      have answered := (AlikeBut.veiled n c).queue [.saslResponse (Utf8.encodeChars answer.1)]
      exact (answered.comm (fun c => { c with auth := .proven answer.2 }) fun _ => rfl).done
  · exact restarted.fail _

theorem onSignature_veil (c : Connection ρ) (data : Bytes) :
    Turn.AlikeBut n ((c.veil n).onSignature data) (c.onSignature data) := by
  have auth : (c.veil n).auth = c.auth := rfl
  have restarted := AlikeBut.veiled n { c with auth := .started }
  unfold onSignature
  rw [auth]
  split
  · next client _ =>
    cases client.verifyFinal data with
    | error e => exact restarted.fail _
    | ok _ => exact (AlikeBut.veiled n { c with auth := .verified }).done
  · exact restarted.fail _

theorem onAuthenticationOk_veil (c : Connection ρ) :
    Turn.AlikeBut n (c.veil n).onAuthenticationOk c.onAuthenticationOk := by
  have auth : (c.veil n).auth = c.auth := rfl
  unfold onAuthenticationOk
  rw [auth]
  split
  · exact (AlikeBut.veiled n { c with auth := .verified }).done
  · exact (AlikeBut.veiled n { c with auth := .verified }).done
  · exact (AlikeBut.veiled n c).fail _

theorem becomeReady_veil (c : Connection ρ) : (c.veil n).becomeReady = c.becomeReady.veil n := by
  unfold becomeReady
  rw [moveTo_veil]
  dsimp only
  rw [enter_veil, Record.veil_informed]
  rfl

theorem onAuthMessage_veil (c : Connection ρ) (m : BackendMessage) :
    Turn.AlikeBut n ((c.veil n).onAuthMessage m) (c.onAuthMessage m) := by
  have same := AlikeBut.veiled n c
  unfold onAuthMessage
  split
  · exact onAuthenticationOk_veil c
  · exact withPassword_veil c fun password => (same.queue [.password password]).done
  · next salt =>
    exact withPassword_veil c fun password =>
      (same.queue [.password (passwordDigest c.config.user password salt)]).done
  · exact beginExchange_veil c _
  · exact onChallenge_veil c _
  · exact onSignature_veil c _
  · exact same.fail _
  · next status =>
    change Turn.AlikeBut n (if c.auth = .verified then _ else _) _
    split
    · exact ((AlikeBut.veiled n { c with transaction := status }).comm
        (·.becomeReady) becomeReady_veil).done
    · exact same.fail _
  · exact same.fail _

end Connection

end PgPipeline
