import PgPipeline.Proofs.Exchange
import PgPipeline.Proofs.Selection

namespace PgPipeline

variable {ρ : Type}

theorem Mechanism.select_require {offered preferred : List String} {binding : Option Bytes}
    {m : Mechanism} {mode : BindingMode}
    (h : select offered preferred .require binding = .ok (m, mode)) :
    m = .scramPlus ∧ ∃ data, binding = some data ∧ mode = .endPoint data := by
  obtain ⟨eligible, uses, -⟩ := foremost_of_select h
  cases uses with
  | bound known => exact ⟨rfl, _, known, rfl⟩
  | able | unable => exact absurd rfl eligible.usable

/-- The latest exchange of the record is bound to the channel, and the server has proved itself
in it. -/
def Bound (t : Terms) (es : List (Entry ρ)) : Prop :=
  ∃ (o : Opening) (earlier later : List (Entry ρ)) (data : Bytes), o.Fits t ∧
    o.mechanism = .scramPlus ∧ o.mode = .endPoint data ∧ t.binding = some data ∧
    es = earlier ++ o.entries (o.client t (Record.exchanges earlier)) ++ later ∧
    Record.exchanges later = 0 ∧ Verified (o.client t (Record.exchanges earlier)) later

theorem Mutual.bound {t : Terms} {es : List (Entry ρ)} (h : Mutual t es)
    (required : t.config.binding = .require) (begun : Record.exchanges es ≠ 0) : Bound t es := by
  obtain ⟨client, later, ⟨o, earlier, fits, rfl, record, last⟩, verified⟩ := h.resolve_left begun
  have chosen := fits.chosen
  rw [required] at chosen
  obtain ⟨mechanism, data, known, mode⟩ := Mechanism.select_require chosen
  exact ⟨o, earlier, later, data, fits, mechanism, mode, fits.live data known, record, last,
    verified⟩

/-- Whenever the server asked for the password during authentication, there was none. -/
def Futile (password : Option String) (es : List (Entry ρ)) : Prop :=
  Record.Each (fun before e => ∀ m, e = .received m → Record.stage before = .authenticating →
    m.asksPassword → password = none) es

def Exchanged (es : List (Entry ρ)) : Prop :=
  (∃ offered, .received (.sasl offered) ∈ es) → Record.exchanges es ≠ 0

/-- What the record says about the requests of the server: a password is sent when one is asked for
during authentication and there is one, and not otherwise. -/
structure Asked (password : Option String) (es : List (Entry ρ)) : Prop where
  sought : Record.Each (fun before e => e.discloses → password ≠ none ∧
    ∃ earlier m, before = earlier ++ [.received m] ∧ Record.stage earlier = .authenticating ∧
      m.asksPassword) es
  futile : (∀ e ∈ es, e.discloses = false) → Futile password es
  ready : Record.Each (fun before e => e = .moved .ready → Exchanged before) es

namespace Asked

variable {password : Option String} {es fs : List (Entry ρ)}

theorem nil : Asked password ([] : List (Entry ρ)) :=
  ⟨Record.each_nil, fun _ => Record.each_nil, Record.each_nil⟩

theorem goOn (h : Asked password es) (silent : ∀ e ∈ fs, e.discloses = false)
    (own : ∀ e ∈ fs, ∀ m, e = .received m → m.asksPassword = false)
    (unready : ∀ e ∈ fs, e ≠ .moved .ready) : Asked password (es ++ fs) := by
  refine ⟨?_, fun all => ?_, ?_⟩
  · refine Record.each_append_of_forall h.sought fun e he _ discloses => ?_
    exact absurd ((silent e he).symm.trans discloses) (by decide)
  · have before := h.futile fun e he => all e (List.mem_append_left _ he)
    refine Record.each_append_of_forall before fun e he _ m received _ asks => ?_
    exact absurd ((own e he m received).symm.trans asks) (by decide)
  · exact Record.each_append_of_forall h.ready fun e he _ ready => absurd ready (unready e he)

theorem quiet (h : Asked password es) (quiet : ∀ e ∈ fs, e.ofLogin = false) :
    Asked password (es ++ fs) := by
  refine h.goOn (fun e he => Entry.discloses_eq_false (quiet e he)) ?_ ?_
  · rintro e he m rfl
    have silent : m.asksCredential = false := quiet _ he
    cases m <;> first | rfl | cases silent
  · rintro e he rfl
    exact absurd (quiet _ he) (by simp [Entry.ofLogin])

theorem received (h : Asked password es) (m : BackendMessage)
    (unasked : Record.stage es = .authenticating → m.asksPassword → password = none) :
    Asked password (es ++ [.received m]) := by
  refine ⟨Record.each_snoc h.sought ?_, fun all => ?_, Record.each_snoc h.ready ?_⟩
  · intro discloses
    cases discloses
  · have before := h.futile fun e he => all e (List.mem_append_left _ he)
    refine Record.each_snoc before ?_
    rintro m' same stage asks
    cases same
    exact unasked stage asks
  · intro ready
    cases ready

theorem disclosed (h : Asked password es) {m : BackendMessage} (secret : String)
    (asked : m.asksPassword) (stage : Record.stage es = .authenticating)
    (known : password ≠ none) :
    Asked password (es ++ [.received m] ++ [.queued [.password secret]]) := by
  refine ⟨Record.each_snoc (Record.each_snoc h.sought ?_) ?_, fun all => ?_,
    Record.each_snoc (Record.each_snoc h.ready ?_) ?_⟩
  · intro discloses
    cases discloses
  · exact fun _ => ⟨known, es, m, rfl, stage, asked⟩
  · have silent := all (.queued [.password secret]) (by simp)
    cases silent
  · intro ready
    cases ready
  · intro ready
    cases ready

theorem opened (h : Asked password es) (exchanged : Exchanged es) :
    Asked password (es ++ [.moved .ready]) := by
  refine ⟨Record.each_snoc h.sought ?_, fun all => ?_, Record.each_snoc h.ready fun _ => exchanged⟩
  · intro discloses
    cases discloses
  · have before := h.futile fun e he => all e (List.mem_append_left _ he)
    refine Record.each_snoc before ?_
    intro m received
    cases received

end Asked

theorem Exchanged.goOn {es fs : List (Entry ρ)} (h : Exchanged es)
    (own : ∀ e ∈ fs, ∀ offered, e ≠ .received (.sasl offered)) : Exchanged (es ++ fs) := by
  rintro ⟨offered, asked⟩ none_
  rw [Record.exchanges_append] at none_
  rcases List.mem_append.mp asked with before | now
  · exact h ⟨offered, before⟩ (Nat.eq_zero_of_add_eq_zero_right none_)
  · exact own _ now offered rfl

namespace Turn

open Connection

structure Answering (t : Turn ρ) : Prop where
  told : t.after.Told
  asked : Asked t.after.config.password t.after.record
  exchanged : t.GoesOn → Exchanged t.after.record

namespace Answering

variable {t u : Turn ρ} {c : Connection ρ}

theorem sameLogin (h : Answering t) (same : SameLogin t.after u.after)
    (goesOn : u.GoesOn → t.GoesOn) : Answering u := by
  obtain ⟨es, record, _, quiet⟩ := same.record
  have config : u.after.config = t.after.config := congrArg Login.config same.login
  refine ⟨h.told.goOn same.record, ?_, fun goes => ?_⟩
  · rw [record, config]
    exact h.asked.quiet quiet
  · rw [record]
    refine (h.exchanged (goesOn goes)).goOn ?_
    rintro e he offered rfl
    exact absurd (quiet _ he) (by simp [Entry.ofLogin, BackendMessage.asksCredential])

theorem greeted {m : BackendMessage} (h : Answering (done c)) (stage : c.stage = .authenticating)
    (told : u.after.Told) (k : Greeted (c.enter [.received m]) m u) : Answering u := by
  have asked : Asked c.config.password c.record := h.asked
  have goesOn : GoesOn (done c) := .of_stage stage (by decide)
  have exchanged : Exchanged c.record := h.exchanged goesOn
  have authenticating : Record.stage c.record = .authenticating := Eq.trans h.told stage
  have received (unasked : m.asksPassword = false) :
      Asked c.config.password (c.record ++ [.received m]) :=
    asked.received m fun _ asks => absurd (unasked.symm.trans asks) (by decide)
  cases k with
  | refused auth i unknown =>
    refine ⟨told, asked.received m fun _ asks => unknown asks, ?_⟩
    exact fun goesOn => absurd goesOn.1 (by simp)
  | satisfied free => exact ⟨told, received rfl, fun _ => exchanged.goOn (by simp)⟩
  | disclosed secret asks known =>
    refine ⟨told, asked.disclosed secret asks authenticating ?_, fun _ => ?_⟩
    · exact fun unknown => absurd (unknown.symm.trans known) (by simp)
    · have asked_ : Exchanged (c.record ++ [.received m]) := by
        refine exchanged.goOn ?_
        rintro e he offered rfl
        cases List.mem_singleton.mp he
        cases asks
      exact asked_.goOn (by simp)
  | began chosen known made =>
    refine ⟨told, (received rfl).goOn ?_ ?_ ?_, fun _ _ none_ => ?_⟩
    · simp [Entry.discloses, FrontendMessage.isPassword]
    · simp
    · simp
    · have none_ := (Record.exchanges_append _ _).symm.trans none_
      exact Nat.succ_ne_zero _ none_
  | proved waiting accepted =>
    refine ⟨told, (received rfl).goOn ?_ ?_ ?_, fun _ => (exchanged.goOn ?_).goOn ?_⟩
    · simp [Entry.discloses, FrontendMessage.isPassword]
    all_goals simp
  | verified waiting signed => exact ⟨told, received rfl, fun _ => exchanged.goOn (by simp)⟩
  | opened status verified =>
    obtain ⟨inbox, informed, quiet, eq⟩ := becomeReady_eq (c := { c.enter
      [.received (.readyForQuery status)] with transaction := status })
      fun ready => absurd (stage.symm.trans ready) (by decide)
    have before : Exchanged (c.record ++ [.received (.readyForQuery status)]) :=
      exchanged.goOn (by simp)
    rw [eq] at told ⊢
    refine ⟨told, ((received rfl).opened before).quiet quiet, fun _ => ?_⟩
    have opened : Exchanged (c.record ++ [.received (.readyForQuery status)] ++ [.moved .ready]) :=
      before.goOn (by simp)
    refine opened.goOn ?_
    rintro e he offered rfl
    exact absurd (quiet _ he) (by simp [Entry.ofLogin, BackendMessage.asksCredential])

theorem step {K : Consumer ρ → Prop} (stride : Stride K t u) (h : Answering t) : Answering u := by
  have told : u.after.Told := h.told.step stride
  rcases stride.login with same | ⟨c, m, i, rfl, elsewhere, rfl⟩ | ⟨c, m, rfl, stage, rfl⟩
  · exact h.sameLogin same stride.goesOn
  · have asked : Asked c.config.password c.record := h.asked
    refine ⟨told, asked.received m fun stage => ?_, fun goesOn => absurd goesOn.1 (by simp)⟩
    exact absurd (Eq.trans h.told.symm stage) elsewhere
  · exact h.greeted stage told (onAuthMessage_greeted _ m)

end Answering

theorem run_answering (config : Config) (nonces : Nat → List Char) (actions : List (Action ρ)) :
    Answering ((done (.start config nonces)).run actions) :=
  have start : Answering (done (Connection.start (ρ := ρ) config nonces)) :=
    ⟨rfl, .nil, fun _ => by rintro ⟨_, none_⟩; cases none_⟩
  run_induction start Answering.step fun a _ => allows_any a

/-- A connection that requires channel binding keeps to it exactly if the server never asks for the
password that there is during authentication, and has asked for an exchange before the connection
becomes ready. -/
theorem run_binds_channel_iff {config : Config} (required : config.binding = .require)
    (nonces : Nat → List Char) (actions : List (Action ρ)) :
    let c : Connection ρ := ((done (.start config nonces)).run actions).after
    ((∀ m ∈ Record.queued c.record, m.isPassword = false) ∧
      ∀ before after, c.record = before ++ .moved .ready :: after →
        Bound ⟨config, nonces, c.transport.binding?⟩ before) ↔
    (∀ before m after, c.record = before ++ .received m :: after →
      Record.stage before = .authenticating → m.asksPassword → config.password = none) ∧
      ∀ before after, c.record = before ++ .moved .ready :: after →
        ∃ offered, .received (.sasl offered) ∈ before := by
  intro c
  have authentic := run_authentic config nonces actions
  have answering := run_answering config nonces actions
  have terms : c.terms = ⟨config, nonces, c.transport.binding?⟩ :=
    congrArg₂ (Terms.mk · · c.transport.binding?) authentic.settings.1 authentic.settings.2
  have asked : Asked config.password c.record := authentic.settings.1 ▸ answering.asked
  constructor
  · rintro ⟨secret, bound⟩
    refine ⟨?_, fun before after record => ?_⟩
    · intro before m after record stage asks
      have none_ := Record.forall_isPassword_iff.mp secret
      exact asked.futile none_ before _ after record m rfl stage asks
    · obtain ⟨o, earlier, later, _, _, _, _, _, rfl, _⟩ := bound before after record
      exact ⟨o.offered, by simp [Opening.entries]⟩
  · rintro ⟨futile, exchanged⟩
    refine ⟨Record.forall_isPassword_iff.mpr fun e he => ?_, fun before after record => ?_⟩
    · obtain ⟨before, after, record⟩ := List.append_of_mem he
      refine Bool.eq_false_iff.mpr fun discloses => ?_
      obtain ⟨known, earlier, m, rfl, stage, asks⟩ := asked.sought before e after record discloses
      exact known (futile earlier m (e :: after) (by rw [record]; simp) stage asks)
    · have begun := asked.ready before _ after record rfl (exchanged before after record)
      rw [← terms]
      refine Mutual.bound (authentic.ready before _ after record rfl) ?_ begun
      rw [terms]
      exact required

theorem run_binds_channel_without_password :
    let config : Config := { Config.default with binding := .require }
    let actions : List (Action Nat) :=
      [.dispatch .connected (.quiet []), .dispatch .readable (.giving [0x4e] []),
        .dispatch .readable (.giving [0x52, 0, 0, 0, 8, 0, 0, 0, 3] [])]
    config.binding = .require ∧
      ∀ m ∈ Record.queued ((done (.start config fun _ => [])).run actions).after.record,
        m.isPassword = false := by
  intro config actions
  refine ⟨rfl, ((run_binds_channel_iff rfl (fun _ => []) actions).mpr ⟨?_, ?_⟩).1⟩
  · exact fun _ _ _ _ _ _ => rfl
  · intro before after record
    have stages : (((done (.start config fun _ => [])).run actions).after.record.any fun e =>
        e.stageAfter .connecting == .ready) = false := by decide +kernel
    rw [record] at stages
    simp [Entry.stageAfter] at stages

/-- Nothing else keeps a connection to its requirement: here the server refuses encryption, gets the
password itself, and the connection becomes ready without any exchange. -/
theorem run_ready_unbound :
    let config : Config := { Config.default with binding := .require, password := some "secret" }
    let actions : List (Action Nat) :=
      [.dispatch .connected (.quiet []), .dispatch .readable (.giving [0x4e] []),
        .dispatch .readable (.giving [0x52, 0, 0, 0, 8, 0, 0, 0, 3, 0x52, 0, 0, 0, 8, 0, 0, 0, 0,
          0x5a, 0, 0, 0, 5, 0x49] [])]
    let c := ((done (.start config fun _ => [])).run actions).after
    config.validate = .ok () ∧ config.binding = .require ∧ c.stage = .ready ∧
      .password "secret" ∈ Record.queued c.record ∧ Record.exchanges c.record = 0 := by
  refine ⟨rfl, rfl, ?_, ?_, ?_⟩ <;> decide +kernel

end Turn

end PgPipeline
