import PgPipeline.Proofs.Answer
import PgPipeline.Proofs.Settling

namespace PgPipeline

open scoped List

variable {ρ : Type}

namespace Batch

variable {b : Batch}

theorem forall_mem_messages {P : FrontendMessage → Prop}
    (close : ∀ old, b.evicted = some old → P (.close .statement old))
    (prepare : b.prepares = true →
      P (.parse b.statement.name b.statement.query b.statement.types) ∧
        P (.describe .statement b.statement.name))
    (execute : ∀ row ∈ b.params.rows,
      P (.bind "" b.statement.name b.params.formats row [.binary]) ∧ P (.execute "" 0))
    (sync : P .sync) : ∀ m ∈ b.messages, P m := by
  intro m mem
  simp only [messages, List.mem_append, List.mem_singleton] at mem
  rcases mem with ((closing | preparing) | executing) | rfl
  · obtain ⟨old, evicted, rfl⟩ := Option.map_eq_some_iff.mp (Option.mem_toList.mp closing)
    exact close old evicted
  · split at preparing
    · next prepares =>
      obtain ⟨parse, describe⟩ := prepare prepares
      rcases List.mem_cons.mp preparing with rfl | preparing
      · exact parse
      · exact List.mem_singleton.mp preparing ▸ describe
    · cases preparing
  · obtain ⟨row, mem, executing⟩ := List.mem_flatMap.mp executing
    obtain ⟨bind, execute⟩ := execute row mem
    rcases List.mem_cons.mp executing with rfl | executing
    · exact bind
    · exact List.mem_singleton.mp executing ▸ execute
  · exact sync

theorem isCredential_messages (b : Batch) :
    b.messages.any FrontendMessage.isCredential = false :=
  List.any_eq_false.mpr <| forall_mem_messages (fun _ _ => Bool.false_ne_true)
    (fun _ => ⟨Bool.false_ne_true, Bool.false_ne_true⟩)
    (fun _ _ => ⟨Bool.false_ne_true, Bool.false_ne_true⟩) Bool.false_ne_true

end Batch

namespace Connection

namespace SameLogin

variable {c d e : Connection ρ}

theorem of_eq (login : d.login = c.login) (transport : d.transport = c.transport)
    (record : d.record = c.record) (stage : d.stage = c.stage) : SameLogin c d :=
  ⟨login, fun _ h => transport ▸ h, .of_eq record stage⟩

theorem trans (h : SameLogin c d) (k : SameLogin d e) : SameLogin c e :=
  ⟨k.login.trans h.login, fun data hd => k.binding data (h.binding data hd),
    h.record.trans k.record⟩

theorem enter {es : List (Entry ρ)} (still : ∀ e ∈ es, e.stageAfter c.stage = c.stage)
    (h : ∀ e ∈ es, e.ofLogin = false) : SameLogin c (c.enter es) :=
  ⟨rfl, fun _ h => h, .enter still h⟩

theorem send (c : Connection ρ) (s : Submission ρ) : SameLogin c (c.send s) := by
  unfold Connection.send
  split
  · next p _ =>
    refine ⟨rfl, fun _ h => h, [.queued p.batch.messages, .sent s.number p.batch.statement.name],
      ?_, rfl, ?_⟩
    · exact List.append_assoc _ _ _
    · simp only [List.mem_cons, List.not_mem_nil, or_false, forall_eq_or_imp, forall_eq]
      exact ⟨p.batch.isCredential_messages, rfl⟩
  · exact (Settles.resolve c s _).sameLogin

theorem finished {f : Flight ρ} {t : Turn ρ} (h : Finished c f t) : SameLogin c t.after := by
  have concluded : SameLogin c (c.enter [.concluded f.submission.number f.summary]) :=
    enter (by simp [Entry.stageAfter]) (by simp [Entry.ofLogin])
  cases h with
  | told result attends => exact concluded.trans (Settles.resolve _ f.submission result).sameLogin
  | broke text attends crash =>
    exact concluded.trans (enter (by simp [Entry.stageAfter]) (by simp [Entry.ofLogin]))
  | failed cache failure =>
    have learnt : SameLogin c { c with cache } := of_eq rfl rfl rfl rfl
    exact learnt.trans (Settles.resolve _ f.submission _).sameLogin
  | again cache left kept => exact of_eq rfl rfl rfl rfl

theorem answered {m : BackendMessage} {t : Turn ρ} (h : Answered c m t) : SameLogin c t.after := by
  have offered (row : Row) (f : Flight ρ) :
      SameLogin c (c.enter [.offered f.submission.number row]) :=
    enter (by simp [Entry.stageAfter]) (by simp [Entry.ofLogin])
  cases h with
  | refused status i idle => exact of_eq rfl rfl rfl rfl
  | noted cache plain head submission tag rowsAffected => exact of_eq rfl rfl rfl rfl
  | tagged tag head => exact of_eq rfl rfl rfl rfl
  | passed values columns head unattended => exact of_eq rfl rfl rfl rfl
  | @offered f _ _ values columns head attends taken =>
    exact (offered _ f).trans (of_eq rfl rfl rfl rfl)
  | @broke f _ _ values columns head attends crash =>
    exact (offered _ f).trans (of_eq rfl rfl rfl rfl)
  | @finished f rest _ status head result =>
    have taken : SameLogin c { c with transaction := status, inFlight := rest } :=
      of_eq rfl rfl rfl rfl
    have ended : SameLogin { c with transaction := status, inFlight := rest }
        (({ c with transaction := status, inFlight := rest } : Connection ρ).enter
          [.finished f.submission.number]) :=
      enter (by simp [Entry.stageAfter]) (by simp [Entry.ofLogin])
    exact (taken.trans ended).trans (finished result)

end SameLogin

theorem onMessage_asking {c : Connection ρ} {m : BackendMessage} (asking : m.asksCredential)
    (stage : c.stage ≠ .authenticating) :
    ∃ i, c.onMessage m = ⟨c.enter [.received m], some i⟩ := by
  have stage_ : (c.enter [.received m]).stage = c.stage := rfl
  unfold onMessage
  dsimp only
  rw [stage_]
  cases m <;> cases asking
  all_goals
    dsimp only
    split
    · next h => exact absurd h stage
    all_goals exact ⟨_, rfl⟩

end Connection

namespace Turn

open Connection

/-- Every stride leaves the login alone unless it takes a message during authentication or refuses
one. -/
theorem Stride.login {K : Consumer ρ → Prop} {t u : Turn ρ} (stride : Stride K t u) :
    SameLogin t.after u.after ∨
      (∃ (c : Connection ρ) (m : BackendMessage) (i : Interruption), t = done c ∧
        c.stage ≠ .authenticating ∧ u = ⟨c.enter [.received m], some i⟩) ∨
      ∃ (c : Connection ρ) (m : BackendMessage), t = done c ∧ c.stage = .authenticating ∧
        u = (c.enter [.received m]).onAuthMessage m := by
  cases stride with
  | idle same => exact .inl same.aside.sameLogin
  | submit query params consumer allowed =>
    exact .inl (Settles.submit _ query params consumer).sameLogin
  | tell cause => exact .inl (Settles.abort _ cause).sameLogin
  | @message c m alive =>
    have received (quiet : m.asksCredential = false) : SameLogin c (c.enter [.received m]) :=
      .enter (by simp [Entry.stageAfter]) (by simp [Entry.ofLogin, quiet])
    rcases onMessage_cases c m with ⟨aside, info, e⟩ | ⟨_, stage, e⟩ | ⟨_, stage, e⟩ |
        ⟨_, stage, _, i, e⟩
    · have quiet : m.asksCredential = false := by cases m <;> first | rfl | cases aside
      exact .inl (e ▸ (received quiet).trans (.of_eq rfl rfl rfl rfl))
    · exact .inr (.inr ⟨c, m, rfl, stage, e⟩)
    · cases asking : m.asksCredential with
      | false => exact .inl (e ▸ (received asking).trans (.answered (onQueryMessage_answered _ m)))
      | true =>
        have elsewhere : c.stage ≠ .authenticating := by
          rcases stage with ready | closing
          · exact fun h => absurd (ready.symm.trans h) (by decide)
          · exact fun h => absurd (closing.symm.trans h) (by decide)
        obtain ⟨i, refused⟩ := onMessage_asking asking elsewhere
        exact .inr (.inl ⟨c, m, i, rfl, elsewhere, refused⟩)
    · exact .inr (.inl ⟨c, m, i, rfl, stage, e⟩)
  | collect => exact .inl (.of_eq rfl rfl rfl rfl)
  | close => exact .inl (Settles.beginClose _).sameLogin
  | drop => exact .inl (Settles.dropCancelled _).sameLogin
  | @send c s rest ready first =>
    have taken : SameLogin c { c with pending := rest } := .of_eq rfl rfl rfl rfl
    exact .inl (taken.trans (.send _ s))

theorem Stride.extends {K : Consumer ρ → Prop} {t u : Turn ρ} (stride : Stride K t u) :
    Extends (fun _ => True) t.after u.after := by
  have received (c : Connection ρ) (m : BackendMessage) :
      Extends (fun _ => True) c (c.enter [.received m]) :=
    .enter (by simp [Entry.stageAfter]) (by simp)
  rcases stride.login with same | ⟨c, m, i, rfl, _, rfl⟩ | ⟨c, m, rfl, _, rfl⟩
  · exact same.record.weaken fun _ _ => trivial
  · exact received c m
  · exact (received c m).trans
      ((SameWork.onAuthMessage _ m).record.weaken fun _ _ => trivial)

theorem moves_record {K : Consumer ρ → Prop} {t u : Turn ρ} (moves : Moves K t u) :
    t.after.record <+: u.after.record := by
  induction moves with
  | refl => exact List.prefix_refl _
  | tail _ move ih =>
    obtain ⟨es, more, _⟩ := move.stride.extends
    exact ih.trans ⟨es, more.symm⟩

end Turn

namespace Connection

def Told (c : Connection ρ) : Prop := Record.stage c.record = c.stage

theorem Told.goOn {kind : Entry ρ → Prop} {c d : Connection ρ} (h : c.Told)
    (more : Extends kind c d) : d.Told := by
  obtain ⟨es, record, stage, _⟩ := more
  rw [Told, record, Record.stage_append, h, stage]

theorem Told.step {K : Consumer ρ → Prop} {t u : Turn ρ} (stride : Turn.Stride K t u)
    (h : t.after.Told) : u.after.Told := h.goOn stride.extends

end Connection

end PgPipeline
