import PgPipeline.Proofs.Login

namespace PgPipeline

variable {ρ : Type}

namespace Connection

/-- An end that has begun has its cause. -/
def EndsForCause (c : Connection ρ) : Prop := c.stage.isEnding → c.inbox.closedBy ≠ none

namespace EndsForCause

variable {c d : Connection ρ}

theorem keep (h : c.EndsForCause) (stage : d.stage.isEnding → c.stage.isEnding)
    (closedBy : d.inbox.closedBy = c.inbox.closedBy) : d.EndsForCause := by
  intro ending
  rw [closedBy]
  exact h (stage ending)

theorem onMessage_ending {m : BackendMessage} (h : (c.onMessage m).after.stage.isEnding) :
    c.stage.isEnding := by
  rcases onMessage_cases c m with ⟨_, _, e⟩ | ⟨_, _, e⟩ | ⟨_, _, e⟩ | ⟨_, _, _, _, e⟩ <;> rw [e] at h
  · exact h
  · rcases onAuthMessage_stage (c.enter [.received m]) m with same | ready
    · rwa [same] at h
    · rw [ready] at h
      cases h
  · rwa [onQueryMessage_stage] at h
  · exact h

theorem onMessage_closedBy (c : Connection ρ) (m : BackendMessage) :
    (c.onMessage m).after.inbox.closedBy = c.inbox.closedBy := by
  rcases onMessage_cases c m with ⟨_, _, e⟩ | ⟨_, _, e⟩ | ⟨_, _, e⟩ | ⟨_, _, _, _, e⟩ <;> rw [e]
  · rfl
  · exact congrArg Work.closedBy (SameWork.onAuthMessage (c.enter [.received m]) m).work
  · exact congrArg Inbox.closedBy (onQueryMessage_answered (c.enter [.received m]) m).inbox
  · rfl

theorem abort (h : c.EndsForCause) (cause : Failure) : (c.abort cause).inbox.closedBy ≠ none := by
  unfold Connection.abort
  split
  · next closed => exact h (closed ▸ rfl)
  · have closedBy := (failAll_frame (c.moveTo .closed) cause).2.1
    exact fun opened => absurd (closedBy.symm.trans opened) (Option.some_ne_none _)

theorem beginClose (h : c.EndsForCause) : c.beginClose.inbox.closedBy ≠ none := by
  unfold Connection.beginClose
  split
  · have closedBy := (congrArg Work.closedBy (Aside.leave (c.failAll .closed)).work).trans
      (failAll_frame c .closed).2.1
    exact fun opened => absurd (closedBy.symm.trans opened) (Option.some_ne_none _)
  · exact h.abort .closed

theorem step {K : Consumer ρ → Prop} {t u : Turn ρ} (stride : Turn.Stride K t u)
    (h : t.after.EndsForCause) : u.after.EndsForCause := by
  cases stride with
  | idle same => exact h.keep same.ending (congrArg Work.closedBy same.aside.work)
  | submit query params consumer allowed =>
    unfold Turn.request Connection.submit
    dsimp only
    split <;> exact h
  | tell cause => exact fun _ => h.abort cause
  | message m alive => exact h.keep onMessage_ending (onMessage_closedBy _ m)
  | collect => exact h
  | close => exact fun _ => h.beginClose
  | drop =>
    rw [Turn.done, dropCancelled_eq]
    obtain ⟨_, _, all⟩ := resolveAll_eq _ _ _
    rw [all]
    exact h
  | send ready first =>
    unfold Connection.send
    split <;> exact h

end EndsForCause

/-- An end that has a cause is over, or the record tells of its beginning. -/
def EndIsTold (c : Connection ρ) : Prop :=
  c.inbox.closedBy ≠ none → c.stage = .closed ∨ .moved .closing ∈ c.record

namespace EndIsTold

variable {c d : Connection ρ}

theorem goOn {kind : Entry ρ → Prop} (h : c.EndIsTold) (more : Extends kind c d)
    (closedBy : d.inbox.closedBy = c.inbox.closedBy)
    (closed : c.stage = .closed → d.stage = .closed) : d.EndIsTold := by
  intro ended
  obtain ⟨es, record, _, _⟩ := more
  rcases h (closedBy ▸ ended) with shut | told
  · exact .inl (closed shut)
  · exact .inr (record ▸ List.mem_append_left _ told)

theorem endChannel_stage (c : Connection ρ) : c.endChannel.stage = c.stage := by
  unfold Connection.endChannel
  split <;> rfl

theorem beginClose (c : Connection ρ) : c.beginClose.EndIsTold := by
  intro _
  unfold Connection.beginClose
  split
  · next ready =>
    have still : (((c.failAll .closed).queue [.terminate]).endChannel).stage = .ready :=
      (endChannel_stage _).trans ((failAll_stage c .closed).trans ready)
    rw [moveTo, if_neg fun leaving => absurd (still.symm.trans leaving) (by decide)]
    exact .inr (List.mem_append_right _ List.mem_cons_self)
  · exact .inl (abort_stage c .closed)

theorem step {K : Consumer ρ → Prop} {t u : Turn ρ} (stride : Turn.Stride K t u)
    (h : t.after.EndIsTold) : u.after.EndIsTold := by
  have more := stride.extends
  cases stride with
  | idle same => exact h.goOn more (congrArg Work.closedBy same.aside.work) same.closed
  | submit query params consumer allowed =>
    refine h.goOn more (submit_frame _ query params consumer).2.1 fun closed => ?_
    exact (submit_stage _ query params consumer).trans closed
  | tell cause => exact fun _ => .inl (abort_stage _ cause)
  | message m alive =>
    exact h.goOn more (EndsForCause.onMessage_closedBy _ m) fun closed => absurd closed alive
  | collect => exact h
  | close => exact beginClose _
  | @drop c =>
    exact h.goOn more (congrArg Inbox.closedBy (dropCancelled_frame c).2.1)
      (dropCancelled_stage c).trans
  | send ready first =>
    refine h.goOn more ?_ fun closed => absurd (ready.symm.trans closed) (by decide)
    unfold Connection.send
    split <;> rfl

end EndIsTold

end Connection

end PgPipeline
