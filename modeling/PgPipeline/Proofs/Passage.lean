import PgPipeline.Proofs.Outflow

namespace PgPipeline

variable {ρ : Type}

def Entry.message? : Entry ρ → Option BackendMessage
  | .received message => some message
  | _ => none

namespace Record

def received (es : List (Entry ρ)) : List BackendMessage := es.filterMap Entry.message?

@[simp] theorem received_append (as bs : List (Entry ρ)) :
    received (as ++ bs) = received as ++ received bs := List.filterMap_append

end Record

namespace Connection

structure Line where
  config : Config
  transport : Transport
  connected : Bool
  awaitingEncryption : Bool
  inbound : Inbound

def line (c : Connection ρ) : Line :=
  ⟨c.config, c.transport, c.connected, c.awaitingEncryption, c.inbound⟩

structure Passes (ms : List BackendMessage) (qs : List FrontendMessage) (c d : Connection ρ) :
    Prop where
  line : d.line = c.line
  record : ∃ es, d.record = c.record ++ es ∧ Record.received es = ms ∧ Record.queued es = qs

namespace Passes

variable {ms ns : List BackendMessage} {qs rs : List FrontendMessage} {c d e : Connection ρ}

theorem of_eq (line : d.line = c.line) (record : d.record = c.record) : Passes [] [] c d :=
  ⟨line, [], by rw [record, List.append_nil], rfl, rfl⟩

theorem refl (c : Connection ρ) : Passes [] [] c c := of_eq rfl rfl

theorem trans (h : Passes ms qs c d) (k : Passes ns rs d e) :
    Passes (ms ++ ns) (qs ++ rs) c e := by
  obtain ⟨as, first, taken, queued⟩ := h.record
  obtain ⟨bs, second, more, later⟩ := k.record
  refine ⟨k.line.trans h.line, as ++ bs, ?_, ?_, ?_⟩
  · rw [second, first, List.append_assoc]
  · rw [Record.received_append, taken, more]
  · rw [Record.queued_append, queued, later]

theorem after (k : Passes ms qs d e) (h : Passes [] [] c d) : Passes ms qs c e := h.trans k

theorem before (h : Passes ms qs c d) (k : Passes [] [] d e) : Passes ms qs c e := by
  have both := h.trans k
  rwa [List.append_nil, List.append_nil] at both

theorem enter (c : Connection ρ) (es : List (Entry ρ)) :
    Passes (Record.received es) (Record.queued es) c (c.enter es) :=
  ⟨rfl, es, rfl, rfl, rfl⟩

theorem note {es : List (Entry ρ)}
    (other : ∀ e ∈ es, e.message? = none ∧ e.queuedMessages = []) :
    Passes [] [] c (c.enter es) := by
  refine ⟨rfl, es, rfl, ?_, ?_⟩
  · exact List.filterMap_eq_nil_iff.mpr fun e mem => (other e mem).1
  · exact List.flatMap_eq_nil_iff.mpr fun e mem => (other e mem).2

theorem moveTo (c : Connection ρ) (stage : Stage) : Passes [] [] c (c.moveTo stage) := by
  unfold Connection.moveTo
  split
  · exact refl c
  · exact ⟨rfl, [.moved stage], rfl, rfl, rfl⟩

theorem begin (c : Connection ρ) : Passes [] [] c c.begin := by
  unfold Connection.begin
  split
  · exact moveTo c .connecting
  · exact refl c

theorem queue (c : Connection ρ) (messages : List FrontendMessage) :
    Passes [] messages c (c.queue messages) :=
  ⟨rfl, [.queued messages], rfl, rfl, List.append_nil _⟩

theorem sendStartup (c : Connection ρ) : Passes [] [c.config.startupMessage] c c.sendStartup :=
  (queue c _).before (moveTo _ .authenticating)

theorem resolveAll (c : Connection ρ) (ss : List (Submission ρ)) (result : Except Failure ρ) :
    Passes [] [] c (c.resolveAll ss result) := by
  obtain ⟨sequencer, rs, all⟩ := resolveAll_eq c ss result
  rw [all]
  have told : Passes [] [] c (c.enter (rs.map .resolved)) :=
    note (by simp [Entry.message?, Entry.queuedMessages])
  exact told.before (of_eq rfl rfl)

theorem resolve (c : Connection ρ) (number : Nat) (result : Except Failure ρ) :
    Passes [] [] c (c.resolve number result) := by
  have told : Passes [] [] c (c.enter ((c.sequencer.resolve number ⟨number, result⟩).1.map
    .resolved)) := note (by simp [Entry.message?, Entry.queuedMessages])
  exact told.before (of_eq rfl rfl)

theorem refuseAll (c : Connection ρ) (cause : Failure) : Passes [] [] c (c.refuseAll cause) := by
  unfold Connection.refuseAll
  dsimp only
  split
  · exact (note (by simp [Entry.message?, Entry.queuedMessages])).after (of_eq rfl rfl)
  · exact of_eq rfl rfl

theorem failAll (c : Connection ρ) (cause : Failure) : Passes [] [] c (c.failAll cause) := by
  have emptied : Passes [] [] (c.refuseAll cause) { c.refuseAll cause with
      inFlight := [], pending := [], inbox := { (c.refuseAll cause).inbox with queue := [] } } :=
    of_eq rfl rfl
  have released (d : Connection ρ) : Passes [] [] d d.releaseHeld := by
    refine (note fun e mem => ?_).after (of_eq rfl rfl)
    obtain ⟨r, _, rfl⟩ := List.mem_map.mp mem
    exact ⟨rfl, rfl⟩
  exact (((refuseAll c cause).trans emptied).trans (resolveAll _ _ _)).trans (released _)

theorem abort (c : Connection ρ) (cause : Failure) : Passes [] [] c (c.abort cause) := by
  unfold Connection.abort
  split
  · exact refl c
  · exact ((moveTo c .closed).trans (failAll _ cause)).before (of_eq rfl rfl)

theorem beginClose (c : Connection ρ) :
    ∃ qs, Passes [] qs c c.beginClose ∧ (c.stage ≠ .ready → qs = []) := by
  unfold Connection.beginClose
  split
  · next ready =>
    have ended (d : Connection ρ) : Passes [] [] d d.endChannel := by
      unfold endChannel
      split
      · exact refl d
      · exact note (by simp [Entry.message?, Entry.queuedMessages])
    refine ⟨[.terminate], ?_, fun other => absurd ready other⟩
    exact (((queue _ [.terminate]).after (failAll c .closed)).before (ended _)).before (moveTo _ _)
  · exact ⟨[], abort c .closed, fun _ => rfl⟩

theorem dropCancelled (c : Connection ρ) : Passes [] [] c c.dropCancelled := by
  rw [dropCancelled_eq]
  exact (resolveAll _ _ _).after (of_eq rfl rfl)

theorem send (c : Connection ρ) (s : Submission ρ) : ∃ qs, Passes [] qs c (c.send s) := by
  unfold Connection.send
  split
  · next p _ =>
    refine ⟨p.batch.messages, ?_⟩
    have cached : Passes [] [] c { c with cache := p.cache } := of_eq rfl rfl
    refine before ?_ (note (by simp [Entry.message?, Entry.queuedMessages]))
    exact ((queue _ _).after cached).before (of_eq rfl rfl)
  · exact ⟨[], resolve c s.number _⟩

theorem sendAll (c : Connection ρ) (ss : List (Submission ρ)) :
    ∃ qs, Passes [] qs c (ss.foldl .send c) := by
  induction ss generalizing c with
  | nil => exact ⟨[], refl c⟩
  | cons s rest ih =>
    obtain ⟨qs, first⟩ := send c s
    obtain ⟨rs, others⟩ := ih (c.send s)
    exact ⟨qs ++ rs, first.trans others⟩

theorem pump (c : Connection ρ) : ∃ qs, Passes [] qs c c.pump := by
  have collected : Passes [] [] c c.collect := of_eq rfl rfl
  unfold Connection.pump
  dsimp only
  split
  · obtain ⟨qs, closed, _⟩ := beginClose c.collect
    exact ⟨qs, closed.after collected⟩
  · have dropped := collected.before (dropCancelled c.collect)
    split
    · have emptied : Passes [] [] c.collect.dropCancelled
          { c.collect.dropCancelled with pending := [] } := of_eq rfl rfl
      obtain ⟨qs, all⟩ := sendAll { c.collect.dropCancelled with pending := [] }
        c.collect.dropCancelled.pending
      exact ⟨qs, all.after (dropped.before emptied)⟩
    · exact ⟨[], dropped⟩

theorem write (c : Connection ρ) (socket : Socket) : Passes [] [] c (c.write socket).after := by
  rcases c.write_cases socket with ⟨e, _⟩ | ⟨_, _, writes⟩
  · exact e ▸ refl c
  · generalize c.outbound.writeTo socket.writes = w at writes
    have flushed : Passes [] [] c (c.flush w) := by
      refine (note fun e mem => ?_).after (of_eq rfl rfl)
      split at mem
      · cases mem
      · rw [List.mem_singleton.mp mem]
        exact ⟨rfl, rfl⟩
    generalize c.write socket = t at writes
    cases writes with
    | left => exact flushed.before (moveTo _ _)
    | drained | blocked | failed => exact flushed

theorem submit (c : Connection ρ) (query : String) (params : List Param) (consumer : Consumer ρ) :
    Passes [] [] c (c.submit query params consumer).2 := by
  unfold Connection.submit
  dsimp only
  split
  · exact (note (by simp [Entry.message?, Entry.queuedMessages])).after (of_eq rfl rfl)
  · exact of_eq rfl rfl

theorem cancel (c : Connection ρ) (number : Nat) : Passes [] [] c (c.cancel number) := by
  unfold Connection.cancel
  split
  · exact of_eq rfl rfl
  · exact refl c

theorem awaitReady (c : Connection ρ) : Passes [] [] c c.awaitReady.2 := by
  unfold Connection.awaitReady
  dsimp only
  split
  · exact of_eq rfl rfl
  all_goals exact (note (by simp [Entry.message?, Entry.queuedMessages])).after (of_eq rfl rfl)

theorem request (t : Turn ρ) {a : Action ρ} (asked : ∀ event socket, a ≠ .dispatch event socket) :
    Passes [] [] t.after (t.act a).after := by
  cases a with
  | submit query params consumer => exact submit _ query params consumer
  | cancel number => exact cancel _ number
  | awaitReady => exact awaitReady _
  | requestClose => exact of_eq rfl rfl
  | dispatch event socket => exact absurd rfl (asked event socket)
  | tell cause => exact abort _ _

theorem becomeReady (c : Connection ρ) : Passes [] [] c c.becomeReady := by
  refine (note fun e mem => ?_).after ((moveTo c .ready).before (of_eq rfl rfl))
  obtain ⟨w, _, rfl⟩ := List.mem_map.mp mem
  exact ⟨rfl, rfl⟩

theorem onAuthMessage (c : Connection ρ) (m : BackendMessage) :
    ∃ qs, Passes [] qs c (c.onAuthMessage m).after := by
  have greeted := onAuthMessage_greeted c m
  generalize c.onAuthMessage m = t at greeted
  cases greeted with
  | refused | satisfied | verified => exact ⟨[], of_eq rfl rfl⟩
  | disclosed => exact ⟨_, queue c _⟩
  | began | proved => exact ⟨_, (queue c _).before (of_eq rfl rfl)⟩
  | opened status =>
    have told : Passes [] [] c { c with transaction := status } := of_eq rfl rfl
    exact ⟨[], told.trans (becomeReady _)⟩

theorem finished {f : Flight ρ} {t : Turn ρ} (h : Finished c f t) : Passes [] [] c t.after := by
  have concluded : Passes [] [] c (c.enter [.concluded f.submission.number f.summary]) :=
    note (by simp [Entry.message?, Entry.queuedMessages])
  cases h with
  | told => exact concluded.trans (resolve _ _ _)
  | broke => exact concluded.trans (note (by simp [Entry.message?, Entry.queuedMessages]))
  | failed cache =>
    have forgot : Passes [] [] c { c with cache } := of_eq rfl rfl
    exact forgot.trans (resolve _ _ _)
  | again => exact of_eq rfl rfl

theorem answered {m : BackendMessage} {t : Turn ρ} (h : Answered c m t) :
    Passes [] [] c t.after := by
  cases h with
  | offered | broke => exact ⟨rfl, _, rfl, rfl, rfl⟩
  | finished status head result => exact (finished result).after ⟨rfl, _, rfl, rfl, rfl⟩
  | _ => exact of_eq rfl rfl

/-- A message is answered only during authentication. -/
theorem onMessage (c : Connection ρ) (m : BackendMessage) :
    ∃ qs, Passes [m] qs c (c.onMessage m).after ∧ (c.stage ≠ .authenticating → qs = []) := by
  have taken : Passes [m] [] c (c.enter [.received m]) := enter c [.received m]
  rcases onMessage_cases c m with ⟨_, _, e⟩ | ⟨_, stage, e⟩ | ⟨_, _, e⟩ | ⟨_, _, _, _, e⟩ <;> rw [e]
  · exact ⟨[], taken.before (of_eq rfl rfl), fun _ => rfl⟩
  · obtain ⟨qs, said⟩ := onAuthMessage (c.enter [.received m]) m
    exact ⟨qs, taken.trans said, fun other => absurd stage other⟩
  · exact ⟨[], taken.before (answered (onQueryMessage_answered _ m)), fun _ => rfl⟩
  · exact ⟨[], taken, fun _ => rfl⟩

end Passes

end Connection

end PgPipeline
