import Mathlib.Data.Finset.Card
import PgPipeline.Proofs.Turnover
import PgPipeline.Proofs.Waiting

namespace PgPipeline

variable {σ : Type}

def LoopEntry.isAddition : LoopEntry → Bool
  | .added _ => true
  | _ => false

namespace Loop

def handed (record : List LoopEntry) : List Token := record.filterMap LoopEntry.dispatchedTo?

variable {b : Behaviour σ} {actions : List (LoopAction σ)} {l l' : Loop σ} {t : Token} {s : σ}
  {r : Registered σ} {left : Option σ} {entries record : List LoopEntry}
  {commands : List (Command σ)}

theorem handed_append (xs ys : List LoopEntry) : handed (xs ++ ys) = handed xs ++ handed ys :=
  List.filterMap_append

structure Accounted (b : Behaviour σ) (actions : List (LoopAction σ)) (l : Loop σ) : Prop where
  chronicle : Chronicle b actions l.present l.record
  once : (l.services.map (·.token)).Nodup
  active : l.active = l.services.length
  added : l.registrations = l.record.countP (·.isAddition)
  balance : l.active + l.record.countP (·.isRemoval) = l.registrations

structure Served (l : Loop σ) : Prop where
  marked : ∀ r ∈ l.services, r.serviced = true ↔ r.token ∈ handed l.record
  counted : l.serviced = (handed l.record).toFinset.card

theorem account_counts (t : Token) (s : σ) (event : LoopEvent) :
    (b.account t s event).countP (·.isAddition) = 0 ∧
      (b.account t s event).countP (·.isRemoval) = (if (b.outcome s event).isSome then 0 else 1) ∧
      handed (b.account t s event) = [t] := by
  unfold Behaviour.account
  generalize (b.dispatch s event).interruption = interruption
  generalize b.outcome s event = left
  cases interruption <;> cases left <;> exact ⟨rfl, rfl, rfl⟩

theorem mem_settle {services : List (Registered σ)} (mem : r ∈ settle services t left) :
    r ∈ services ∧ r.token ≠ t ∨ r.token = t ∧ r.serviced = true := by
  cases left with
  | none => exact .inl (by simpa [settle] using mem)
  | some s =>
    obtain ⟨old, there, rfl⟩ := List.mem_map.mp mem
    by_cases hit : old.token = t
    · exact .inr (by simp [hit])
    · exact .inl (by simpa [hit] using there)

theorem length_settle (once : (l.services.map (·.token)).Nodup) (found : l.service? t = some r) :
    (settle l.services t left).length =
      if left.isSome then l.services.length else l.services.length - 1 := by
  have there : t ∈ l.services.map (·.token) :=
    List.mem_map.mpr ⟨r, List.mem_of_find?_eq_some found, token_of_find? found⟩
  have tokens := congrArg List.length (settle_tokens l.services t left)
  rw [List.length_map] at tokens
  rw [tokens]
  split
  · exact List.length_map _
  · rw [← once.erase_eq_filter, List.length_erase_of_mem there, List.length_map]

namespace Accounted

theorem leaves (h : Accounted b actions l) (found : l.service? t = some r)
    (step : Leaves l t left entries l')
    (chronicle : Chronicle b actions (Function.update l.present t left) (l.record ++ entries))
    (additions : entries.countP (·.isAddition) = 0)
    (removals : entries.countP (·.isRemoval) = if left.isSome then 0 else 1) :
    Accounted b actions l' := by
  have size : 0 < l.services.length := List.length_pos_of_mem (List.mem_of_find?_eq_some found)
  have active := h.active
  have balance := h.balance
  refine ⟨?_, ?_, ?_, ?_, ?_⟩
  · rw [step.present found, step.record]
    exact chronicle
  · rw [step.services, settle_tokens]
    split
    · exact h.once
    · exact h.once.filter _
  · rw [step.active, step.services, length_settle h.once found, h.active]
  · rw [step.registrations, step.record, List.countP_append, additions, h.added, Nat.add_zero]
  · rw [step.active, step.record, List.countP_append, removals, step.registrations]
    split <;> omega

theorem idle (h : Accounted b actions l) (services : l'.services = l.services)
    (record : l'.record = l.record) (active : l'.active = l.active)
    (registrations : l'.registrations = l.registrations) : Accounted b actions l' := by
  have present : l'.present = l.present := by
    unfold Loop.present service?
    rw [services]
  refine ⟨?_, ?_, ?_, ?_, ?_⟩
  · rw [present, record]
    exact h.chronicle
  · rw [services]
    exact h.once
  · rw [active, services]
    exact h.active
  · rw [registrations, record]
    exact h.added
  · rw [active, record, registrations]
    exact h.balance

theorem extend (h : Accounted b actions l) (more : List (LoopAction σ)) :
    Accounted b (actions ++ more) l :=
  ⟨h.chronicle.extend more, h.once, h.active, h.added, h.balance⟩

theorem enrol (h : Accounted b actions l) (given : (handedOver actions)[t]? = some s)
    (new : t ∉ l.record.map (·.token)) (absent : l.service? t = none) :
    Accounted b actions (l.enrol t s) := by
  have active : (l.enrol t s).active = l.services.length + 1 := congrArg (· + 1) h.active
  have record : (l.enrol t s).record = l.record ++ [.added t] := rfl
  have services : (l.enrol t s).services = l.services ++ [⟨t, s, false⟩] := rfl
  have balance := h.balance
  refine ⟨?_, ?_, ?_, ?_, ?_⟩
  · rw [present_enrol absent]
    exact h.chronicle.added given new
  · have apart : ∀ r ∈ l.services, r.token ≠ t := by simpa [service?] using absent
    rw [services, List.map_append]
    refine List.nodup_append.mpr ⟨h.once, List.nodup_singleton _, ?_⟩
    rintro u mem _ last rfl
    obtain ⟨r, there, rfl⟩ := List.mem_map.mp mem
    exact apart r there (List.mem_singleton.mp last)
  · rw [active, services, List.length_append]
    rfl
  · rw [record, List.countP_append, ← h.added]
    rfl
  · rw [record, List.countP_append, active, ← h.active]
    change l.active + 1 + (_ + 0) = l.registrations + 1
    omega

end Accounted

namespace Served

theorem leaves (h : Served l) (step : Leaves l t left entries l') (gone : left = none)
    (silent : handed entries = []) : Served l' := by
  subst gone
  refine ⟨fun r mem => ?_, ?_⟩
  · rw [step.services] at mem
    have there : r ∈ l.services := List.mem_of_mem_filter mem
    rw [step.record, handed_append, silent, List.append_nil]
    exact h.marked r there
  · rw [step.record, handed_append, silent, List.append_nil, step.serviced]
    exact h.counted

theorem dispatch (h : Served l) (found : l.service? t = some r) (event : LoopEvent) :
    Served (l.dispatch b t event) := by
  have step := Leaves.dispatch (b := b) found event
  have record : handed (l.dispatch b t event).record = handed l.record ++ [t] := by
    rw [step.record, handed_append, (account_counts t r.service event).2.2]
    rfl
  have token : r.token = t := token_of_find? found
  have marked := h.marked r (List.mem_of_find?_eq_some found)
  rw [token] at marked
  refine ⟨fun r' mem => ?_, ?_⟩
  · rw [step.services] at mem
    rw [record]
    rcases mem_settle mem with ⟨there, other⟩ | ⟨same, set⟩
    · simpa [other] using h.marked r' there
    · simp [same, set]
  · have counted : (l.dispatch b t event).serviced =
        if r.serviced then l.serviced else l.serviced + 1 := step.serviced
    rw [counted, record, List.toFinset_append, h.counted]
    split
    · next set => simp [marked.mp set]
    · next unset =>
      have fresh : t ∉ handed l.record := fun mem => unset (marked.mpr mem)
      simp [fresh]

theorem enrol (h : Served l) (new : t ∉ l.record.map (·.token)) (s : σ) : Served (l.enrol t s) := by
  have record : handed (l.enrol t s).record = handed l.record := by
    change handed (l.record ++ [.added t]) = _
    rw [handed_append]
    exact List.append_nil _
  refine ⟨fun r mem => ?_, by rw [record]; exact h.counted⟩
  rw [record]
  rcases List.mem_append.mp mem with there | last
  · exact h.marked r there
  · obtain rfl := List.mem_singleton.mp last
    refine ⟨nofun, fun mem => absurd ?_ new⟩
    obtain ⟨entry, there, hit⟩ := List.mem_filterMap.mp mem
    exact List.mem_map.mpr ⟨entry, there, LoopEntry.token_of_dispatchedTo? hit⟩

end Served

structure Sound (b : Behaviour σ) (actions : List (LoopAction σ)) (taken : List (Command σ))
    (l : Loop σ) : Prop where
  accounted : Accounted b actions l
  served : Served l
  awaited : Awaited actions (taken ++ l.commands) l.record
  tokens : l.nextToken = (handedOver actions).length
  stops : l.stopping = true ↔ .stop ∈ actions

namespace Sound

variable {taken : List (Command σ)}

theorem empty (b : Behaviour σ) : Sound b [] [] Loop.empty where
  accounted := ⟨.empty, List.nodup_nil, rfl, rfl, rfl⟩
  served := ⟨nofun, rfl⟩
  awaited := ⟨nofun, List.nodup_nil, nofun, fun _ _ _ given => by cases given⟩
  tokens := rfl
  stops := by simp [Loop.empty]

theorem mentioned (h : Sound b actions taken l) (found : l.service? t = some r) :
    t ∈ l.record.map (·.token) :=
  List.mem_map.mpr ⟨_, (h.accounted.chronicle.registered (present_of_service? found)).1, rfl⟩

theorem leaves (h : Sound b actions taken l) (found : l.service? t = some r) {n m : Nat}
    (step : Leaves { l with events := n, serviced := m } t left entries l')
    (chronicle : Chronicle b actions (Function.update l.present t left) (l.record ++ entries))
    (additions : entries.countP (·.isAddition) = 0)
    (removals : entries.countP (·.isRemoval) = if left.isSome then 0 else 1)
    (about : ∀ entry ∈ entries, entry.token = t) (served : Served l') :
    Sound b actions taken l' := by
  have counted : Accounted b actions { l with events := n, serviced := m } :=
    h.accounted.idle rfl rfl rfl rfl
  refine ⟨counted.leaves found step chronicle additions removals, served, ?_,
    step.nextToken.trans h.tokens, step.stopping.symm ▸ h.stops⟩
  rw [step.commands, step.record]
  exact h.awaited.append fun entry mem => (about entry mem).symm ▸ h.mentioned found

theorem dispatch (h : Sound b actions taken l) (t : Token) (event : LoopEvent) :
    Sound b actions taken (l.dispatch b t event) := by
  cases found : l.service? t with
  | none =>
    unfold Loop.dispatch
    rw [found]
    exact h
  | some r =>
    have chronicle := h.accounted.chronicle.handled event (present_of_service? found)
    obtain ⟨additions, removals, -⟩ := account_counts (b := b) t r.service event
    exact h.leaves found (Leaves.dispatch found event) chronicle additions removals
      (fun _ mem => (Chronicle.mem_account mem).1) (h.served.dispatch found event)

theorem remove (h : Sound b actions taken l) (asked : .deregister t ∈ actions) :
    Sound b actions taken (l.remove t) := by
  cases found : l.service? t with
  | none =>
    unfold Loop.remove
    rw [found]
    exact h
  | some r =>
    have step := Leaves.remove found
    have chronicle := h.accounted.chronicle.deregistered (present_of_service? found) asked
    exact h.leaves found step chronicle rfl rfl (by simp [LoopEntry.token])
      (h.served.leaves step rfl rfl)

theorem dismiss (h : Sound b actions taken l) (stopped : .stop ∈ actions)
    (found : l.service? r.token = some r) : Sound b actions taken (l.dismiss b r) := by
  have step := Leaves.dismiss (b := b) found
  have chronicle := h.accounted.chronicle.dismissed (present_of_service? found) stopped
  exact h.leaves found step chronicle rfl rfl (by simp [LoopEntry.token])
    (h.served.leaves step rfl rfl)

theorem service?_of_new (h : Sound b actions taken l) (new : t ∉ l.record.map (·.token)) :
    l.service? t = none := by
  cases found : l.service? t with
  | none => rfl
  | some r => exact absurd (h.mentioned found) new

theorem add (h : Sound b actions (.register t s :: taken) l) (socket : b.hasSocket s = true) :
    Sound b actions taken (l.add b t s) := by
  obtain ⟨given, new⟩ := h.awaited.given (t, s) List.mem_cons_self
  rw [add_of_hasSocket socket]
  apply dispatch
  exact ⟨h.accounted.enrol given new (h.service?_of_new new), h.served.enrol new s,
    h.awaited.take rfl fun _ => rfl, h.tokens, h.stops⟩

theorem hasSocket (h : Sound b actions taken l)
    (sockets : ∀ s, .register s ∈ actions → b.hasSocket s = true)
    (mem : .register t s ∈ taken) : b.hasSocket s = true := by
  have waits : (t, s) ∈ waiting (taken ++ l.commands) :=
    List.mem_filterMap.mpr ⟨_, List.mem_append_left _ mem, rfl⟩
  obtain ⟨given, -⟩ := h.awaited.given (t, s) waits
  exact sockets s (register_mem_of_handedOver (List.mem_of_getElem? given))

theorem skip {command : Command σ} (h : Sound b actions (command :: taken) l)
    (none : command.registration? = none) : Sound b actions taken l :=
  ⟨h.accounted, h.served, h.awaited.skip none, h.tokens, h.stops⟩

theorem obey {command : Command σ} (h : Sound b actions (command :: taken) l)
    (sockets : ∀ s, .register s ∈ actions → b.hasSocket s = true) :
    Sound b actions taken (l.obey b command) := by
  cases command with
  | register t s => exact h.add (h.hasSocket sockets List.mem_cons_self)
  | notify t => exact h.skip rfl
  | deregister t => exact (h.skip rfl).remove (h.awaited.asked t List.mem_cons_self)

theorem obeyAll (h : Sound b actions taken l)
    (sockets : ∀ s, .register s ∈ actions → b.hasSocket s = true) :
    Sound b actions [] (taken.foldl (Loop.obey b) l) := by
  induction taken generalizing l with
  | nil => exact h
  | cons command rest ih => exact ih (h.obey sockets)

theorem dispatchAll {α : Type} (h : Sound b actions taken l) (due : List α) (token : α → Token)
    (event : LoopEvent) :
    Sound b actions taken (due.foldl (fun l a => l.dispatch b (token a) event) l) := by
  induction due generalizing l with
  | nil => exact h
  | cons a rest ih => exact ih (h.dispatch _ _)

theorem take (h : Sound b actions [] l) : Sound b actions l.commands { l with commands := [] } :=
  ⟨h.accounted.idle rfl rfl rfl rfl, ⟨h.served.marked, h.served.counted⟩,
    (List.append_nil l.commands).symm ▸ h.awaited, h.tokens, h.stops⟩

theorem drain (h : Sound b actions [] l)
    (sockets : ∀ s, .register s ∈ actions → b.hasSocket s = true) :
    Sound b actions [] (l.drain b) :=
  (h.take.obeyAll sockets).dispatchAll _ id .notified

theorem onReport (h : Sound b actions taken l) (t : Token) (report : SocketReport) :
    Sound b actions taken (l.onReport b t report) := by
  unfold Loop.onReport
  dsimp only
  -- Whatever the report says, it comes down to some events handed to the service.
  repeat' split
  all_goals
    repeat apply dispatch
    exact h

theorem elapse (h : Sound b actions taken l) (duration : Nat) :
    Sound b actions taken (l.elapse b duration) := by
  unfold Loop.elapse
  dsimp only
  apply dispatchAll _ _ Prod.snd
  exact ⟨h.accounted.idle rfl rfl rfl rfl, ⟨h.served.marked, h.served.counted⟩, h.awaited, h.tokens,
    h.stops⟩

theorem turnAway (h : Sound b actions (.register t s :: taken) l) (stopped : .stop ∈ actions)
    (ends : .finish ∈ actions) : Sound b actions taken (l.enter (.failed t .closed)) := by
  obtain ⟨given, new⟩ := h.awaited.given (t, s) List.mem_cons_self
  have record : (l.enter (.failed t .closed)).record = l.record ++ [.failed t .closed] := rfl
  have silent : handed (l.record ++ [.failed t .closed]) = handed l.record := by
    rw [handed_append]
    exact List.append_nil _
  refine ⟨⟨?_, h.accounted.once, h.accounted.active, ?_, ?_⟩, ⟨?_, ?_⟩,
    h.awaited.take rfl fun goes => absurd ends goes, h.tokens, h.stops⟩
  · exact h.accounted.chronicle.turnedAway given new stopped
  · rw [record, List.countP_append]
    exact h.accounted.added
  · rw [record, List.countP_append]
    exact h.accounted.balance
  · rw [record, silent]
    exact h.served.marked
  · rw [record, silent]
    exact h.served.counted

end Sound

theorem dismissWaiting_sound (h : Sound b actions commands l) (stopped : .stop ∈ actions)
    (ends : .finish ∈ actions) : Sound b actions [] (l.dismissWaiting b commands) ∧
      (l.dismissWaiting b commands).record =
        l.record ++ (turnedAway b (waiting commands)).map fun t => .failed t .closed := by
  induction commands generalizing l with
  | nil => exact ⟨h, (List.append_nil _).symm⟩
  | cons command rest ih =>
    cases command with
    | register t s =>
      have told := h.turnAway stopped ends
      have first : waiting (.register t s :: rest) = (t, s) :: waiting rest := rfl
      rw [dismissWaiting, first, turnedAway]
      cases (b.onError s .closed).interruption with
      | none =>
        obtain ⟨sound, record⟩ := ih told
        refine ⟨sound, record.trans ?_⟩
        exact List.append_assoc _ [_] _
      | some _ =>
        have left : Sound b actions [] (l.enter (.failed t .closed)) :=
          ⟨told.accounted, told.served, told.awaited.drop ends, told.tokens, told.stops⟩
        exact ⟨left, rfl⟩
    | notify t => exact ih (h.skip rfl)
    | deregister t => exact ih (h.skip rfl)

def dismissals (services : List (Registered σ)) : List LoopEntry :=
  services.flatMap fun r => [.failed r.token .closed, .removed r.token]

theorem dismissAll_sound {services : List (Registered σ)} {taken : List (Command σ)}
    (h : Sound b actions taken l) (stopped : .stop ∈ actions) (all : l.services = services) :
    Sound b actions taken (services.foldl (dismiss b) l) ∧
      (services.foldl (dismiss b) l).commands = l.commands ∧
      (services.foldl (dismiss b) l).record = l.record ++ dismissals services := by
  induction services generalizing l with
  | nil => exact ⟨h, rfl, (List.append_nil _).symm⟩
  | cons r rest ih =>
    have found : l.service? r.token = some r := by simp [service?, all]
    have step := Leaves.dismiss (b := b) found
    have once := h.accounted.once
    rw [all, List.map_cons, List.nodup_cons] at once
    have others : (l.dismiss b r).services = rest := by
      rw [step.services, all, settle, List.filter_cons_of_neg (by simp)]
      refine List.filter_eq_self.mpr fun other mem => ?_
      have apart : other.token ≠ r.token := fun same => once.1 (same ▸ List.mem_map_of_mem mem)
      simpa using apart
    obtain ⟨sound, commands, record⟩ := ih (h.dismiss stopped found) others
    refine ⟨sound, commands.trans step.commands, record.trans ?_⟩
    rw [step.record]
    exact List.append_assoc _ [_, _] _

theorem finish_sound (h : Sound b actions [] l) (stopped : .stop ∈ actions)
    (ends : .finish ∈ actions) :
    Sound b actions [] (l.finish b) ∧ (l.finish b).record = l.record ++ dismissals l.services ++
      (turnedAway b (waiting l.commands)).map fun t => .failed t .closed := by
  obtain ⟨sound, commands, record⟩ := dismissAll_sound h stopped rfl
  obtain ⟨ended, told⟩ := dismissWaiting_sound sound.take stopped ends
  unfold finish
  dsimp only
  refine ⟨ended, told.trans ?_⟩
  rw [record, commands]

namespace Sound

variable {taken : List (Command σ)}

theorem extend (h : Sound b actions taken l) (a : LoopAction σ) (quiet : handedOver [a] = [])
    (goes : a ≠ .stop) : Sound b (actions ++ [a]) taken l where
  accounted := h.accounted.extend [a]
  served := h.served
  awaited := h.awaited.extend (handedOver_concat a quiet)
  tokens := by rw [handedOver_concat a quiet, h.tokens]
  stops := by simp [h.stops, goes.symm]

theorem ask (h : Sound b actions [] l) (command : Command σ) (none : command.registration? = none)
    (asked : ∀ u, command = .deregister u → .deregister u ∈ actions) :
    Sound b actions [] { l with commands := l.commands ++ [command] } :=
  ⟨h.accounted.idle rfl rfl rfl rfl, ⟨h.served.marked, h.served.counted⟩, h.awaited.ask none asked,
    h.tokens, h.stops⟩

theorem register (h : Sound b actions [] l) (s : σ) :
    Sound b (actions ++ [.register s]) [] (l.act b (.register s)) := by
  unfold Loop.act Loop.register
  dsimp only
  by_cases stopping : l.stopping = true
  · rw [if_pos stopping]
    have same := handedOver_append_of_stop (h.stops.mp stopping) [.register s]
    exact ⟨h.accounted.extend _, h.served, h.awaited.extend same, same.symm ▸ h.tokens,
      by simp [h.stops]⟩
  · rw [if_neg stopping]
    have goes : .stop ∉ actions := fun mem => stopping (h.stops.mpr mem)
    refine ⟨(h.accounted.extend _).idle rfl rfl rfl rfl, ⟨h.served.marked, h.served.counted⟩, ?_,
      ?_, by simp [h.stops]⟩
    · have waits := h.awaited.handOver goes s h.accounted.chronicle.given_of_mem
      rw [← h.tokens] at waits
      exact waits
    · rw [handedOver_append goes, List.length_append, ← h.tokens]
      rfl

theorem act (h : Sound b actions [] l) {a : LoopAction σ}
    (sockets : ∀ s, .register s ∈ actions ++ [a] → b.hasSocket s = true) :
    Sound b (actions ++ [a]) [] (l.act b a) := by
  cases a with
  | register s => exact h.register s
  | notify t => exact (h.extend (.notify t) rfl nofun).ask (.notify t) rfl nofun
  | deregister t =>
    refine (h.extend (.deregister t) rfl nofun).ask (.deregister t) rfl fun u same => ?_
    cases same
    exact List.mem_append_right _ (List.mem_singleton_self _)
  | stop =>
    exact ⟨(h.accounted.extend _).idle rfl rfl rfl rfl, ⟨h.served.marked, h.served.counted⟩,
      h.awaited.extend (handedOver_concat .stop rfl), (handedOver_concat .stop rfl).symm ▸ h.tokens,
      by simp [Loop.act, Loop.stop]⟩
  | drain => exact (h.extend .drain rfl nofun).drain sockets
  | report t report => exact (h.extend (.report t report) rfl nofun).onReport t report
  | elapse duration => exact (h.extend (.elapse duration) rfl nofun).elapse duration
  | finish =>
    have extended := h.extend .finish rfl nofun
    unfold Loop.act
    dsimp only
    split
    · next stopping =>
      exact (finish_sound extended (extended.stops.mp stopping)
        (List.mem_append_right _ (List.mem_singleton_self _))).1
    · exact extended

theorem run (b : Behaviour σ) (actions : List (LoopAction σ))
    (sockets : ∀ s, .register s ∈ actions → b.hasSocket s = true) :
    Sound b actions [] (Loop.empty.run b actions) := by
  -- The last action comes after all others, whose `Sound` says what was asked for until then.
  induction actions using List.reverseRecOn with
  | nil => exact empty b
  | append_singleton before last ih =>
    rw [run_append]
    exact (ih fun s mem => sockets s (List.mem_append_left _ mem)).act sockets

end Sound

theorem count_ending (services : List (Registered σ)) (turned : List Token) (t : Token) :
    (dismissals services ++ turned.map fun t => LoopEntry.failed t .closed).count
        (.failed t .closed) =
      (services.map (·.token)).count t + turned.count t := by
  rw [List.count_append]
  congr 1
  · induction services with
    | nil => rfl
    | cons r rest ih =>
      have split : dismissals (r :: rest) =
          .failed r.token .closed :: .removed r.token :: dismissals rest := rfl
      rw [split, List.map_cons, List.count_cons, List.count_cons, List.count_cons, ih]
      simp
  · exact List.count_map_of_injective _ _ (fun _ _ same => (LoopEntry.failed.inj same).1) t

namespace Sound

variable {taken : List (Command σ)}

/-- What is there when the loop ends is told of it once, and what waits unless another broke off
first. -/
theorem ending (h : Sound b actions [] l) (stopping : l.stopping = true) :
    ∃ ending, (l.finish b).record = l.record ++ ending ∧
      (∀ t s, l.present t = some s → ending.count (.failed t .closed) = 1) ∧
      ∀ before t s after, waiting l.commands = before ++ (t, s) :: after →
        (ending.count (.failed t .closed) = 1 ↔
          ∀ w ∈ before, (b.onError w.2 .closed).interruption = none) := by
  have extended := h.extend .finish rfl nofun
  obtain ⟨-, record⟩ := finish_sound extended (extended.stops.mp stopping)
    (List.mem_append_right _ (List.mem_singleton_self _))
  have once := (h.awaited.once.sublist (turnedAway_sublist b _))
  rw [List.append_assoc] at record
  refine ⟨_, record, fun t s there => ?_, fun before t s after split => ?_⟩
  · obtain ⟨r, found, -⟩ := Option.map_eq_some_iff.mp there
    have mem : t ∈ l.services.map (·.token) :=
      List.mem_map.mpr ⟨r, List.mem_of_find?_eq_some found, token_of_find? found⟩
    have absent : t ∉ turnedAway b (waiting l.commands) := by
      intro turned
      obtain ⟨w, waits, rfl⟩ := List.mem_map.mp ((turnedAway_sublist b _).subset turned)
      exact (h.awaited.given w waits).2 (h.mentioned found)
    rw [count_ending, List.count_eq_one_of_mem h.accounted.once mem, List.count_eq_zero.mpr absent]
  · have waits : (t, s) ∈ waiting l.commands := split ▸ List.mem_append_right _ List.mem_cons_self
    have absent : t ∉ l.services.map (·.token) := by
      intro mem
      obtain ⟨r, there, rfl⟩ := List.mem_map.mp mem
      have none := List.find?_eq_none.mp (h.service?_of_new (h.awaited.given _ waits).2) r there
      exact none (beq_self_eq_true _)
    have unique := h.awaited.once
    rw [List.nil_append, split] at unique
    rw [count_ending, List.count_eq_zero.mpr absent, Nat.zero_add, ← mem_turnedAway unique, ← split]
    refine ⟨fun one => List.count_pos_iff.mp (one ▸ Nat.one_pos), fun mem => ?_⟩
    exact List.count_eq_one_of_mem once mem

end Sound

/-- A loop keeps its services apart and loses none. Its record is one of blocks that each concern
one service; a service is handed an event only while it is there, and is told of a failure right
after the event that it failed over, or when the loop ends; until then what was handed over waits or
was added; and the counters count what happened. When the loop ends, each service that is there is
told of it once, and one that waits exactly if no other before it broke off over being told. -/
theorem run_keeps_services_apart (b : Behaviour σ) (actions : List (LoopAction σ))
    (sockets : ∀ s, .register s ∈ actions → b.hasSocket s = true) :
    let l := Loop.empty.run b actions
    Chronicle b actions l.present l.record ∧
    (∀ t, (∃ s, l.present t = some s) ↔ .added t ∈ l.record ∧ .removed t ∉ l.record) ∧
    (∀ before t event interruption after,
      l.record = before ++ .dispatched t event interruption :: after →
        (.added t ∈ before ∧ .removed t ∉ before) ∧
          ∀ i, interruption = some i → ∃ rest, after = .failed t i.failure :: rest) ∧
    (∀ before t f after, l.record = before ++ .failed t f :: after →
      (∃ past event i, before = past ++ [.dispatched t event (some i)] ∧ f = i.failure) ∨
        f = .closed ∧ .stop ∈ actions) ∧
    (.finish ∉ actions → ∀ t s, (handedOver actions)[t]? = some s →
      (t, s) ∈ waiting l.commands ∨ .added t ∈ l.record) ∧
    l.registrations = l.record.countP (·.isAddition) ∧
    l.active + l.record.countP (·.isRemoval) = l.registrations ∧
    l.serviced = (handed l.record).toFinset.card ∧
    (l.stopping = true → ∃ ending, (l.finish b).record = l.record ++ ending ∧
      (∀ t s, l.present t = some s → ending.count (.failed t .closed) = 1) ∧
      ∀ before t s after, waiting l.commands = before ++ (t, s) :: after →
        (ending.count (.failed t .closed) = 1 ↔
          ∀ w ∈ before, (b.onError w.2 .closed).interruption = none)) := by
  intro l
  have sound : Sound b actions [] l := .run b actions sockets
  have chronicle := sound.accounted.chronicle
  refine ⟨chronicle, fun t => ⟨?_, chronicle.present_of_registered⟩, ?_, ?_, ?_,
    sound.accounted.added, sound.accounted.balance, sound.served.counted, sound.ending⟩
  · rintro ⟨s, there⟩
    exact chronicle.registered there
  · intro before t event interruption after split
    exact chronicle.timely split
  · intro before t f after split
    exact chronicle.caused split
  · intro goes t s given
    have kept := sound.awaited.kept goes t s given
    rwa [List.nil_append] at kept

/-- Services that fail over every event; those marked also break off when they are told of it. -/
def brittle : Behaviour Bool where
  hasSocket _ := true
  isConnecting _ := false
  isFinished _ := false
  dispatch s _ := ⟨s, [], some (.crashed none)⟩
  onError s _ := ⟨s, [], if s then some (.crashed none) else none⟩

theorem run_keeps_services_apart_brittle :
    let actions : List (LoopAction Bool) :=
      [.register false, .drain, .register false, .register true, .register false, .stop]
    let l := Loop.empty.run brittle actions
    (∀ s, .register s ∈ actions → brittle.hasSocket s = true) ∧
      ∃ ending, (l.finish brittle).record = l.record ++ ending ∧
        ending.count (.failed 0 .closed) = 1 ∧ ending.count (.failed 1 .closed) = 1 ∧
        ending.count (.failed 2 .closed) = 1 ∧ ending.count (.failed 3 .closed) ≠ 1 := by
  intro actions l
  have sockets : ∀ s, .register s ∈ actions → brittle.hasSocket s = true := fun _ _ => rfl
  obtain ⟨-, -, -, -, -, -, -, -, ends⟩ := run_keeps_services_apart brittle actions sockets
  obtain ⟨ending, record, there, waits⟩ := ends rfl
  refine ⟨sockets, ending, record, there 0 false rfl, ?_, ?_, fun told => ?_⟩
  · exact (waits [] 1 false [(2, true), (3, false)] rfl).mpr nofun
  · exact (waits [(1, false)] 2 true [(3, false)] rfl).mpr (by decide)
  · have calm := (waits [(1, false), (2, true)] 3 false [] rfl).mp told (2, true) (by decide)
    cases calm

/-- Of two services that wait when the loop ends, the second is told nothing if the first breaks
off. -/
theorem finish_leaves_waiting_untold :
    let l := Loop.empty.run brittle [.register true, .register false, .stop]
    l.stopping = true ∧ waiting l.commands = [(0, true), (1, false)] ∧
      (l.finish brittle).record = [.failed 0 .closed] :=
  ⟨rfl, rfl, rfl⟩

end Loop

end PgPipeline
