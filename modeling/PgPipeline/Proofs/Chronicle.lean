import Mathlib.Data.List.Basic
import Mathlib.Logic.Function.Basic
import PgPipeline.Loop.History

/-!
What a loop does to its services, one service at a time.

`Loop.Chronicle` says which records a loop may have, and how its services stand after it. Each block
of entries concerns one service and changes no other: it is added, it is handed an event and told of
its failure, it is dropped because someone asked for that, or it is told that the loop ends.
-/

namespace PgPipeline

namespace LoopEntry

def token : LoopEntry → Token
  | added token => token
  | dispatched token _ _ => token
  | failed token _ => token
  | removed token => token

def isRemoval : LoopEntry → Bool
  | removed _ => true
  | _ => false

def dispatchedTo? : LoopEntry → Option Token
  | dispatched token _ _ => some token
  | _ => none

theorem token_of_dispatchedTo? {entry : LoopEntry} {t : Token}
    (handed : entry.dispatchedTo? = some t) : entry.token = t := by
  cases entry <;> cases handed
  rfl

end LoopEntry

namespace Behaviour

variable {σ : Type} (b : Behaviour σ)

def settled (s : σ) : Option σ := if b.isFinished s then none else some s

def chastened (s : σ) (f : Failure) : Option σ :=
  match (b.onError s f).interruption with
  | none => b.settled (b.onError s f).after
  | some _ => none

def outcome (s : σ) (event : LoopEvent) : Option σ :=
  match (b.dispatch s event).interruption with
  | none => b.settled (b.dispatch s event).after
  | some i => b.chastened (b.dispatch s event).after i.failure

end Behaviour

def Loop.telling (token : Token) : Option Interruption → List LoopEntry
  | none => []
  | some i => [.failed token i.failure]

def Loop.parting {σ : Type} (token : Token) : Option σ → List LoopEntry
  | none => [.removed token]
  | some _ => []

def Behaviour.account {σ : Type} (b : Behaviour σ) (token : Token) (s : σ) (event : LoopEvent) :
    List LoopEntry :=
  .dispatched token event (b.dispatch s event).interruption ::
    (Loop.telling token (b.dispatch s event).interruption ++ Loop.parting token (b.outcome s event))

namespace Loop

open Function (update)

variable {σ : Type}

/-- The services that were left to be added before the loop was told to stop; a service's place is
its token. -/
def handedOver : List (LoopAction σ) → List σ
  | [] => []
  | .stop :: _ => []
  | .register service :: rest => service :: handedOver rest
  | _ :: rest => handedOver rest

inductive Chronicle (b : Behaviour σ) (actions : List (LoopAction σ)) :
    (Token → Option σ) → List LoopEntry → Prop where
  | empty : Chronicle b actions (fun _ => none) []
  | added {present record t s} (before : Chronicle b actions present record)
      (given : (handedOver actions)[t]? = some s) (new : t ∉ record.map (·.token)) :
      Chronicle b actions (update present t (some s)) (record ++ [.added t])
  | handled {present record t s} (event : LoopEvent) (before : Chronicle b actions present record)
      (there : present t = some s) :
      Chronicle b actions (update present t (b.outcome s event)) (record ++ b.account t s event)
  | deregistered {present record t s} (before : Chronicle b actions present record)
      (there : present t = some s) (asked : .deregister t ∈ actions) :
      Chronicle b actions (update present t none) (record ++ [.removed t])
  | dismissed {present record t s} (before : Chronicle b actions present record)
      (there : present t = some s) (stopped : .stop ∈ actions) :
      Chronicle b actions (update present t none) (record ++ [.failed t .closed, .removed t])
  | turnedAway {present record t s} (before : Chronicle b actions present record)
      (given : (handedOver actions)[t]? = some s) (new : t ∉ record.map (·.token))
      (stopped : .stop ∈ actions) :
      Chronicle b actions present (record ++ [.failed t .closed])

variable {b : Behaviour σ} {actions : List (LoopAction σ)} {t u : Token} {s : σ}

theorem handedOver_append_of_stop (stopped : .stop ∈ actions) (more : List (LoopAction σ)) :
    handedOver (actions ++ more) = handedOver actions := by
  induction actions with
  | nil => cases stopped
  | cons a rest ih =>
    cases a with
    | stop => rfl
    | register service =>
      have later := (List.mem_cons.mp stopped).resolve_left nofun
      rw [List.cons_append, handedOver, handedOver, ih later]
    | _ => exact ih ((List.mem_cons.mp stopped).resolve_left nofun)

theorem handedOver_append (goes : .stop ∉ actions) (more : List (LoopAction σ)) :
    handedOver (actions ++ more) = handedOver actions ++ handedOver more := by
  induction actions with
  | nil => rfl
  | cons a rest ih =>
    have later := fun mem => goes (List.mem_cons_of_mem a mem)
    cases a with
    | stop => exact absurd List.mem_cons_self goes
    | register service => rw [List.cons_append, handedOver, handedOver, ih later, List.cons_append]
    | _ => exact ih later

theorem getElem?_handedOver_append (given : (handedOver actions)[t]? = some s)
    (more : List (LoopAction σ)) : (handedOver (actions ++ more))[t]? = some s := by
  by_cases stopped : .stop ∈ actions
  · rw [handedOver_append_of_stop stopped, given]
  · rw [handedOver_append stopped, List.getElem?_append_left (List.getElem?_eq_some_iff.mp given).1,
      given]

theorem register_mem_of_handedOver (mem : s ∈ handedOver actions) : .register s ∈ actions := by
  induction actions with
  | nil => cases mem
  | cons a rest ih =>
    cases a with
    | stop => cases mem
    | register service =>
      rcases List.mem_cons.mp mem with rfl | mem
      · exact List.mem_cons_self
      · exact List.mem_cons_of_mem _ (ih mem)
    | _ => exact List.mem_cons_of_mem _ (ih mem)

namespace Chronicle

variable {present : Token → Option σ} {record : List LoopEntry}

theorem extend (h : Chronicle b actions present record) (more : List (LoopAction σ)) :
    Chronicle b (actions ++ more) present record := by
  induction h with
  | empty => exact .empty
  | added before given new ih => exact .added ih (getElem?_handedOver_append given more) new
  | handled event before there ih => exact .handled event ih there
  | deregistered before there asked ih =>
    exact .deregistered ih there (List.mem_append_left _ asked)
  | dismissed before there stopped ih => exact .dismissed ih there (List.mem_append_left _ stopped)
  | turnedAway before given new stopped ih =>
    exact .turnedAway ih (getElem?_handedOver_append given more) new
      (List.mem_append_left _ stopped)

theorem mem_account {event : LoopEvent} {entry : LoopEntry} (mem : entry ∈ b.account t s event) :
    entry.token = t ∧ (entry = .removed t → b.outcome s event = none) ∧
      (entry.dispatchedTo? ≠ none →
        entry = .dispatched t event (b.dispatch s event).interruption) := by
  unfold Behaviour.account at mem
  rcases List.mem_cons.mp mem with rfl | mem
  · exact ⟨rfl, nofun, fun _ => rfl⟩
  · rcases List.mem_append.mp mem with told | gone
    · unfold telling at told
      split at told
      · cases told
      · obtain rfl := List.mem_singleton.mp told
        exact ⟨rfl, nofun, fun handed => absurd rfl handed⟩
    · unfold parting at gone
      split at gone
      · next left =>
        obtain rfl := List.mem_singleton.mp gone
        exact ⟨rfl, fun _ => left, fun handed => absurd rfl handed⟩
      · cases gone

theorem not_mem_of_new (new : t ∉ record.map (·.token)) {entry : LoopEntry}
    (same : entry.token = t) : entry ∉ record := fun mem => new (same ▸ List.mem_map_of_mem mem)

def Registered (record : List LoopEntry) (t : Token) : Prop :=
  .added t ∈ record ∧ .removed t ∉ record

theorem Registered.append {block : List LoopEntry} (h : Registered record t) (other : t ≠ u)
    (about : ∀ entry ∈ block, entry.token = u) : Registered (record ++ block) t := by
  refine ⟨List.mem_append_left _ h.1, fun mem => ?_⟩
  rcases List.mem_append.mp mem with mem | mem
  · exact h.2 mem
  · exact other (about _ mem)

theorem registered (h : Chronicle b actions present record) (there : present t = some s) :
    Registered record t := by
  -- A block about another service neither adds this one nor removes it.
  induction h generalizing s with
  | empty => cases there
  | @added present record u s before given new ih =>
    by_cases same : t = u
    · subst same
      refine ⟨List.mem_append_right _ List.mem_cons_self, fun mem => ?_⟩
      rcases List.mem_append.mp mem with mem | mem
      · exact not_mem_of_new new rfl mem
      · cases List.mem_singleton.mp mem
    · rw [Function.update_of_ne same] at there
      exact (ih there).append same (by simp [LoopEntry.token])
  | @handled present record u s event before present_ ih =>
    by_cases same : t = u
    · subst same
      rw [Function.update_self] at there
      obtain ⟨added, stays⟩ := ih present_
      refine ⟨List.mem_append_left _ added, fun mem => ?_⟩
      rcases List.mem_append.mp mem with mem | mem
      · exact stays mem
      · cases there.symm.trans ((mem_account mem).2.1 rfl)
    · rw [Function.update_of_ne same] at there
      exact (ih there).append same fun entry mem => (mem_account mem).1
  | @deregistered present record u _ before _ _ ih =>
    by_cases same : t = u
    · subst same
      rw [Function.update_self] at there
      cases there
    · rw [Function.update_of_ne same] at there
      exact (ih there).append same (by simp [LoopEntry.token])
  | @dismissed present record u _ before _ _ ih =>
    by_cases same : t = u
    · subst same
      rw [Function.update_self] at there
      cases there
    · rw [Function.update_of_ne same] at there
      exact (ih there).append same (by simp [LoopEntry.token])
  | turnedAway before given new stopped ih =>
    obtain ⟨added, stays⟩ := ih there
    exact ⟨List.mem_append_left _ added, by simpa using stays⟩

theorem Registered.of_append {block : List LoopEntry} (h : Registered (record ++ block) t)
    (other : t ≠ u) (about : ∀ entry ∈ block, entry.token = u) : Registered record t := by
  refine ⟨?_, fun mem => h.2 (List.mem_append_left _ mem)⟩
  rcases List.mem_append.mp h.1 with mem | mem
  · exact mem
  · exact absurd (about _ mem) other

theorem present_of_registered (h : Chronicle b actions present record)
    (there : Registered record t) : ∃ s, present t = some s := by
  induction h with
  | empty => cases there.1
  | @added present record u s _ _ _ ih =>
    by_cases same : t = u
    · subst same
      exact ⟨s, Function.update_self ..⟩
    · rw [Function.update_of_ne same]
      exact ih (there.of_append same (by simp [LoopEntry.token]))
  | @handled present record u s event _ _ ih =>
    by_cases same : t = u
    · subst same
      rw [Function.update_self]
      cases left : b.outcome s event with
      | none =>
        refine absurd (List.mem_append_right _ ?_) there.2
        simp [Behaviour.account, left, parting]
      | some s' => exact ⟨s', rfl⟩
    · rw [Function.update_of_ne same]
      exact ih (there.of_append same fun entry mem => (mem_account mem).1)
  | @deregistered present record u _ _ _ _ ih =>
    by_cases same : t = u
    · subst same
      exact absurd (List.mem_append_right _ List.mem_cons_self) there.2
    · rw [Function.update_of_ne same]
      exact ih (there.of_append same (by simp [LoopEntry.token]))
  | @dismissed present record u _ _ _ _ ih =>
    by_cases same : t = u
    · subst same
      exact absurd (List.mem_append_right _ (by simp)) there.2
    · rw [Function.update_of_ne same]
      exact ih (there.of_append same (by simp [LoopEntry.token]))
  | turnedAway _ _ _ _ ih =>
    refine ih ⟨?_, fun mem => there.2 (List.mem_append_left _ mem)⟩
    simpa using there.1

theorem given_of_mem (h : Chronicle b actions present record) :
    ∀ entry ∈ record, ∃ s, (handedOver actions)[entry.token]? = some s := by
  induction h with
  | empty => nofun
  | added before given new ih =>
    exact List.forall_mem_append.mpr ⟨ih, List.forall_mem_singleton.mpr ⟨_, given⟩⟩
  | @handled present record u s event before there ih =>
    refine List.forall_mem_append.mpr ⟨ih, fun entry mem => ?_⟩
    rw [(mem_account mem).1]
    exact ih (.added u) (before.registered there).1
  | @deregistered present record u s before there asked ih =>
    have given := ih (.added u) (before.registered there).1
    exact List.forall_mem_append.mpr ⟨ih, List.forall_mem_singleton.mpr given⟩
  | @dismissed present record u s before there stopped ih =>
    have given := ih (.added u) (before.registered there).1
    exact List.forall_mem_append.mpr
      ⟨ih, List.forall_mem_cons.mpr ⟨given, List.forall_mem_singleton.mpr given⟩⟩
  | turnedAway before given new stopped ih =>
    exact List.forall_mem_append.mpr ⟨ih, List.forall_mem_singleton.mpr ⟨_, given⟩⟩

theorem split_append {xs ys before after : List LoopEntry} {entry : LoopEntry}
    (split : xs ++ ys = before ++ entry :: after) :
    (∃ rest, xs = before ++ entry :: rest ∧ after = rest ++ ys) ∨
      ∃ rest, before = xs ++ rest ∧ ys = rest ++ entry :: after := by
  rcases List.append_eq_append_iff.mp split with ⟨rest, front, back⟩ | ⟨rest, front, back⟩
  · exact .inr ⟨rest, front, back⟩
  · cases rest with
    | nil => exact .inr ⟨[], by simpa using front.symm, back.symm⟩
    | cons first rest =>
      obtain ⟨rfl, rfl⟩ := List.cons_eq_cons.mp back
      exact .inl ⟨rest, front, rfl⟩

/-- At this place a service is handed an event: it is there, and if it fails the next entry tells
it. -/
def Timely (t : Token) (before after : List LoopEntry) (interruption : Option Interruption) :
    Prop :=
  Registered before t ∧ ∀ i, interruption = some i → ∃ rest, after = .failed t i.failure :: rest

theorem Timely.append {before after : List LoopEntry} {interruption : Option Interruption}
    (h : Timely t before after interruption) (more : List LoopEntry) :
    Timely t before (after ++ more) interruption := by
  refine ⟨h.1, fun i broke => ?_⟩
  obtain ⟨rest, rfl⟩ := h.2 i broke
  exact ⟨rest ++ more, rfl⟩

theorem timely (h : Chronicle b actions present record) {before after : List LoopEntry}
    {event : LoopEvent} {interruption : Option Interruption}
    (split : record = before ++ .dispatched t event interruption :: after) :
    Timely t before after interruption := by
  -- No block but the one of an event hands a service an event.
  have quiet {xs ys : List LoopEntry}
      (ih : ∀ {rest}, xs = before ++ .dispatched t event interruption :: rest →
        Timely t before rest interruption)
      (about : ∀ entry ∈ ys, entry.dispatchedTo? = none) {after : List LoopEntry}
      (split : xs ++ ys = before ++ .dispatched t event interruption :: after) :
      Timely t before after interruption := by
    rcases split_append split with ⟨rest, first, rfl⟩ | ⟨rest, -, rfl⟩
    · exact (ih first).append ys
    · cases about _ (List.mem_append_right _ List.mem_cons_self)
  induction h generalizing after with
  | empty => simp at split
  | added _ _ _ ih => exact quiet ih (by simp [LoopEntry.dispatchedTo?]) split
  | deregistered _ _ _ ih => exact quiet ih (by simp [LoopEntry.dispatchedTo?]) split
  | dismissed _ _ _ ih => exact quiet ih (by simp [LoopEntry.dispatchedTo?]) split
  | turnedAway _ _ _ _ ih => exact quiet ih (by simp [LoopEntry.dispatchedTo?]) split
  | @handled present record u s event' past there ih =>
    rcases split_append split with ⟨rest, first, rfl⟩ | ⟨rest, rfl, block⟩
    · exact (ih first).append _
    · -- The event is the one the block begins with.
      have head : LoopEntry.dispatched t event interruption ∈ b.account u s event' :=
        block ▸ List.mem_append_right _ List.mem_cons_self
      have same := (mem_account head).2.2 nofun
      obtain ⟨rfl, rfl, rfl⟩ := LoopEntry.dispatched.inj same
      have first : rest = [] := by
        cases rest with
        | nil => rfl
        | cons first rest =>
          have once := (List.cons.inj block).2
          have again : LoopEntry.dispatched t event (b.dispatch s event).interruption ∈
              telling t (b.dispatch s event).interruption ++ parting t (b.outcome s event) :=
            once ▸ List.mem_append_right _ List.mem_cons_self
          unfold telling parting at again
          repeat' split at again
          all_goals simp at again
      subst first
      have tail := (List.cons.inj block).2
      refine ⟨(List.append_nil record).symm ▸ past.registered there, fun i broke => ?_⟩
      exact ⟨_, tail.symm.trans (by rw [broke]; rfl)⟩

theorem failed_not_mem_parting {f : Failure} {left : Option σ} : .failed t f ∉ parting u left := by
  unfold parting
  split <;> simp

theorem failed_of_account {event : LoopEvent} {f : Failure} {before after : List LoopEntry}
    (block : b.account u s event = before ++ .failed t f :: after) :
    ∃ i, before = [.dispatched t event (some i)] ∧ f = i.failure := by
  unfold Behaviour.account at block
  generalize (b.dispatch s event).interruption = interruption at block
  cases before with
  | nil => cases (List.cons.inj block).1
  | cons first rest =>
    obtain ⟨rfl, tail⟩ := List.cons.inj block
    cases interruption with
    | none =>
      have tail : parting u (b.outcome s event) = rest ++ .failed t f :: after := tail
      exact absurd (tail ▸ List.mem_append_right rest List.mem_cons_self) failed_not_mem_parting
    | some i =>
      cases rest with
      | nil =>
        obtain ⟨rfl, rfl⟩ := LoopEntry.failed.inj (List.cons.inj tail).1
        exact ⟨i, rfl, rfl⟩
      | cons told rest =>
        have tail : parting u (b.outcome s event) = rest ++ .failed t f :: after :=
          (List.cons.inj tail).2
        exact absurd (tail ▸ List.mem_append_right rest List.mem_cons_self) failed_not_mem_parting

theorem caused (h : Chronicle b actions present record) {before after : List LoopEntry}
    {f : Failure} (split : record = before ++ .failed t f :: after) :
    (∃ past event i, before = past ++ [.dispatched t event (some i)] ∧ f = i.failure) ∨
      f = .closed ∧ .stop ∈ actions := by
  have other {xs ys : List LoopEntry}
      (ih : ∀ {rest}, xs = before ++ .failed t f :: rest →
        (∃ past event i, before = past ++ [.dispatched t event (some i)] ∧ f = i.failure) ∨
          f = .closed ∧ .stop ∈ actions)
      (ending : .failed t f ∈ ys → f = .closed ∧ .stop ∈ actions) {after : List LoopEntry}
      (split : xs ++ ys = before ++ .failed t f :: after) :
      (∃ past event i, before = past ++ [.dispatched t event (some i)] ∧ f = i.failure) ∨
        f = .closed ∧ .stop ∈ actions := by
    rcases split_append split with ⟨rest, first, -⟩ | ⟨rest, -, rfl⟩
    · exact ih first
    · exact .inr (ending (List.mem_append_right _ List.mem_cons_self))
  induction h generalizing after with
  | empty => simp at split
  | added _ _ _ ih => exact other ih (by simp) split
  | deregistered _ _ _ ih => exact other ih (by simp) split
  | dismissed _ _ stopped ih => exact other ih (by simp +contextual [stopped]) split
  | turnedAway _ _ _ stopped ih => exact other ih (by simp +contextual [stopped]) split
  | @handled present record u s event _ _ ih =>
    rcases split_append split with ⟨rest, first, -⟩ | ⟨rest, rfl, block⟩
    · exact ih first
    · obtain ⟨i, rfl, cause⟩ := failed_of_account block
      exact .inl ⟨record, event, i, rfl, cause⟩

end Chronicle

end Loop

end PgPipeline
