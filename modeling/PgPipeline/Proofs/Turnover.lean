import PgPipeline.Proofs.Chronicle

namespace PgPipeline

namespace Loop

open Function (update)

variable {σ : Type}

def present (l : Loop σ) (t : Token) : Option σ := (l.service? t).map (·.service)

def exchange (services : List (Registered σ)) (r : Registered σ) : List (Registered σ) :=
  services.map fun old => if old.token == r.token then r else old

def settle (services : List (Registered σ)) (t : Token) : Option σ → List (Registered σ)
  | none => services.filter fun r => r.token != t
  | some s => exchange services ⟨t, s, true⟩

variable {b : Behaviour σ} {l : Loop σ} {services : List (Registered σ)} {t u : Token} {s : σ}
  {r : Registered σ}

theorem token_of_find? (found : services.find? (fun r => r.token == t) = some r) : r.token = t := by
  simpa using List.find?_some found

theorem present_of_service? (found : l.service? t = some r) : l.present t = some r.service :=
  congrArg _ found

theorem find?_exchange (services : List (Registered σ)) (r : Registered σ) (u : Token) :
    (exchange services r).find? (fun r => r.token == u) =
      (services.find? fun r => r.token == u).map
        fun old => if old.token == r.token then r else old := by
  rw [exchange, List.find?_map]
  congr 2
  funext old
  by_cases hit : old.token = r.token <;> simp [hit]

theorem find?_exchange_self (found : services.find? (fun r => r.token == t) = some r)
    {r' : Registered σ} (same : r'.token = t) :
    (exchange services r').find? (fun r => r.token == t) = some r' := by
  have hit : r.token = t := token_of_find? found
  rw [find?_exchange, found]
  simp [hit, same]

theorem exchange_tokens (services : List (Registered σ)) (r : Registered σ) :
    (exchange services r).map (·.token) = services.map (·.token) := by
  rw [exchange, List.map_map]
  refine List.map_congr_left fun old _ => ?_
  by_cases hit : old.token = r.token <;> simp [hit]

theorem settle_exchange (services : List (Registered σ)) (same : r.token = t) (left : Option σ) :
    settle (exchange services r) t left = settle services t left := by
  subst same
  cases left with
  | none =>
    induction services with
    | nil => rfl
    | cons old rest ih =>
      simp only [settle, exchange, List.map_cons, List.filter_cons] at ih ⊢
      rw [ih]
      by_cases hit : old.token = r.token <;> simp [hit]
  | some s =>
    rw [settle, settle, exchange, exchange, exchange, List.map_map]
    refine List.map_congr_left fun old _ => ?_
    by_cases hit : old.token = r.token <;> simp [hit]

theorem find?_settle (found : services.find? (fun r => r.token == t) = some r) (left : Option σ) :
    (fun u => ((settle services t left).find? fun r => r.token == u).map (·.service)) =
      update (fun u => (services.find? fun r => r.token == u).map (·.service)) t left := by
  funext u
  by_cases same : u = t
  · subst same
    rw [Function.update_self]
    cases left with
    | none => simp [settle, List.find?_filter]
    | some s => rw [settle, find?_exchange_self found rfl, Option.map_some]
  · rw [Function.update_of_ne same]
    cases left with
    | none =>
      rw [settle, List.find?_filter]
      congr 2
      funext r
      by_cases hit : r.token = u <;> simp [hit, same]
    | some s =>
      rw [settle, find?_exchange]
      cases other : services.find? fun r => r.token == u with
      | none => rfl
      | some r' =>
        have hit : r'.token = u := token_of_find? other
        simp [hit, same]

theorem settle_tokens (services : List (Registered σ)) (t : Token) (left : Option σ) :
    (settle services t left).map (·.token) =
      if left.isSome then services.map (·.token) else (services.map (·.token)).filter (· != t) := by
  cases left with
  | none =>
    rw [settle, Option.isSome_none, if_neg Bool.false_ne_true, List.filter_map]
    rfl
  | some s => exact exchange_tokens services _

theorem find?_concat (absent : services.find? (fun r => r.token == t) = none)
    {r : Registered σ} (same : r.token = t) :
    (fun u => ((services ++ [r]).find? fun r => r.token == u).map (·.service)) =
      update (fun u => (services.find? fun r => r.token == u).map (·.service)) t
        (some r.service) := by
  subst same
  funext u
  rw [List.find?_append]
  by_cases same : u = r.token
  · subst same
    rw [Function.update_self, absent]
    simp
  · rw [Function.update_of_ne same]
    simp [Ne.symm same]

def enrol (l : Loop σ) (t : Token) (s : σ) : Loop σ :=
  { l with
    registrations := l.registrations + 1, active := l.active + 1,
    services := l.services ++ [(⟨t, s, false⟩ : Registered σ)] }.enter (.added t)

theorem add_of_hasSocket (socket : b.hasSocket s = true) :
    l.add b t s = (l.enrol t s).dispatch b t .notified := by
  rw [add, if_pos socket]
  rfl

theorem present_enrol (absent : l.service? t = none) (s : σ) :
    (l.enrol t s).present = update l.present t (some s) := find?_concat absent rfl

theorem remove_of_service? (found : l.service? t = some r) :
    l.remove t = { l with
      services := settle l.services t none, active := l.active - 1,
      record := l.record ++ [.removed t] } := by
  rw [remove, found]
  rfl

structure Leaves (l : Loop σ) (t : Token) (left : Option σ) (entries : List LoopEntry)
    (l' : Loop σ) : Prop where
  services : l'.services = settle l.services t left
  record : l'.record = l.record ++ entries
  active : l'.active = if left.isSome then l.active else l.active - 1
  serviced : l'.serviced = l.serviced
  nextToken : l'.nextToken = l.nextToken
  commands : l'.commands = l.commands
  stopping : l'.stopping = l.stopping
  registrations : l'.registrations = l.registrations

namespace Leaves

variable {l' l'' : Loop σ} {entries more : List LoopEntry} {left : Option σ}

theorem present (h : Leaves l t left entries l') (found : l.service? t = some r) :
    l'.present = update l.present t left := by
  refine Eq.trans ?_ (find?_settle found left)
  rw [← h.services]
  rfl

theorem trans (h : Leaves l t (some s) entries l') (k : Leaves l' t left more l'') :
    Leaves l t left (entries ++ more) l'' where
  services := by rw [k.services, h.services, settle, settle_exchange _ rfl]
  record := by rw [k.record, h.record, List.append_assoc]
  active := by rw [k.active, h.active, Option.isSome_some, if_pos rfl]
  serviced := k.serviced.trans h.serviced
  nextToken := k.nextToken.trans h.nextToken
  commands := k.commands.trans h.commands
  stopping := k.stopping.trans h.stopping
  registrations := k.registrations.trans h.registrations

theorem service? (h : Leaves l t (some s) entries l') (found : l.service? t = some r) :
    l'.service? t = some ⟨t, s, true⟩ := by
  rw [Loop.service?, h.services]
  exact find?_exchange_self found rfl

theorem remove (found : l.service? t = some r) : Leaves l t none [.removed t] (l.remove t) := by
  rw [remove_of_service? found]
  exact ⟨rfl, rfl, rfl, rfl, rfl, rfl, rfl, rfl⟩

theorem reconcile (h : Leaves l t (some s) entries l') (found : l.service? t = some r) :
    Leaves l t (b.settled s) (entries ++ parting t (b.settled s)) (l'.reconcile b t) := by
  have there := h.service? found
  unfold Loop.reconcile Behaviour.settled
  rw [there]
  dsimp only
  split
  · exact h.trans (remove there)
  · rw [parting, List.append_nil]
    exact h

theorem fail (found : l.service? t = some r) (s : σ) (f : Failure) :
    Leaves l t (b.chastened s f) (.failed t f :: parting t (b.chastened s f))
      (l.fail b ⟨t, s, true⟩ f) := by
  let told := (({ l with errors := l.errors + 1 }.enter (.failed t f)).replace
    ⟨t, (b.onError s f).after, true⟩).schedule t (b.onError s f).delays
  have answered : Leaves l t (some (b.onError s f).after) [.failed t f] told :=
    ⟨rfl, rfl, rfl, rfl, rfl, rfl, rfl, rfl⟩
  unfold Loop.fail Behaviour.chastened
  dsimp only
  cases (b.onError s f).interruption with
  | none => exact answered.reconcile found
  | some _ => exact answered.trans (remove (answered.service? found))

theorem dispatch (found : l.service? t = some r) (event : LoopEvent) :
    Leaves (l.count r) t (b.outcome r.service event) (b.account t r.service event)
      (l.dispatch b t event) := by
  have there : (l.count r).service? t = some r := found
  unfold Loop.dispatch Behaviour.account Behaviour.outcome
  rw [found]
  dsimp only
  obtain ⟨after, delays, interruption⟩ := b.dispatch r.service event
  let handed := (((l.count r).enter (.dispatched t event interruption)).replace
    ⟨t, after, true⟩).schedule t delays
  have answered : Leaves (l.count r) t (some after) [.dispatched t event interruption] handed :=
    ⟨rfl, rfl, rfl, rfl, rfl, rfl, rfl, rfl⟩
  cases interruption with
  | none => exact answered.reconcile there
  | some i => exact answered.trans (fail (answered.service? there) after i.failure)

theorem dismiss (found : l.service? r.token = some r) :
    Leaves l r.token none [.failed r.token .closed, .removed r.token] (l.dismiss b r) := by
  unfold Loop.dismiss
  dsimp only
  generalize (b.onError r.service .closed).after = after
  have there : ((l.enter (.failed r.token .closed)).replace { r with service := after }).service?
      r.token = some { r with service := after } := find?_exchange_self found rfl
  have left : settle (exchange l.services { r with service := after }) r.token none =
      settle l.services r.token none := settle_exchange _ rfl _
  rw [remove_of_service? there]
  exact ⟨left, List.append_assoc .., rfl, rfl, rfl, rfl, rfl, rfl⟩

end Leaves

end Loop

end PgPipeline
