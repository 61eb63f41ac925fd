import Mathlib.Data.List.Nodup
import PgPipeline.Proofs.Chronicle

namespace PgPipeline

variable {σ : Type}

def Command.registration? : Command σ → Option (Token × σ)
  | .register t s => some (t, s)
  | _ => none

namespace Loop

def waiting (commands : List (Command σ)) : List (Token × σ) :=
  commands.filterMap Command.registration?

variable {b : Behaviour σ} {actions : List (LoopAction σ)} {commands : List (Command σ)}
  {entries record : List LoopEntry} {t : Token} {s : σ}

theorem handedOver_concat (a : LoopAction σ) (quiet : handedOver [a] = []) :
    handedOver (actions ++ [a]) = handedOver actions := by
  by_cases stopped : .stop ∈ actions
  · exact handedOver_append_of_stop stopped [a]
  · rw [handedOver_append stopped, quiet, List.append_nil]

structure Awaited (actions : List (LoopAction σ)) (commands : List (Command σ))
    (record : List LoopEntry) : Prop where
  given : ∀ w ∈ waiting commands,
    (handedOver actions)[w.1]? = some w.2 ∧ w.1 ∉ record.map (·.token)
  once : ((waiting commands).map (·.1)).Nodup
  asked : ∀ t, .deregister t ∈ commands → .deregister t ∈ actions
  kept : .finish ∉ actions → ∀ t s, (handedOver actions)[t]? = some s →
    (t, s) ∈ waiting commands ∨ .added t ∈ record

namespace Awaited

theorem append (h : Awaited actions commands record)
    (about : ∀ entry ∈ entries, entry.token ∈ record.map (·.token)) :
    Awaited actions commands (record ++ entries) where
  given w mem := by
    refine ⟨(h.given w mem).1, fun mentioned => (h.given w mem).2 ?_⟩
    rw [List.map_append] at mentioned
    rcases List.mem_append.mp mentioned with before | now
    · exact before
    · obtain ⟨entry, there, same⟩ := List.mem_map.mp now
      exact same ▸ about entry there
  once := h.once
  asked := h.asked
  kept goes t s given := (h.kept goes t s given).imp_right (List.mem_append_left _)

theorem take (h : Awaited actions (.register t s :: commands) record) {entry : LoopEntry}
    (about : entry.token = t) (told : .finish ∉ actions → entry = .added t) :
    Awaited actions commands (record ++ [entry]) where
  given w mem := by
    have other : w.1 ≠ t := by
      rintro rfl
      exact (List.nodup_cons.mp h.once).1 (List.mem_map.mpr ⟨w, mem, rfl⟩)
    obtain ⟨given, new⟩ := h.given w (List.mem_cons_of_mem _ mem)
    exact ⟨given, by simpa [about, other] using new⟩
  once := (List.nodup_cons.mp h.once).2
  asked u mem := h.asked u (List.mem_cons_of_mem _ mem)
  kept goes u w given := by
    rcases h.kept goes u w given with waits | added
    · rcases List.mem_cons.mp waits with first | later
      · cases first
        exact .inr (List.mem_append_right _ (List.mem_singleton.mpr (told goes).symm))
      · exact .inl later
    · exact .inr (List.mem_append_left _ added)

theorem skip {command : Command σ} (h : Awaited actions (command :: commands) record)
    (none : command.registration? = none) : Awaited actions commands record := by
  have same : waiting (command :: commands) = waiting commands := List.filterMap_cons_none none
  exact ⟨same ▸ h.given, same ▸ h.once, fun u mem => h.asked u (List.mem_cons_of_mem _ mem),
    same ▸ h.kept⟩

theorem drop {taken : List (Command σ)} (h : Awaited actions (taken ++ commands) record)
    (ends : .finish ∈ actions) : Awaited actions commands record := by
  have all : waiting (taken ++ commands) = waiting taken ++ waiting commands :=
    List.filterMap_append
  refine ⟨fun w mem => h.given w (all ▸ List.mem_append_right _ mem), ?_,
    fun u mem => h.asked u (List.mem_append_right _ mem), fun goes => absurd ends goes⟩
  have once := h.once
  rw [all, List.map_append] at once
  exact once.of_append_right

theorem extend (h : Awaited actions commands record) {a : LoopAction σ}
    (same : handedOver (actions ++ [a]) = handedOver actions) :
    Awaited (actions ++ [a]) commands record where
  given := same ▸ h.given
  once := h.once
  asked u mem := List.mem_append_left _ (h.asked u mem)
  kept goes := same ▸ h.kept fun mem => goes (List.mem_append_left _ mem)

theorem ask {command : Command σ} (h : Awaited actions commands record)
    (none : command.registration? = none)
    (asked : ∀ u, command = .deregister u → .deregister u ∈ actions) :
    Awaited actions (commands ++ [command]) record := by
  have same : waiting (commands ++ [command]) = waiting commands := by
    rw [waiting, List.filterMap_append, List.filterMap_cons_none none, List.filterMap_nil,
      List.append_nil]
    rfl
  refine ⟨same ▸ h.given, same ▸ h.once, fun u mem => ?_, same ▸ h.kept⟩
  rcases List.mem_append.mp mem with mem | mem
  · exact h.asked u mem
  · exact asked u (List.mem_singleton.mp mem).symm

theorem handOver (h : Awaited actions commands record) (goes : .stop ∉ actions) (s : σ)
    (mentioned : ∀ entry ∈ record, ∃ s, (handedOver actions)[entry.token]? = some s) :
    Awaited (actions ++ [.register s]) (commands ++ [.register (handedOver actions).length s])
      record := by
  have all : handedOver (actions ++ [.register s]) = handedOver actions ++ [s] :=
    handedOver_append goes _
  have waits : waiting (commands ++ [.register (handedOver actions).length s]) =
      waiting commands ++ [((handedOver actions).length, s)] := List.filterMap_append
  have bound {u : Token} {w : σ} (given : (handedOver actions)[u]? = some w) :
      u < (handedOver actions).length := (List.getElem?_eq_some_iff.mp given).1
  refine ⟨fun w mem => ?_, ?_, fun u mem => ?_, fun ends u w given => ?_⟩
  · rw [waits] at mem
    rw [all]
    rcases List.mem_append.mp mem with mem | mem
    · obtain ⟨given, new⟩ := h.given w mem
      exact ⟨by rw [List.getElem?_append_left (bound given), given], new⟩
    · obtain rfl := List.mem_singleton.mp mem
      refine ⟨by simp, fun mem => ?_⟩
      obtain ⟨entry, there, same⟩ := List.mem_map.mp mem
      obtain ⟨w, given⟩ := mentioned entry there
      exact absurd (bound given) (by simp [same])
  · rw [waits, List.map_append]
    refine List.nodup_append.mpr ⟨h.once, List.nodup_singleton _, ?_⟩
    rintro u mem _ last rfl
    obtain ⟨w, waits, rfl⟩ := List.mem_map.mp mem
    have same : w.1 = (handedOver actions).length := List.mem_singleton.mp last
    exact Nat.ne_of_lt (bound (h.given w waits).1) same
  · rcases List.mem_append.mp mem with mem | mem
    · exact List.mem_append_left _ (h.asked u mem)
    · cases List.mem_singleton.mp mem
  · rw [waits]
    rw [all] at given
    rcases Nat.lt_or_ge u (handedOver actions).length with old | new
    · rw [List.getElem?_append_left old] at given
      exact (h.kept (fun mem => ends (List.mem_append_left _ mem)) u w given).imp_left
        (List.mem_append_left _)
    · rw [List.getElem?_append_right new] at given
      have last := (List.getElem?_eq_some_iff.mp given).1
      obtain rfl : u = (handedOver actions).length :=
        Nat.le_antisymm (Nat.le_of_sub_eq_zero (Nat.lt_one_iff.mp last)) new
      exact .inl (List.mem_append_right _ (by simpa using given.symm))

end Awaited

/-- The services that are told that the loop ends, of those that wait: all up to the first one that
breaks off over it. -/
def turnedAway (b : Behaviour σ) : List (Token × σ) → List Token
  | [] => []
  | (t, s) :: rest =>
    match (b.onError s .closed).interruption with
    | none => t :: turnedAway b rest
    | some _ => [t]

theorem mem_turnedAway {before after : List (Token × σ)} {t : Token} {s : σ}
    (once : ((before ++ (t, s) :: after).map (·.1)).Nodup) :
    t ∈ turnedAway b (before ++ (t, s) :: after) ↔
      ∀ w ∈ before, (b.onError w.2 .closed).interruption = none := by
  induction before with
  | nil =>
    refine iff_of_true ?_ (by simp)
    rw [List.nil_append, turnedAway]
    split <;> exact List.mem_cons_self
  | cons w rest ih =>
    obtain ⟨new, once⟩ := List.nodup_cons.mp once
    have other : t ≠ w.1 := by
      rintro rfl
      exact new (by simp)
    rw [List.cons_append, turnedAway, List.forall_mem_cons, ← ih once]
    cases (b.onError w.2 .closed).interruption <;> simp [other]

theorem turnedAway_sublist (b : Behaviour σ) (ws : List (Token × σ)) :
    (turnedAway b ws).Sublist (ws.map (·.1)) := by
  induction ws with
  | nil => exact .slnil
  | cons w rest ih =>
    rw [turnedAway]
    split
    · exact ih.cons_cons _
    · exact (List.nil_sublist _).cons_cons _

end Loop

end PgPipeline
