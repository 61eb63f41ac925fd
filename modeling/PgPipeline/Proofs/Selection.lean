import PgPipeline.Auth.Mechanism
import Mathlib.Logic.Basic

namespace PgPipeline.Mechanism

variable {offered preferred : List String} {policy : BindingPolicy}
  {binding : Option Bytes} {m n : Mechanism} {mode : BindingMode} {α : Type}

theorem mem_all (m : Mechanism) : m ∈ all := by
  cases m <;> decide

theorem ofName?_eq_some_iff {name : String} : ofName? name = some m ↔ name = m.name := by
  constructor
  · intro found
    rw [ofName?] at found
    exact (eq_of_beq (List.find?_eq_some_iff_append.mp found).1).symm
  · rintro rfl
    cases m <;> decide

def IsUsable (policy : BindingPolicy) (binding : Option Bytes) : Mechanism → Prop
  | scramPlus => policy ≠ .disable ∧ ∃ data, binding = some data
  | scram => policy ≠ .require

structure IsEligible (offered : List String) (policy : BindingPolicy) (binding : Option Bytes)
    (m : Mechanism) : Prop where
  offered : m.name ∈ offered
  usable : m.IsUsable policy binding

/-- A mechanism that the caller names; one that names none leaves the choice among all. -/
def IsWanted (preferred : List String) (m : Mechanism) : Prop :=
  preferred = [] ∨ m.name ∈ preferred

/-- A mechanism that the caller wants at least as much as any other with the property: by its place
in the list, or by its rank if there is no list. -/
inductive IsForemost (preferred : List String) (P : Mechanism → Prop) (m : Mechanism) : Prop
  | listed {before behind : List String} (place : preferred = before ++ m.name :: behind)
    (first : ∀ n, P n → n.name ∉ before)
  | ranked (unlisted : preferred = []) (least : ∀ n, P n → m.rank ≤ n.rank)

theorem IsForemost.isWanted {P : Mechanism → Prop} (h : IsForemost preferred P m) :
    IsWanted preferred m := by
  cases h with
  | listed place => exact .inr (place ▸ List.mem_append_right _ List.mem_cons_self)
  | ranked unlisted => exact .inl unlisted

theorem mem_candidates : m ∈ candidates preferred ↔ IsWanted preferred m := by
  unfold candidates IsWanted
  cases preferred with
  | nil => exact iff_of_true (mem_all m) (.inl rfl)
  | cons name preferred =>
    simp only [List.isEmpty_cons, Bool.false_eq_true, if_false, List.mem_filterMap,
      ofName?_eq_some_iff, exists_eq_right, reduceCtorEq, false_or]

theorem candidates_eq_append (listed : preferred ≠ []) {earlier later : List Mechanism}
    (split : candidates preferred = earlier ++ m :: later) :
    ∃ before behind, preferred = before ++ m.name :: behind ∧
      ∀ n, n ∉ earlier → n.name ∉ before := by
  rw [candidates, if_neg (by simpa using listed)] at split
  obtain ⟨front, rest, rfl, taken, split⟩ := List.filterMap_eq_append_iff.mp split
  obtain ⟨skipped, name, behind, rfl, unknown, known, -⟩ := List.filterMap_eq_cons_iff.mp split
  obtain rfl := ofName?_eq_some_iff.mp known
  refine ⟨front ++ skipped, behind, (List.append_assoc _ _ _).symm, fun n absent mem => ?_⟩
  have found : ofName? n.name = some n := ofName?_eq_some_iff.mpr rfl
  rcases List.mem_append.mp mem with mem | mem
  · exact absent (taken ▸ List.mem_filterMap.mpr ⟨_, mem, found⟩)
  · exact absurd ((unknown _ mem).symm.trans found) nofun

theorem foremost_of_findSome? {f : Mechanism → Option α} {x : α}
    (found : (candidates preferred).findSome? f = some x) :
    ∃ m, f m = some x ∧ IsForemost preferred (fun n => f n ≠ none) m := by
  by_cases listed : preferred = []
  · subst listed
    cases first : f scramPlus with
    | some y =>
      have same : y = x := by simpa [candidates, all, first] using found
      refine ⟨scramPlus, by rw [first, same], .ranked rfl fun n _ => ?_⟩
      exact Nat.zero_le _
    | none =>
      have second : f scram = some x := by simpa [candidates, all, first] using found
      refine ⟨scram, second, .ranked rfl fun n holds => ?_⟩
      cases n with
      | scramPlus => exact absurd first holds
      | scram => exact Nat.le_refl _
  · obtain ⟨earlier, m, later, split, here, none⟩ := List.findSome?_eq_some_iff.mp found
    obtain ⟨before, behind, place, skipped⟩ := candidates_eq_append listed split
    refine ⟨m, here, .listed place fun n holds => skipped n fun mem => ?_⟩
    exact holds (none n mem)

inductive UsesMode (offered : List String) (policy : BindingPolicy) (binding : Option Bytes) :
    Mechanism → BindingMode → Prop
  | bound {data : Bytes} (known : binding = some data) :
    UsesMode offered policy binding scramPlus (.endPoint data)
  | able (free : binding ≠ none ∧ policy ≠ .disable ∧ scramPlus.name ∉ offered) :
    UsesMode offered policy binding scram .notOffered
  | unable (barred : ¬ (binding ≠ none ∧ policy ≠ .disable ∧ scramPlus.name ∉ offered)) :
    UsesMode offered policy binding scram .unsupported

theorem mode?_eq_some_iff : m.mode? offered policy binding = some mode ↔
    m.IsUsable policy binding ∧ UsesMode offered policy binding m mode := by
  cases m with
  | scramPlus =>
    simp only [mode?, bindsChannel, if_true, IsUsable, ne_eq]
    constructor
    · intro used
      obtain ⟨enabled, used⟩ := Option.ite_none_left_eq_some.mp used
      obtain ⟨data, known, rfl⟩ := Option.map_eq_some_iff.mp used
      exact ⟨⟨enabled, data, known⟩, .bound known⟩
    · rintro ⟨⟨enabled, -⟩, ⟨known⟩⟩
      rw [if_neg enabled, known]
      rfl
  | scram =>
    simp only [mode?, bindsChannel, Bool.false_eq_true, if_false, IsUsable,
      Option.isSome_iff_ne_none]
    constructor
    · intro used
      obtain ⟨optional, used⟩ := Option.ite_none_left_eq_some.mp used
      split at used <;> cases used
      · exact ⟨optional, .able ‹_›⟩
      · exact ⟨optional, .unable ‹_›⟩
    · rintro ⟨optional, used⟩
      rw [if_neg optional]
      cases used with
      | able free => rw [if_pos free]
      | unable barred => rw [if_neg barred]

def choice? (offered : List String) (policy : BindingPolicy) (binding : Option Bytes)
    (m : Mechanism) : Option (Mechanism × BindingMode) :=
  if m.name ∈ offered then (m.mode? offered policy binding).map fun mode => (m, mode) else none

theorem choice?_eq_some_iff : choice? offered policy binding m = some (n, mode) ↔
    n = m ∧ IsEligible offered policy binding m ∧ UsesMode offered policy binding m mode := by
  rw [choice?, Option.ite_none_right_eq_some, Option.map_eq_some_iff]
  constructor
  · rintro ⟨listed, mode, used, same⟩
    cases same
    obtain ⟨usable, uses⟩ := mode?_eq_some_iff.mp used
    exact ⟨rfl, ⟨listed, usable⟩, uses⟩
  · rintro ⟨rfl, ⟨listed, usable⟩, uses⟩
    exact ⟨listed, mode, mode?_eq_some_iff.mpr ⟨usable, uses⟩, rfl⟩

theorem exists_mode (usable : m.IsUsable policy binding) (offered : List String) :
    ∃ mode, UsesMode offered policy binding m mode := by
  cases m with
  | scramPlus =>
    obtain ⟨-, data, known⟩ := usable
    exact ⟨_, .bound known⟩
  | scram =>
    by_cases free : binding ≠ none ∧ policy ≠ .disable ∧ scramPlus.name ∉ offered
    · exact ⟨_, .able free⟩
    · exact ⟨_, .unable free⟩

theorem choice?_ne_none_iff : choice? offered policy binding m ≠ none ↔
    IsEligible offered policy binding m := by
  rw [Option.ne_none_iff_exists']
  constructor
  · rintro ⟨⟨n, mode⟩, chosen⟩
    exact (choice?_eq_some_iff.mp chosen).2.1
  · intro eligible
    obtain ⟨mode, uses⟩ := exists_mode eligible.usable offered
    exact ⟨(m, mode), choice?_eq_some_iff.mpr ⟨rfl, eligible, uses⟩⟩

def refusal (offered : List String) (policy : BindingPolicy) (binding : Option Bytes) :
    MechanismError :=
  if policy = .require then .bindingUnavailable offered binding.isSome else .noneSupported offered

theorem select_eq : select offered preferred policy binding =
    match (candidates preferred).findSome? (choice? offered policy binding) with
    | some choice => .ok choice
    | none => .error (refusal offered policy binding) := by
  unfold refusal
  rw [apply_ite Except.error]
  rfl

theorem foremost_of_select (chosen : select offered preferred policy binding = .ok (m, mode)) :
    IsEligible offered policy binding m ∧ UsesMode offered policy binding m mode ∧
      IsForemost preferred (IsEligible offered policy binding) m := by
  rw [select_eq] at chosen
  split at chosen <;> cases chosen
  next found =>
  obtain ⟨n, here, foremost⟩ := foremost_of_findSome? found
  obtain ⟨rfl, eligible, uses⟩ := choice?_eq_some_iff.mp here
  simp only [choice?_ne_none_iff] at foremost
  exact ⟨eligible, uses, foremost⟩

theorem select_eq_error_iff {e : MechanismError} :
    select offered preferred policy binding = .error e ↔
      (∀ m, IsWanted preferred m → ¬ IsEligible offered policy binding m) ∧
        e = refusal offered policy binding := by
  have barren : (∀ m, IsWanted preferred m → ¬ IsEligible offered policy binding m) ↔
      (candidates preferred).findSome? (choice? offered policy binding) = none := by
    simp only [← mem_candidates, ← choice?_ne_none_iff, not_not, List.findSome?_eq_none_iff]
  rw [barren, select_eq]
  cases (candidates preferred).findSome? (choice? offered policy binding) with
  | some choice => simp
  | none => simp [eq_comm]

/-- A mechanism is chosen exactly if one that is wanted is offered and usable, and then the one that
is wanted most. It is bound to the channel exactly if it is the mechanism that binds, and with the
data of this very channel; the server is told that it did not offer binding only where the client
could bind and the server did not offer it; and where binding is required nothing else is chosen.
All that is left is a failed authentication. -/
theorem select_takes_foremost (offered preferred : List String) (policy : BindingPolicy)
    (binding : Option Bytes) :
    ((∃ m mode, select offered preferred policy binding = .ok (m, mode)) ↔
      ∃ m, IsWanted preferred m ∧ IsEligible offered policy binding m) ∧
    (∀ m mode, select offered preferred policy binding = .ok (m, mode) →
      IsEligible offered policy binding m ∧
      IsForemost preferred (IsEligible offered policy binding) m ∧
      (m = .scramPlus ↔ ∃ data, binding = some data ∧ mode = .endPoint data) ∧
      (∀ data, mode = .endPoint data → m = .scramPlus ∧ binding = some data) ∧
      (mode = .notOffered → scramPlus.name ∉ offered ∧ binding ≠ none) ∧
      (policy = .require → m = .scramPlus)) ∧
    ∀ e, select offered preferred policy binding = .error e →
      e = refusal offered policy binding ∧ e.failure = .authentication e.message := by
  refine ⟨⟨?_, ?_⟩, ?_, fun e failed => ⟨(select_eq_error_iff.mp failed).2, rfl⟩⟩
  · rintro ⟨m, mode, chosen⟩
    obtain ⟨eligible, -, foremost⟩ := foremost_of_select chosen
    exact ⟨m, foremost.isWanted, eligible⟩
  · rintro ⟨m, wanted, eligible⟩
    cases chosen : select offered preferred policy binding with
    | ok choice => exact ⟨choice.1, choice.2, rfl⟩
    | error e => exact absurd eligible ((select_eq_error_iff.mp chosen).1 m wanted)
  · intro m mode chosen
    obtain ⟨eligible, uses, foremost⟩ := foremost_of_select chosen
    refine ⟨eligible, foremost, ?_, ?_, ?_, ?_⟩
    · cases uses with
      | bound known => exact iff_of_true rfl ⟨_, known, rfl⟩
      | able | unable => exact iff_of_false nofun nofun
    · rintro data rfl
      cases uses with
      | bound known => exact ⟨rfl, known⟩
    · rintro rfl
      cases uses with
      | able free => exact ⟨free.2.2, free.1⟩
    · rintro rfl
      cases m with
      | scramPlus => rfl
      | scram => exact absurd rfl eligible.usable

theorem select_takes_foremost_listed :
    select ["SCRAM-SHA-256-PLUS", "SCRAM-SHA-256"] ["GSSAPI", "SCRAM-SHA-256", "SCRAM-SHA-256-PLUS"]
      .prefer (some [7]) = .ok (scram, .unsupported) ∧
    IsForemost ["GSSAPI", "SCRAM-SHA-256", "SCRAM-SHA-256-PLUS"]
      (IsEligible ["SCRAM-SHA-256-PLUS", "SCRAM-SHA-256"] .prefer (some [7])) scram :=
  have chosen : select ["SCRAM-SHA-256-PLUS", "SCRAM-SHA-256"]
      ["GSSAPI", "SCRAM-SHA-256", "SCRAM-SHA-256-PLUS"] .prefer (some [7]) =
        .ok (scram, .unsupported) := rfl
  ⟨chosen, ((select_takes_foremost _ _ _ _).2.1 _ _ chosen).2.1⟩

end PgPipeline.Mechanism
