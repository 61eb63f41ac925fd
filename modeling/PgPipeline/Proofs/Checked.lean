import Mathlib.Data.List.Forall2

namespace PgPipeline

variable {α β δ ε : Type}

theorem bind_ok {x : Except ε α} {f : α → Except ε β} {b : β} (h : (x >>= f) = .ok b) :
    ∃ a, x = .ok a ∧ f a = .ok b := by
  cases x with
  | error e => cases h
  | ok a => exact ⟨a, rfl, h⟩

theorem bind_eq_ok_iff {x : Except ε α} {f : α → Except ε β} {b : β} :
    (x >>= f) = .ok b ↔ ∃ a, x = .ok a ∧ f a = .ok b := by
  refine ⟨bind_ok, ?_⟩
  rintro ⟨a, rfl, h⟩
  exact h

theorem map_ok {x : Except ε α} {f : α → β} {b : β} (h : x.map f = .ok b) :
    ∃ a, x = .ok a ∧ f a = b := by
  cases x with
  | error e => cases h
  | ok a =>
    cases h
    exact ⟨a, rfl, rfl⟩

theorem mapError_ok {x : Except ε α} {f : ε → δ} {a : α} (h : x.mapError f = .ok a) :
    x = .ok a := by
  cases x with
  | error e => cases h
  | ok b =>
    cases h
    rfl

theorem mapM_ok {f : α → Except ε β} {xs : List α} {ys : List β} (h : xs.mapM f = .ok ys) :
    List.Forall₂ (fun x y => f x = .ok y) xs ys := by
  induction xs generalizing ys with
  | nil =>
    cases h
    exact .nil
  | cons x xs ih =>
    rw [List.mapM_cons] at h
    obtain ⟨y, first, h⟩ := bind_ok h
    obtain ⟨rest, others, h⟩ := bind_ok h
    cases h
    exact .cons first (ih others)

theorem mapM_of_forall₂ {f : α → Except ε β} {xs : List α} {ys : List β}
    (each : List.Forall₂ (fun x y => f x = .ok y) xs ys) : xs.mapM f = .ok ys := by
  induction each with
  | nil => rfl
  | cons first _ ih =>
    rw [List.mapM_cons, first, ih]
    rfl

theorem mapM_eq_ok {f : α → Except ε β} {g : α → β} {xs : List α}
    (each : ∀ x ∈ xs, f x = .ok (g x)) : xs.mapM f = .ok (xs.map g) := by
  induction xs with
  | nil => rfl
  | cons x xs ih =>
    have rest := ih fun y mem => each y (List.mem_cons_of_mem _ mem)
    rw [List.mapM_cons, each x List.mem_cons_self, rest]
    rfl

theorem foldlM_keeps {P : β → Prop} {f : β → α → Except ε β} {xs : List α}
    (step : ∀ b, ∀ x ∈ xs, ∀ d, P b → f b x = .ok d → P d) {b d : β} (start : P b)
    (folded : xs.foldlM f b = .ok d) : P d := by
  induction xs generalizing b with
  | nil =>
    cases folded
    exact start
  | cons x rest ih =>
    rw [List.foldlM_cons] at folded
    obtain ⟨next, first, folded⟩ := bind_ok folded
    refine ih (fun b y mem => step b y (List.mem_cons_of_mem _ mem)) ?_ folded
    exact step b x List.mem_cons_self next start first

end PgPipeline
