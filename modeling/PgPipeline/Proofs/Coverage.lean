import PgPipeline.Proofs.Record
import PgPipeline.Proofs.Sequencer

namespace PgPipeline

open scoped List

variable {ρ : Type}

/-- What is outstanding and what a sequencer holds are the numbers below `top` that were not
released, and the others were released in order. -/
structure Covers (s : Sequencer (Resolution ρ)) (outstanding : List Nat) (top : Nat)
    (resolved : List Nat) : Prop where
  tidy : s.Tidy
  labelled : ∀ p ∈ s.held, p.2.number = p.1
  le : s.next ≤ top
  parts : (outstanding ++ Sequencer.keys s.held).Perm (List.range' s.next (top - s.next))
  resolved : resolved = List.range s.next

namespace Covers

variable {s : Sequencer (Resolution ρ)} {os ps : List Nat} {n top : Nat} {res : List Nat}

theorem perm (h : Covers s os top res) (p : ps.Perm os) : Covers s ps top res :=
  { h with parts := (p.append_right _).trans h.parts }

theorem grow (h : Covers s os top res) : Covers s (os ++ [top]) (top + 1) res := by
  refine { h with le := Nat.le_succ_of_le h.le, parts := ?_ }
  have last : top + 1 - s.next = top - s.next + 1 := Nat.succ_sub h.le
  have end_ : s.next + (top - s.next) = top := Nat.add_sub_cancel' h.le
  have front : (os ++ [top] ++ Sequencer.keys s.held).Perm
      (os ++ Sequencer.keys s.held ++ [top]) := by
    rw [List.append_assoc, List.append_assoc]
    exact List.perm_append_comm.append_left os
  rw [last, List.range'_1_concat, end_]
  exact front.trans (h.parts.append_right [top])

theorem due (h : Covers s (n :: os) top res) : s.next ≤ n ∧ n ∉ Sequencer.keys s.held := by
  have mem : n ∈ List.range' s.next (top - s.next) := h.parts.subset (by simp)
  have nodup : (n :: os ++ Sequencer.keys s.held).Nodup :=
    h.parts.nodup_iff.mpr List.nodup_range'
  refine ⟨(List.mem_range'_1.mp mem).1, fun held => ?_⟩
  exact (List.nodup_append.mp nodup).2.2 n List.mem_cons_self n held rfl

theorem resolve (h : Covers s (n :: os) top res) (result : Except Failure ρ) :
    Covers (s.resolve n ⟨n, result⟩).2 os top
      (res ++ (s.resolve n ⟨n, result⟩).1.map (·.number)) := by
  obtain ⟨taken, hins, hout, hkeys, hnext, htidy⟩ :=
    Sequencer.resolve_spec h.tidy (⟨n, result⟩ : Resolution ρ) h.due.1 h.due.2
  generalize (s.resolve n ⟨n, result⟩).2 = s' at *
  have labelled : ∀ p ∈ taken ++ s'.held, p.2.number = p.1 := by
    intro p hp
    rcases Sequencer.mem_insert (hins ▸ hp) with rfl | hp
    · rfl
    · exact h.labelled p hp
  have released : (taken.map (·.2)).map (·.number) = List.range' s.next taken.length := by
    rw [← hkeys, List.map_map]
    exact List.map_congr_left fun p hp => labelled p (List.mem_append_left _ hp)
  have inserted : (List.range' s.next taken.length ++ (os ++ Sequencer.keys s'.held)).Perm
      (List.range' s.next (top - s.next)) := by
    have keys_ := Sequencer.keys_insert_perm (⟨n, result⟩ : Resolution ρ) h.due.2
    rw [hins] at keys_
    simp only [Sequencer.keys, List.map_append] at keys_ hkeys
    rw [hkeys] at keys_
    calc List.range' s.next taken.length ++ (os ++ Sequencer.keys s'.held)
        ~ os ++ (List.range' s.next taken.length ++ Sequencer.keys s'.held) := by
          rw [← List.append_assoc, ← List.append_assoc]
          exact List.perm_append_comm.append_right _
      _ ~ os ++ (n :: Sequencer.keys s.held) := keys_.append_left os
      _ ~ n :: os ++ Sequencer.keys s.held := List.perm_middle
      _ ~ List.range' s.next (top - s.next) := h.parts
  have length : taken.length ≤ top - s.next := by
    have := inserted.length_eq
    simp only [List.length_append, List.length_range'] at this
    omega
  refine ⟨htidy, fun p hp => labelled p (List.mem_append_right _ hp), ?_, ?_, ?_⟩
  · have := h.le
    omega
  · have rest : top - s.next = taken.length + (top - s'.next) := by omega
    rw [rest, ← List.range'_append_1, ← hnext] at inserted
    exact (List.perm_append_left_iff _).mp inserted
  · rw [h.resolved, hout, released, hnext, List.range_eq_range', List.range_eq_range']
    simpa using List.range'_append_1 (s := 0) (m := s.next) (n := taken.length)

theorem complete (h : Covers s [] top res) : s.held = [] ∧ res = List.range top := by
  have next : s.next = top := by
    refine Nat.le_antisymm h.le (Nat.le_of_not_lt fun lt => ?_)
    have mem : s.next ∈ List.range' s.next (top - s.next) := List.mem_range'_1.mpr (by omega)
    have held : s.next ∈ Sequencer.keys s.held := by simpa using h.parts.symm.subset mem
    exact Nat.lt_irrefl _ (h.tidy.beyond _ held)
  have empty : Sequencer.keys s.held = [] := by
    simpa [next] using h.parts
  exact ⟨List.map_eq_nil_iff.mp empty, next ▸ h.resolved⟩

end Covers

namespace Connection

theorem resolve_covers (c : Connection ρ) {n top : Nat} {os : List Nat}
    (h : Covers c.sequencer (n :: os) top (Record.resolved c.record)) (result : Except Failure ρ) :
    Covers (c.resolve n result).sequencer os top (Record.resolved (c.resolve n result).record) := by
  have resolved : Record.resolved (c.resolve n result).record =
      Record.resolved c.record ++ (c.sequencer.resolve n ⟨n, result⟩).1.map (·.number) := by
    rw [← Record.resolved_map]
    exact Record.resolved_append _ _
  rw [resolved]
  exact h.resolve result

theorem resolveAll_covers (c : Connection ρ) {top : Nat} (ss : List (Submission ρ))
    {os : List Nat}
    (h : Covers c.sequencer (Submission.numbers ss ++ os) top (Record.resolved c.record))
    (result : Except Failure ρ) :
    Covers (c.resolveAll ss result).sequencer os top
      (Record.resolved (c.resolveAll ss result).record) := by
  induction ss generalizing c with
  | nil => exact h
  | cons s rest ih => exact ih (c.resolve s.number result) (c.resolve_covers h result)

theorem resolveAll_eq (c : Connection ρ) (ss : List (Submission ρ)) (result : Except Failure ρ) :
    ∃ sequencer, ∃ rs : List (Resolution ρ), c.resolveAll ss result =
      { c with sequencer, record := c.record ++ rs.map .resolved } := by
  induction ss generalizing c with
  | nil => exact ⟨c.sequencer, [], by simp [resolveAll]⟩
  | cons s rest ih =>
    obtain ⟨sequencer, rs, h⟩ := ih (c.resolve s.number result)
    refine ⟨sequencer, (c.sequencer.resolve s.number ⟨s.number, result⟩).1 ++ rs, ?_⟩
    simpa [resolveAll, resolve, enter] using h

theorem resolve_eq (c : Connection ρ) (number : Nat) (result : Except Failure ρ) :
    ∃ sequencer, ∃ rs : List (Resolution ρ), c.resolve number result =
      { c with sequencer, record := c.record ++ rs.map .resolved } := ⟨_, _, rfl⟩

end Connection

end PgPipeline
