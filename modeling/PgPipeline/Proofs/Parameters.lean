import PgPipeline.Proofs.Checked
import PgPipeline.Statement.Parameters

namespace PgPipeline

namespace Param

/-- Every repeated parameter has this many values, at least one; there is one repetition where no
parameter is repeated. -/
structure Repeats (params : List Param) (n : Nat) : Prop where
  positive : 1 ≤ n
  counts : ∀ vs, repeated vs ∈ params → vs.length = n
  single : (∀ vs, repeated vs ∉ params) → n = 1

end Param

/-- There is a type, a format and in each row a value for each parameter, and a row for each
repetition. -/
structure EncodedParams.Fits (e : EncodedParams) (params : List Param) : Prop where
  few : params.length ≤ maxParams
  types : e.types.length = params.length
  formats : e.formats.length = params.length
  widths : ∀ row ∈ e.rows, row.length = params.length
  repeats : Param.Repeats params e.repetitions

namespace Param

variable {params : List Param} {count n position : Nat}

theorem repetitions_counted (h : repetitions (some count) position params = .ok n) :
    n = count ∧ ∀ vs, repeated vs ∈ params → vs.length = count := by
  induction params generalizing position with
  | nil =>
    cases h
    exact ⟨rfl, nofun⟩
  | cons p rest ih =>
    cases p with
    | value v =>
      obtain ⟨same, counts⟩ := ih h
      refine ⟨same, fun vs mem => counts vs ?_⟩
      exact (List.mem_cons.mp mem).resolve_left nofun
    | repeated us =>
      rw [repetitions] at h
      split at h
      · cases h
      · split at h
        · next agrees =>
          obtain ⟨same, counts⟩ := ih h
          refine ⟨same, fun vs mem => ?_⟩
          rcases List.mem_cons.mp mem with first | mem
          · cases first
            exact agrees.symm
          · exact counts vs mem
        · cases h

theorem repeats_of_repetitions (h : repetitions none position params = .ok n) :
    Repeats params n := by
  induction params generalizing position with
  | nil =>
    cases h
    exact ⟨Nat.le_refl 1, nofun, fun _ => rfl⟩
  | cons p rest ih =>
    cases p with
    | value v =>
      obtain ⟨positive, counts, single⟩ := ih h
      refine ⟨positive, fun vs mem => counts vs ?_, fun none_ => single fun vs mem => ?_⟩
      · exact (List.mem_cons.mp mem).resolve_left nofun
      · exact none_ vs (List.mem_cons_of_mem _ mem)
    | repeated us =>
      rw [repetitions] at h
      split at h
      · cases h
      · next some_ =>
        obtain ⟨rfl, counts⟩ := repetitions_counted h
        refine ⟨?_, fun vs mem => ?_, fun none_ => absurd List.mem_cons_self (none_ us)⟩
        · exact List.length_pos_iff.mpr fun empty => some_ (List.isEmpty_iff.mpr empty)
        · rcases List.mem_cons.mp mem with first | mem
          · cases first
            rfl
          · exact counts vs mem

theorem length_rows (n : Nat) (columns : List (List (Option Bytes))) :
    (rows n columns).length = n := by
  induction n generalizing columns with
  | zero => rfl
  | succ n ih => rw [rows, List.length_cons, ih]

theorem length_of_mem_rows {columns : List (List (Option Bytes))} :
    ∀ row ∈ rows n columns, row.length = columns.length := by
  induction n generalizing columns with
  | zero => exact nofun
  | succ n ih =>
    intro row mem
    rcases List.mem_cons.mp mem with rfl | mem
    · rw [List.length_map]
    · rw [ih row mem, List.length_map]

theorem length_encodeColumns {columns : List EncodedColumn}
    (h : encodeColumns count position params = .ok columns) : columns.length = params.length := by
  induction params generalizing position columns with
  | nil =>
    cases h
    rfl
  | cons p rest ih =>
    obtain ⟨first, -, h⟩ := bind_ok h
    obtain ⟨others, more, h⟩ := bind_ok h
    cases h
    rw [List.length_cons, List.length_cons, ih more]

theorem encodeAll_ok {e : EncodedParams} (h : encodeAll params = .ok e) :
    params.length ≤ maxParams ∧ ∃ n columns, repetitions none 1 params = .ok n ∧
      encodeColumns n 1 params = .ok columns ∧
      e = ⟨columns.map (·.type), columns.map (·.format), rows n (columns.map (·.values))⟩ := by
  unfold encodeAll at h
  split at h
  · cases h
  · next few =>
    obtain ⟨n, counted, h⟩ := bind_ok h
    obtain ⟨columns, encoded, h⟩ := bind_ok h
    cases h
    exact ⟨Nat.le_of_not_lt few, n, columns, counted, encoded, rfl⟩

theorem encodeAll_fits {e : EncodedParams} (h : encodeAll params = .ok e) : e.Fits params := by
  obtain ⟨few, n, columns, counted, encoded, rfl⟩ := encodeAll_ok h
  have width := length_encodeColumns encoded
  refine ⟨few, ?_, ?_, fun row mem => ?_, ?_⟩
  · exact (List.length_map _).trans width
  · exact (List.length_map _).trans width
  · rw [length_of_mem_rows row mem, List.length_map, width]
  · have count : (EncodedParams.mk (columns.map (·.type)) (columns.map (·.format))
        (rows n (columns.map (·.values)))).repetitions = n := length_rows n _
    rw [count]
    exact repeats_of_repetitions counted

end Param

end PgPipeline
