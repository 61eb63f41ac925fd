import Mathlib.Data.List.Forall2
import Mathlib.Data.List.GetD
import PgPipeline.Proofs.Parameters
import PgPipeline.Statement.Batch

namespace PgPipeline

open List (Forall₂)

theorem Value.encode_null {v : Value} (null : v.isNull = true) (format : Format) :
    v.encode format = .ok none := if_pos null

theorem Value.encode_preferredFormat (v : Value) :
    ∃ cell, v.encode v.preferredFormat = .ok cell := by
  cases v <;> exact ⟨_, rfl⟩

namespace Param

def valueAt (r : Nat) : Param → Value
  | value v => v
  | repeated vs => vs.getD r .null

def valuesAt (r : Nat) (params : List Param) : List Value := params.map (valueAt r)

variable {params : List Param} {count n position r : Nat}

structure EncodedColumn.Holds (c : EncodedColumn) (n : Nat) (p : Param) : Prop where
  cells : ∀ r < n, (p.valueAt r).encode c.format = .ok (c.values.getD r none)
  type : ∀ r < n, (p.valueAt r).isNull = false → c.type = (p.valueAt r).oid
  format : ∀ r < n, (p.valueAt r).isNull = false →
    ∃ k < n, (p.valueAt k).isNull = false ∧ c.format = (p.valueAt k).preferredFormat

theorem forall₂_getElem? {α β : Type} {R : α → β → Prop} {xs : List α} {ys : List β}
    (related : Forall₂ R xs ys) {i : Nat} {x : α} (at_ : xs[i]? = some x) :
    ∃ y, ys[i]? = some y ∧ R x y := by
  induction related generalizing i with
  | nil => cases at_
  | cons first _ ih =>
    cases i with
    | zero =>
      cases at_
      exact ⟨_, rfl, first⟩
    | succ i => exact ih at_

theorem sharedType_ok {vs : List Value} {type : Oid} {format : Format}
    (h : sharedType position vs = .ok (type, format)) {v : Value} (mem : v ∈ vs)
    (some_ : v.isNull = false) :
    type = v.oid ∧ ∃ w ∈ vs, w.isNull = false ∧ format = w.preferredFormat := by
  have typed : v ∈ vs.filter fun v => !v.isNull := List.mem_filter.mpr ⟨mem, by simp [some_]⟩
  unfold sharedType at h
  split at h
  · next none_ =>
    rw [none_] at typed
    cases typed
  · next first rest all =>
    split at h
    · cases h
    · next same =>
      cases h
      have front : first ∈ vs.filter fun v => !v.isNull := all ▸ List.mem_cons_self
      obtain ⟨first_mem, first_some⟩ := List.mem_filter.mp front
      refine ⟨?_, first, first_mem, by simpa using first_some, rfl⟩
      rw [all] at typed
      rcases List.mem_cons.mp typed with rfl | later
      · rfl
      · have agrees := List.find?_eq_none.mp same v later
        exact (show v.oid = first.oid by simpa using agrees).symm

theorem encodeColumn_holds {p : Param} {c : EncodedColumn}
    (counts : ∀ vs, p = repeated vs → vs.length = n) (h : p.encodeColumn n position = .ok c) :
    c.Holds n p := by
  cases p with
  | value v =>
    obtain ⟨cell, encoded, h⟩ := bind_ok h
    cases h
    refine ⟨fun r inside => ?_, fun _ _ _ => rfl, fun r inside some_ => ⟨r, inside, some_, rfl⟩⟩
    rw [List.getD_replicate _ inside]
    exact mapError_ok encoded
  | repeated vs =>
    obtain ⟨⟨type, format⟩, shared, h⟩ := bind_ok h
    obtain ⟨values, encoded, h⟩ := bind_ok h
    cases h
    have length : vs.length = n := counts vs rfl
    have mem {r : Nat} (inside : r < n) : vs.getD r .null ∈ vs := by
      rw [List.getD_eq_getElem _ _ (length ▸ inside)]
      exact List.getElem_mem _
    refine ⟨fun r inside => ?_, fun r inside some_ => ?_, fun r inside some_ => ?_⟩
    · have at_ : vs[r]? = some (vs.getD r .null) := by
        rw [List.getD_eq_getElem _ _ (length ▸ inside), List.getElem?_eq_getElem (length ▸ inside)]
      obtain ⟨cell, found, same⟩ := forall₂_getElem? (mapM_ok (mapError_ok encoded)) at_
      rw [valueAt, same, List.getD_eq_getElem?_getD, found]
      rfl
    · exact (sharedType_ok shared (mem inside) some_).1
    · obtain ⟨-, w, w_mem, w_some, same⟩ := sharedType_ok shared (mem inside) some_
      obtain ⟨k, k_inside, rfl⟩ := List.getElem_of_mem w_mem
      refine ⟨k, length ▸ k_inside, ?_⟩
      rw [valueAt, List.getD_eq_getElem _ _ k_inside]
      exact ⟨w_some, same⟩

theorem encodeColumns_hold {columns : List EncodedColumn}
    (counts : ∀ vs, repeated vs ∈ params → vs.length = n)
    (h : encodeColumns n position params = .ok columns) :
    Forall₂ (fun p c => EncodedColumn.Holds c n p) params columns := by
  induction params generalizing position columns with
  | nil =>
    cases h
    exact .nil
  | cons p rest ih =>
    obtain ⟨first, column, h⟩ := bind_ok h
    obtain ⟨others, more, h⟩ := bind_ok h
    cases h
    refine .cons (encodeColumn_holds (fun vs same => ?_) column) (ih (fun vs mem => ?_) more)
    · exact counts vs (same ▸ List.mem_cons_self)
    · exact counts vs (List.mem_cons_of_mem _ mem)

theorem getElem?_rows {columns : List (List (Option Bytes))} (inside : r < n) :
    (rows n columns)[r]? = some (columns.map fun column => column.getD r none) := by
  induction n generalizing r columns with
  | zero => exact absurd inside (Nat.not_lt_zero r)
  | succ n ih =>
    cases r with
    | zero =>
      have heads : (fun column : List (Option Bytes) => column.headD none) =
          fun column => column.getD 0 none := by
        funext column
        cases column <;> rfl
      rw [rows, heads, List.getElem?_cons_zero]
    | succ r =>
      have tails : (fun column : List (Option Bytes) => column.getD r none) ∘ List.tail =
          fun column => column.getD (r + 1) none := by
        funext column
        cases column <;> rfl
      rw [rows, List.getElem?_cons_succ, ih (Nat.lt_of_succ_lt_succ inside), List.map_map, tails]

theorem encodeAll_values {vs : List Value} (few : vs.length ≤ maxParams) :
    ∃ s, encodeAll (vs.map value) = .ok s := by
  have once (position : Nat) : repetitions none position (vs.map value) = .ok 1 := by
    clear few
    induction vs generalizing position with
    | nil => rfl
    | cons v vs ih => exact ih (position + 1)
  have columns (position : Nat) :
      ∃ columns, encodeColumns 1 position (vs.map value) = .ok columns := by
    clear few once
    induction vs generalizing position with
    | nil => exact ⟨[], rfl⟩
    | cons v vs ih =>
      obtain ⟨cell, first⟩ := v.encode_preferredFormat
      obtain ⟨others, rest⟩ := ih (position + 1)
      refine ⟨⟨v.oid, v.preferredFormat, [cell]⟩ :: others, ?_⟩
      rw [List.map_cons, encodeColumns, rest, encodeColumn, first]
      rfl
  obtain ⟨encoded, done⟩ := columns 1
  refine ⟨⟨encoded.map (·.type), encoded.map (·.format), rows 1 (encoded.map (·.values))⟩, ?_⟩
  rw [encodeAll, List.length_map, if_neg (Nat.not_lt.mpr few), once]
  simp only [bind, Except.bind, pure, Except.pure, done]

/-- The cell that a value is encoded in. What is not null has the type of its column, whose format
is preferred by some value of the same column. -/
theorem cell_at {e : EncodedParams} (h : encodeAll params = .ok e) (inside : r < e.repetitions)
    {i : Nat} {v : Value} (at_ : (valuesAt r params)[i]? = some v) : ∃ format row cell,
      e.formats[i]? = some format ∧ e.rows[r]? = some row ∧ row[i]? = some cell ∧
      v.encode format = .ok cell ∧ (v.isNull = false → e.types[i]? = some v.oid ∧
        ∃ k < e.repetitions, ∃ w, (valuesAt k params)[i]? = some w ∧ w.isNull = false ∧
          format = w.preferredFormat) := by
  obtain ⟨-, n, columns, counted, encoded, rfl⟩ := encodeAll_ok h
  have repetitions : (rows n (columns.map (·.values))).length = n := length_rows n _
  rw [EncodedParams.repetitions, repetitions] at inside ⊢
  have counts := (repeats_of_repetitions counted).counts
  rw [valuesAt, List.getElem?_map] at at_
  obtain ⟨p, param, rfl⟩ := Option.map_eq_some_iff.mp at_
  obtain ⟨c, column, holds⟩ := forall₂_getElem? (encodeColumns_hold counts encoded) param
  refine ⟨c.format, columns.map (fun c => c.values.getD r none), c.values.getD r none, ?_, ?_, ?_,
    holds.cells r inside, fun some_ => ⟨?_, ?_⟩⟩
  · rw [List.getElem?_map, column]
    rfl
  · rw [getElem?_rows inside, List.map_map]
    rfl
  · rw [List.getElem?_map, column]
    rfl
  · rw [List.getElem?_map, column, ← holds.type r inside some_]
    rfl
  · obtain ⟨k, below, other, same⟩ := holds.format r inside some_
    refine ⟨k, below, p.valueAt k, ?_, other, same⟩
    rw [valuesAt, List.getElem?_map, param]
    rfl

theorem valuesAt_values (r : Nat) (vs : List Value) : valuesAt r (vs.map value) = vs := by
  rw [valuesAt, List.map_map]
  exact List.map_id vs

theorem cell_alone {vs : List Value} {s : EncodedParams} (h : encodeAll (vs.map value) = .ok s) :
    ∃ row, s.rows = [row] ∧ row.length = vs.length ∧ ∀ (i : Nat) (v : Value), vs[i]? = some v →
      ∃ cell, row[i]? = some cell ∧ v.encode v.preferredFormat = .ok cell ∧
        (v.isNull = false → s.types[i]? = some v.oid ∧ s.formats[i]? = some v.preferredFormat) := by
  have fits := encodeAll_fits h
  have once : s.repetitions = 1 := fits.repeats.single fun us mem => by
    obtain ⟨v, -, same⟩ := List.mem_map.mp mem
    cases same
  obtain ⟨row, rows⟩ := List.length_eq_one_iff.mp once
  have width : row.length = (vs.map value).length := fits.widths row (rows ▸ List.mem_cons_self)
  refine ⟨row, rows, width.trans (List.length_map _), fun i v at_ => ?_⟩
  have inside : 0 < s.repetitions := once ▸ Nat.one_pos
  obtain ⟨format, row', cell, announced, first, found, encoded, typed⟩ :=
    cell_at h inside (v := v) (i := i) (by rw [valuesAt_values, at_])
  rw [rows] at first
  obtain rfl : row = row' := Option.some_inj.mp first
  cases null : v.isNull with
  | true =>
    rw [v.encode_null null] at encoded
    exact ⟨cell, found, (v.encode_null null _).trans encoded, nofun⟩
  | false =>
    obtain ⟨type, k, below, w, other, -, same⟩ := typed null
    rw [valuesAt_values, at_] at other
    cases other
    exact ⟨cell, found, same ▸ encoded, fun _ => ⟨type, same ▸ announced⟩⟩

end Param

namespace EncodedParams

/-- What a repetition with these values always has in common with the same values on their own: the
types of what is not null. Each cell is its value in the format that is announced for the column. -/
structure Follows (e s : EncodedParams) (r : Nat) (vs : List Value) : Prop where
  types : ∀ (i : Nat) (v : Value), vs[i]? = some v → v.isNull = false → e.types[i]? = s.types[i]?
  cells : ∀ (i : Nat) (v : Value), vs[i]? = some v → ∃ row format cell, e.rows[r]? = some row ∧
    row[i]? = some cell ∧ e.formats[i]? = some format ∧ v.encode format = .ok cell

/-- A repetition is encoded like the same values on their own, each in the format that it
prefers. -/
structure Agrees (e s : EncodedParams) (r : Nat) (vs : List Value) : Prop
    extends Follows e s r vs where
  row : ∃ row, e.rows[r]? = some row ∧ s.rows = [row]
  formats : ∀ (i : Nat) (v : Value), vs[i]? = some v → v.isNull = false →
    e.formats[i]? = s.formats[i]?
  preferred : ∀ (i : Nat) (v : Value), vs[i]? = some v → ∃ row cell, e.rows[r]? = some row ∧
    row[i]? = some cell ∧ v.encode v.preferredFormat = .ok cell

def Suits (e : EncodedParams) (vs : List Value) : Prop :=
  ∀ (i : Nat) (v : Value), vs[i]? = some v → v.isNull = false →
    e.formats[i]? = some v.preferredFormat

end EncodedParams

namespace Param

def Uniform (params : List Param) : Prop :=
  ∀ vs, repeated vs ∈ params → ∀ v ∈ vs, ∀ w ∈ vs, v.isNull = false → w.isNull = false →
    v.preferredFormat = w.preferredFormat

variable {e s : EncodedParams}

theorem follows (encoded : encodeAll params = .ok e) (inside : r < e.repetitions)
    (alone : encodeAll ((valuesAt r params).map value) = .ok s) :
    e.Follows s r (valuesAt r params) := by
  obtain ⟨_, -, -, cells⟩ := cell_alone alone
  refine ⟨fun i v at_ some_ => ?_, fun i v at_ => ?_⟩
  · obtain ⟨_, _, _, -, -, -, -, typed⟩ := cell_at encoded inside at_
    obtain ⟨-, -, -, announced⟩ := cells i v at_
    exact (typed some_).1.trans (announced some_).1.symm
  · obtain ⟨format, row, cell, announced, there, found, same, -⟩ := cell_at encoded inside at_
    exact ⟨row, format, cell, there, found, announced, same⟩

theorem agrees_iff (encoded : encodeAll params = .ok e) (inside : r < e.repetitions)
    (alone : encodeAll ((valuesAt r params).map value) = .ok s) :
    e.Agrees s r (valuesAt r params) ↔ e.Suits (valuesAt r params) := by
  obtain ⟨row', rows, width', cells⟩ := cell_alone alone
  constructor
  · intro agrees i v at_ some_
    obtain ⟨-, -, -, announced⟩ := cells i v at_
    exact (agrees.formats i v at_ some_).trans (announced some_).2
  · intro suits
    have preferred (i : Nat) (v : Value) (at_ : (valuesAt r params)[i]? = some v) :
        ∃ row cell, e.rows[r]? = some row ∧ row[i]? = some cell ∧
          v.encode v.preferredFormat = .ok cell := by
      obtain ⟨format, row, cell, announced, there, found, same, -⟩ := cell_at encoded inside at_
      refine ⟨row, cell, there, found, ?_⟩
      cases null : v.isNull with
      | true => rw [v.encode_null null, ← v.encode_null null format, same]
      | false =>
        obtain rfl : format = v.preferredFormat :=
          Option.some_inj.mp (announced.symm.trans (suits i v at_ null))
        exact same
    refine ⟨follows encoded inside alone, ?_, fun i v at_ some_ => ?_, preferred⟩
    · obtain ⟨row, there⟩ : ∃ row, e.rows[r]? = some row := ⟨_, List.getElem?_eq_getElem inside⟩
      refine ⟨row, there, rows.trans (congrArg (fun row => [row]) ?_)⟩
      have width : row.length = (valuesAt r params).length :=
        ((encodeAll_fits encoded).widths row (List.mem_of_getElem? there)).trans
          (List.length_map _).symm
      refine List.ext_getElem? fun i => ?_
      cases at_ : (valuesAt r params)[i]? with
      | none =>
        have outside := List.getElem?_eq_none_iff.mp at_
        rw [List.getElem?_eq_none (width' ▸ outside), List.getElem?_eq_none (width ▸ outside)]
      | some v =>
        obtain ⟨_, cell, found, here, same⟩ := preferred i v at_
        obtain ⟨cell', here', same', -⟩ := cells i v at_
        cases there.symm.trans found
        rw [here, here', Except.ok.inj (same.symm.trans same')]
    · obtain ⟨-, -, -, announced⟩ := cells i v at_
      exact (suits i v at_ some_).trans (announced some_).2.symm

theorem suits_iff_uniform (encoded : encodeAll params = .ok e) :
    (∀ r < e.repetitions, e.Suits (valuesAt r params)) ↔ Uniform params := by
  have counts := (encodeAll_fits encoded).repeats.counts
  constructor
  · intro suits vs mem v v_mem w w_mem v_some w_some
    obtain ⟨i, param⟩ := List.getElem?_of_mem mem
    have announced {u : Value} (u_mem : u ∈ vs) (u_some : u.isNull = false) :
        e.formats[i]? = some u.preferredFormat := by
      obtain ⟨k, there⟩ := List.getElem?_of_mem u_mem
      have inside : k < e.repetitions := by
        rw [← counts vs mem]
        exact (List.getElem?_eq_some_iff.mp there).1
      refine suits k inside i u ?_ u_some
      rw [valuesAt, List.getElem?_map, param, Option.map_some, valueAt, List.getD_eq_getElem?_getD,
        there]
      rfl
    exact Option.some_inj.mp ((announced v_mem v_some).symm.trans (announced w_mem w_some))
  · intro uniform r inside i v at_ some_
    obtain ⟨format, row, cell, announced, -, -, -, typed⟩ := cell_at encoded inside at_
    obtain ⟨-, k, below, w, other, w_some, rfl⟩ := typed some_
    rw [announced]
    rw [valuesAt, List.getElem?_map] at at_ other
    obtain ⟨p, param, rfl⟩ := Option.map_eq_some_iff.mp at_
    rw [param] at other
    obtain rfl := Option.some_inj.mp other
    cases p with
    | value v => rfl
    | repeated vs =>
      have mem : repeated vs ∈ params := List.mem_of_getElem? param
      have inner {r : Nat} (inside : r < e.repetitions) : vs.getD r .null ∈ vs := by
        have bound : r < vs.length := (counts vs mem).symm ▸ inside
        rw [List.getD_eq_getElem _ _ bound]
        exact List.getElem_mem bound
      exact congrArg some (uniform vs mem _ (inner below) _ (inner inside) w_some some_)

theorem valuesAt_ofColumns {rows : List (List Value)} {row : List Value} {width : Nat}
    (there : rows[r]? = some row) (wide : row.length = width) :
    valuesAt r (ofColumns width rows) = row := by
  induction width generalizing rows row with
  | zero => exact (List.length_eq_zero_iff.mp wide).symm
  | succ width ih =>
    cases row with
    | nil => cases wide
    | cons v row =>
      have head : valueAt r (repeated (rows.map fun row => row.headD .null)) = v := by
        rw [valueAt, List.getD_eq_getElem?_getD, List.getElem?_map, there]
        rfl
      have tail : (rows.map List.tail)[r]? = some row := by
        rw [List.getElem?_map, there]
        rfl
      have others : (ofColumns width (rows.map List.tail)).map (valueAt r) = row :=
        ih tail (Nat.succ.inj wide)
      rw [ofColumns, valuesAt, List.map_cons, head, others]

theorem ofRows_ok {rows : List (List Value)} (h : ofRows rows = .ok params) :
    (∃ us, repeated us ∈ params ∧ us.length = rows.length) ∧
      ∀ r row, rows[r]? = some row → valuesAt r params = row := by
  unfold ofRows at h
  split at h
  · cases h
  · next first rest =>
    split at h
    · cases h
    · next even =>
      split at h
      · cases h
      · next some_ =>
        cases h
        have widths : ∀ row ∈ first :: rest, row.length = first.length := by
          have none_ := Option.map_eq_none_iff.mp even
          simpa using List.findIdx?_eq_none_iff.mp none_
        refine ⟨?_, fun r row there => ?_⟩
        · cases first with
          | nil => exact absurd rfl some_
          | cons v first => exact ⟨_, List.mem_cons_self, List.length_map _⟩
        · exact valuesAt_ofColumns there (widths row (List.mem_of_getElem? there))

/-- The values of a repetition can always be encoded on their own, and their types and the cells in
the announced formats are as they should be. All of it agrees exactly if the values suit the
announced formats, so for all repetitions exactly if the values of each repeated parameter prefer
one format. -/
theorem encodeAll_agrees_iff (encoded : encodeAll params = .ok e) :
    (∀ r < e.repetitions, ∃ s, encodeAll ((valuesAt r params).map value) = .ok s ∧
      e.Follows s r (valuesAt r params) ∧
      (e.Agrees s r (valuesAt r params) ↔ e.Suits (valuesAt r params))) ∧
    ((∀ r < e.repetitions, e.Suits (valuesAt r params)) ↔ Uniform params) ∧
    ∀ rows, ofRows rows = .ok params →
      e.repetitions = rows.length ∧ ∀ r row, rows[r]? = some row → valuesAt r params = row := by
  have fits := encodeAll_fits encoded
  refine ⟨fun r inside => ?_, suits_iff_uniform encoded, fun rows batch => ?_⟩
  · have few : (valuesAt r params).length ≤ maxParams :=
      Nat.le_trans (Nat.le_of_eq (List.length_map _)) fits.few
    obtain ⟨s, alone⟩ := encodeAll_values few
    exact ⟨s, alone, follows encoded inside alone, agrees_iff encoded inside alone⟩
  · obtain ⟨⟨us, mem, long⟩, values⟩ := ofRows_ok batch
    exact ⟨(fits.repeats.counts us mem).symm.trans long, values⟩

theorem encodeAll_agrees_iff_numeric :
    let rows := [[Value.numeric "1.5", .int4 7], [.null, .int4 8], [.numeric "2", .null]]
    let params :=
      [repeated [.numeric "1.5", .null, .numeric "2"], repeated [.int4 7, .int4 8, .null]]
    let e : EncodedParams := ⟨[.numeric, .int4], [.text, .binary],
      [[some [49, 46, 53], some [0, 0, 0, 7]], [none, some [0, 0, 0, 8]], [some [50], none]]⟩
    ofRows rows = .ok params ∧ encodeAll params = .ok e ∧ Uniform params ∧
      ∀ r row, rows[r]? = some row → ∃ s, encodeAll (row.map value) = .ok s ∧ e.Agrees s r row := by
  intro rows params e
  have batch : ofRows rows = .ok params := rfl
  have encoded : encodeAll params = .ok e := rfl
  have uniform : Uniform params := by
    intro vs mem
    simp only [params, List.mem_cons, repeated.injEq, List.not_mem_nil, or_false] at mem
    rcases mem with rfl | rfl <;> decide
  obtain ⟨each, suits, values⟩ := encodeAll_agrees_iff encoded
  refine ⟨batch, encoded, uniform, fun r row there => ?_⟩
  obtain ⟨count, values⟩ := values rows batch
  have inside : r < e.repetitions := count ▸ (List.getElem?_eq_some_iff.mp there).1
  obtain ⟨s, alone, -, agrees⟩ := each r inside
  rw [values r row there] at alone agrees
  exact ⟨s, alone, agrees.mpr (values r row there ▸ suits.mpr uniform r inside)⟩

/-- Bytes of a type whose values are sent as text go through as text, with what is no text replaced;
on their own they are sent as they are. -/
theorem encodeAll_replaces_bytes :
    let rows := [[Value.numeric "1.5"], [.raw .numeric [0, 255]]]
    let params := [repeated [.numeric "1.5", .raw .numeric [0, 255]]]
    ofRows rows = .ok params ∧
      encodeAll params =
        .ok ⟨[.numeric], [.text], [[some [49, 46, 53]], [some [0, 239, 191, 189]]]⟩ ∧
      encodeAll [value (.raw .numeric [0, 255])] =
        .ok ⟨[.numeric], [.binary], [[some [0, 255]]]⟩ := by
  exact ⟨rfl, by decide +kernel, rfl⟩

end Param

end PgPipeline
