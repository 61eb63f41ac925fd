import PgPipeline.Proofs.BackendRoundTrip
import PgPipeline.Proofs.Digits
import PgPipeline.Proofs.Reading
import PgPipeline.Value.Writer
import Mathlib.Algebra.BigOperators.Fin
import Mathlib.Algebra.Order.Field.Power
import Mathlib.Algebra.Order.Floor.Semifield
import Mathlib.Tactic.Ring
import Mathlib.Tactic.Linarith
import Mathlib.Tactic.Positivity
import Mathlib.Tactic.FieldSimp
import Mathlib.Data.Rat.Floor

namespace PgPipeline

namespace Numeric

variable {n : Numeric} {gs : List Int} {g e : Int}

def IsGroup (g : Int) : Prop := 0 ≤ g ∧ g < 10000

/-- The number of which the first group counts `10000 ^ e`, the next one `10000 ^ (e - 1)`, and so
on. -/
def sumFrom (e : Int) : List Int → ℚ
  | [] => 0
  | g :: gs => g * 10000 ^ e + sumFrom (e - 1) gs

theorem sumFrom_nonneg (valid : ∀ g ∈ gs, IsGroup g) : 0 ≤ sumFrom e gs := by
  induction gs generalizing e with
  | nil => exact le_refl 0
  | cons g gs ih =>
    obtain ⟨first, valid⟩ := List.forall_mem_cons.mp valid
    have digit : (0 : ℚ) ≤ g := Int.cast_nonneg first.1
    have others := ih (e := e - 1) valid
    rw [sumFrom]
    positivity

theorem sumFrom_lt (valid : ∀ g ∈ gs, IsGroup g) : sumFrom e gs < 10000 ^ (e + 1) := by
  induction gs generalizing e with
  | nil =>
    rw [sumFrom]
    positivity
  | cons g gs ih =>
    obtain ⟨first, valid⟩ := List.forall_mem_cons.mp valid
    have others := ih (e := e - 1) valid
    have digit : (g : ℚ) ≤ 9999 := by exact_mod_cast Int.le_of_lt_add_one first.2
    have power : (0 : ℚ) < 10000 ^ e := by positivity
    rw [sub_add_cancel] at others
    calc sumFrom e (g :: gs) = g * 10000 ^ e + sumFrom (e - 1) gs := rfl
      _ < 9999 * 10000 ^ e + 10000 ^ e := by
        have := mul_le_mul_of_nonneg_right digit power.le
        linarith
      _ = 10000 ^ (e + 1) := by rw [zpow_add_one₀ (by norm_num)]; ring

theorem floor_sumFrom_of_neg (valid : ∀ g ∈ gs, IsGroup g) (below : e < 0) :
    ⌊sumFrom e gs⌋₊ = 0 := by
  rw [Nat.floor_eq_zero]
  calc sumFrom e gs < 10000 ^ (e + 1) := sumFrom_lt valid
    _ ≤ 10000 ^ (0 : Int) := zpow_le_zpow_right₀ (by norm_num) (by omega)
    _ = 1 := zpow_zero _

theorem floor_sumFrom_cons (digit : IsGroup g) (valid : ∀ g ∈ gs, IsGroup g) (k : Nat) :
    ⌊sumFrom k (g :: gs)⌋₊ = g.toNat * 10000 ^ k + ⌊sumFrom (k - 1 : Int) gs⌋₊ := by
  have whole : (g : ℚ) * 10000 ^ (k : Int) = ((g.toNat * 10000 ^ k : Nat) : ℚ) := by
    have same : (g : ℚ) = ((g.toNat : Nat) : ℚ) := by
      exact_mod_cast (Int.toNat_of_nonneg digit.1).symm
    rw [same, zpow_natCast]
    push_cast
    rfl
  rw [sumFrom, whole, add_comm, Nat.floor_add_natCast (sumFrom_nonneg valid), add_comm]

def groupAt (gs : List Int) (i : Int) : Int := if i < 0 then 0 else gs.getD i.toNat 0

theorem floor_sumFrom_succ (valid : ∀ g ∈ gs, IsGroup g) (e : Int) :
    ⌊sumFrom (e + 1) gs⌋₊ = ⌊sumFrom e gs⌋₊ * 10000 + (groupAt gs (e + 1)).toNat := by
  induction gs generalizing e with
  | nil => simp [sumFrom, groupAt]
  | cons g gs ih =>
    obtain ⟨first, valid'⟩ := List.forall_mem_cons.mp valid
    rcases lt_trichotomy (e + 1) 0 with below | here | above
    · rw [floor_sumFrom_of_neg valid below, floor_sumFrom_of_neg valid (by omega), groupAt,
        if_pos below]
      rfl
    · have start := floor_sumFrom_cons first valid' 0
      rw [floor_sumFrom_of_neg valid' (by decide)] at start
      rw [here, floor_sumFrom_of_neg (e := e) valid (by omega)]
      simpa [groupAt] using start
    · obtain ⟨k, rfl⟩ : ∃ k : Nat, e = k := ⟨e.toNat, by omega⟩
      have longer := floor_sumFrom_cons first valid' (k + 1)
      have shorter := floor_sumFrom_cons first valid' k
      have next := ih valid' (k - 1)
      have same : groupAt (g :: gs) (k + 1) = groupAt gs k := by
        simp only [groupAt]
        rw [if_neg (by omega), if_neg (by omega)]
        rfl
      rw [sub_add_cancel] at next
      push_cast at longer
      rw [add_sub_cancel_right] at longer
      rw [longer, shorter, next, same, Nat.pow_succ]
      ring

theorem sumFrom_add (e : Int) (k : Nat) (gs : List Int) :
    sumFrom (e + k) gs = sumFrom e gs * 10000 ^ k := by
  induction gs generalizing e with
  | nil => simp [sumFrom]
  | cons g gs ih =>
    have shift : e + k - 1 = e - 1 + k := by ring
    rw [sumFrom, sumFrom, shift, ih, zpow_add₀ (by norm_num), zpow_natCast]
    ring

theorem isGroup_groupAt (valid : ∀ g ∈ gs, IsGroup g) (i : Int) : IsGroup (groupAt gs i) := by
  have zero : IsGroup 0 := ⟨le_rfl, by decide⟩
  rw [groupAt]
  split
  · exact zero
  · rw [List.getD_eq_getElem?_getD]
    cases listed : gs[i.toNat]? with
    | none => exact zero
    | some g => exact valid g (List.mem_of_getElem? listed)

theorem groupChars_eq (digit : IsGroup g) : groupChars g = padded 4 g.toNat := by
  rw [groupChars, if_neg (Int.not_lt.mpr digit.1), ← Int.toNat_of_nonneg digit.1]
  rfl

theorem length_groupChars (digit : IsGroup g) : (groupChars g).length = 4 := by
  have small : g.toNat < 10 ^ 4 := (Int.toNat_lt digit.1).mpr digit.2
  rw [groupChars_eq digit, length_padded (by decide) small]

theorem leadingChars_eq (digit : IsGroup g) : leadingChars g = Nat.toDigits 10 g.toNat := by
  obtain ⟨k, rfl⟩ := Int.eq_ofNat_of_zero_le digit.1
  exact Nat.toList_repr

/-- What fits the words of the binary form, with groups to the base 10000. The places are counted
in a word of 16 bits too, which takes them by four: behind 32764 there is no end to them. -/
structure IsWritable (n : Numeric) : Prop where
  count : n.groups.length < 2 ^ 15
  weight : -2 ^ 15 ≤ n.weight ∧ n.weight < 2 ^ 15
  scale : n.scale ≤ 32764
  groups : ∀ g ∈ n.groups, IsGroup g

/-- The absolute value: the first group counts `10000 ^ weight`, each further one a power less. -/
def magnitude (n : Numeric) : ℚ :=
  ∑ i : Fin n.groups.length, (n.groups[i] : ℚ) * 10000 ^ (n.weight - (i : Nat))

theorem magnitude_eq (n : Numeric) : n.magnitude = sumFrom n.weight n.groups := by
  obtain ⟨negative, weight, scale, groups⟩ := n
  rw [magnitude]
  induction groups generalizing weight with
  | nil => rfl
  | cons g groups ih =>
    have others := ih (weight - 1)
    dsimp only [List.length_cons] at others ⊢
    rw [Fin.sum_univ_succ, sumFrom, ← others]
    simp [sub_sub, add_comm]

/-- The groups behind the point, down to the last place at least. -/
def places (n : Numeric) : List Char :=
  (List.range ((n.scale + 3) / 4)).flatMap fun (i : Nat) => groupChars (n.group (n.weight + 1 + i))

section Digits

variable (valid : ∀ g ∈ n.groups, IsGroup g)

include valid

theorem length_groups (p : Int) (m : Nat) :
    ((List.range m).flatMap fun (i : Nat) => groupChars (n.group (p + i))).length = 4 * m := by
  induction m with
  | zero => rfl
  | succ m ih =>
    have four : (groupChars (n.group (p + m))).length = 4 :=
      length_groupChars (isGroup_groupAt valid (p + m))
    rw [List.range_succ, List.flatMap_append, List.length_append, ih, List.flatMap_singleton, four]
    ring

theorem ofDigitChars_groups (p : Int) (m : Nat) :
    Nat.ofDigitChars 10 ((List.range m).flatMap fun (i : Nat) => groupChars (n.group (p + 1 + i)))
      ⌊sumFrom p n.groups⌋₊ = ⌊sumFrom (p + m) n.groups⌋₊ := by
  induction m with
  | zero => simp
  | succ m ih =>
    have digit := isGroup_groupAt valid (p + 1 + m)
    have four := length_groupChars digit
    have next := floor_sumFrom_succ valid (p + m)
    have shift : p + m + 1 = p + 1 + m := by ring
    rw [List.range_succ, List.flatMap_append, Nat.ofDigitChars_append, ih, List.flatMap_singleton,
      group, ← groupAt, Nat.ofDigitChars_eq_ofDigitChars_zero, four, groupChars_eq digit,
      ofDigitChars_padded, Nat.cast_succ, ← add_assoc, next, shift]
    ring

theorem isDigit_of_mem_groups {p : Int} {m : Nat} {c : Char}
    (mem : c ∈ (List.range m).flatMap fun (i : Nat) => groupChars (n.group (p + i))) :
    c.isDigit := by
  obtain ⟨i, -, mem⟩ := List.mem_flatMap.mp mem
  rw [group, ← groupAt, groupChars_eq (isGroup_groupAt valid _)] at mem
  exact isDigit_of_mem_padded mem

theorem wholeChars_cases :
    (n.weight < 0 ∧ n.wholeChars = ['0']) ∨
      (0 ≤ n.weight ∧ n.wholeChars = Nat.toDigits 10 (groupAt n.groups 0).toNat ++
        (List.range n.weight.toNat).flatMap fun (i : Nat) => groupChars (n.group (0 + 1 + i))) := by
  rcases Int.lt_or_le n.weight 0 with below | above
  · exact .inl ⟨below, if_pos below⟩
  · refine .inr ⟨above, ?_⟩
    have first : leadingChars (n.group 0) = Nat.toDigits 10 (groupAt n.groups 0).toNat :=
      leadingChars_eq (isGroup_groupAt valid 0)
    rw [wholeChars, if_neg (Int.not_lt.mpr above), first]
    simp only [zero_add, add_comm]

theorem wholeChars_ne_nil : n.wholeChars ≠ [] := by
  rcases wholeChars_cases valid with ⟨-, whole⟩ | ⟨-, whole⟩
  · simp [whole]
  · simp [whole, Nat.toDigits_ne_nil]

theorem isDigit_of_mem_wholeChars {c : Char} (mem : c ∈ n.wholeChars) : c.isDigit := by
  rcases wholeChars_cases valid with ⟨-, whole⟩ | ⟨-, whole⟩
  · rw [whole, List.mem_singleton] at mem
    rw [mem]
    decide
  · rw [whole] at mem
    rcases List.mem_append.mp mem with mem | mem
    · exact Nat.isDigit_of_mem_toDigits (by decide) (by decide) mem
    · exact isDigit_of_mem_groups valid mem

theorem head?_wholeChars_ne (leading : ∃ g ∈ n.groups.head?, g ≠ 0) (above : 0 ≤ n.weight) :
    n.wholeChars.head? ≠ some '0' := by
  obtain ⟨g, head, nonzero⟩ := leading
  have first : groupAt n.groups 0 = g := by
    obtain ⟨others, groups⟩ := List.head?_eq_some_iff.mp head
    simp [groupAt, groups]
  have positive : 0 < (groupAt n.groups 0).toNat := by
    have digit := (isGroup_groupAt valid 0).1
    omega
  rcases wholeChars_cases valid with ⟨below, -⟩ | ⟨-, whole⟩
  · omega
  · rw [whole, List.head?_append_of_ne_nil _ Nat.toDigits_ne_nil]
    exact head?_toDigits_ne positive

theorem ofDigitChars_wholeChars :
    Nat.ofDigitChars 10 n.wholeChars 0 = ⌊sumFrom n.weight n.groups⌋₊ := by
  rcases wholeChars_cases valid with ⟨below, whole⟩ | ⟨above, whole⟩
  · rw [whole, floor_sumFrom_of_neg valid below]
    rfl
  · have start : ⌊sumFrom 0 n.groups⌋₊ = (groupAt n.groups 0).toNat := by
      have step := floor_sumFrom_succ valid (-1)
      rw [floor_sumFrom_of_neg (e := -1) valid (by decide)] at step
      simpa using step
    have run := ofDigitChars_groups valid 0 n.weight.toNat
    rw [start, Int.toNat_of_nonneg above, zero_add n.weight] at run
    rw [whole, Nat.ofDigitChars_append, Nat.ofDigitChars_toDigits (by decide) (by decide), run]

theorem length_places : n.places.length = 4 * ((n.scale + 3) / 4) := length_groups valid _ _

/-- Cut off after the last place, the digits on both sides of the point are those of the absolute
value. -/
theorem ofDigitChars_take_places :
    Nat.ofDigitChars 10 (n.wholeChars ++ n.places.take n.scale) 0 =
      ⌊n.magnitude * 10 ^ n.scale⌋₊ := by
  have length := length_places valid
  generalize count : (n.scale + 3) / 4 = k at length
  have digits : ∀ c ∈ n.wholeChars ++ n.places, c.isDigit := fun c mem =>
    (List.mem_append.mp mem).elim (isDigit_of_mem_wholeChars valid) (isDigit_of_mem_groups valid)
  have all : Nat.ofDigitChars 10 (n.wholeChars ++ n.places) 0 =
      ⌊n.magnitude * 10000 ^ k⌋₊ := by
    rw [Nat.ofDigitChars_append, ofDigitChars_wholeChars valid, places,
      ofDigitChars_groups valid, count, sumFrom_add, magnitude_eq]
  have front : n.wholeChars ++ n.places.take n.scale =
      (n.wholeChars ++ n.places).take (n.wholeChars.length + n.scale) := by
    rw [List.take_length_add_append]
  have cut : (n.wholeChars ++ n.places).length - (n.wholeChars.length + n.scale) =
      4 * k - n.scale := by
    rw [List.length_append, length]
    omega
  have power : (10000 : ℚ) ^ k = 10 ^ n.scale * 10 ^ (4 * k - n.scale) := by
    rw [← pow_add, show n.scale + (4 * k - n.scale) = 4 * k by omega, pow_mul]
    norm_num
  rw [front, ofDigitChars_take digits, cut, all, ← Nat.floor_div_natCast, power]
  congr 1
  push_cast
  field_simp

end Digits

theorem le_length_groupChars (g : Int) : 4 ≤ (groupChars g).length := by
  rw [groupChars]
  split
  · exact Nat.succ_le_succ le_length_padded
  · exact le_length_padded

theorem Fills.isPrefix {i : Int} {written filled : List Char} (h : n.Fills i written filled) :
    written <+: filled := by
  induction h with
  | enough => exact List.prefix_refl _
  | more _ _ ih => exact (List.prefix_append _ _).trans ih

/-- However far the filling goes, what counts of it stands after a quarter of the missing places. -/
theorem Fills.take_fill {i : Int} {written filled : List Char} (h : n.Fills i written filled) (m : Nat)
    (many : n.scale ≤ written.length + 4 * m) :
    (n.fill m i written).take n.scale = filled.take n.scale := by
  induction h generalizing m with
  | enough full => cases m <;> simp [fill, full]
  | @more i written filled short rest ih =>
    cases m with
    | zero =>
      obtain ⟨others, rfl⟩ := (List.prefix_append _ _).trans rest.isPrefix
      rw [fill, List.take_append_of_le_length (by omega)]
    | succ m =>
      have four := le_length_groupChars (n.group i)
      rw [fill, if_pos short]
      refine ih m ?_
      rw [List.length_append]
      omega

theorem Fills.fractionChars_eq {filled : List Char} (h : n.Fills (n.weight + 1) [] filled) :
    n.fractionChars = filled.take n.scale :=
  h.take_fill _ (by simp; omega)

theorem fills_groups (valid : ∀ g ∈ n.groups, IsGroup g) (small : n.scale ≤ 32764) {m : Nat}
    {i : Int} {written : List Char} (left : written.length + 4 * m = 4 * ((n.scale + 3) / 4)) :
    n.Fills i written
      (written ++ (List.range m).flatMap fun (j : Nat) => groupChars (n.group (i + j))) := by
  have word : (Int16.ofNat written.length).toInt = written.length :=
    Int16.toInt_ofNat_of_lt (by omega)
  induction m generalizing i written with
  | zero =>
    rw [List.range_zero, List.flatMap_nil, List.append_nil]
    exact .enough (decide_eq_false (by omega))
  | succ m ih =>
    have four : (groupChars (n.group i)).length = 4 :=
      length_groupChars (isGroup_groupAt valid i)
    have length : (written ++ groupChars (n.group i)).length = written.length + 4 := by
      rw [List.length_append, four]
    have left : (written ++ groupChars (n.group i)).length + 4 * m = 4 * ((n.scale + 3) / 4) := by
      omega
    have rest := ih left (i := i + 1) (Int16.toInt_ofNat_of_lt (by omega))
    refine .more (decide_eq_true (by omega)) ?_
    rw [List.range_succ_eq_map, List.flatMap_cons, List.flatMap_map]
    rw [List.append_assoc] at rest
    simpa [add_comm, add_left_comm] using rest

theorem takeGroups_flatMap (valid : ∀ g ∈ gs, IsGroup g) (rest : Bytes) :
    takeGroups gs.length ((gs.flatMap fun g => Bytes.int16 (Int16.ofInt g)) ++ rest) = .ok gs := by
  induction gs with
  | nil => rfl
  | cons g gs ih =>
    obtain ⟨⟨low, high⟩, valid⟩ := List.forall_mem_cons.mp valid
    have word : (Int16.ofInt g).toInt = g := Int16.toInt_ofInt_of_le (by omega) (by omega)
    rw [List.flatMap_cons, List.append_assoc, List.length_cons, takeGroups,
      takeInt16_append (Bytes.length_int16 _), Bytes.toInt16_int16]
    simp only [bind, Except.bind, ih valid, word]
    rfl

theorem decode_bytes (writable : n.IsWritable) (rest : Bytes) :
    decode (n.bytes ++ rest) = .ok (String.ofList n.chars) := by
  have count := Bytes.toInt16_bigEndian writable.count
  have scale : (Bytes.toInt16 (Bytes.bigEndian 2 n.scale)).toInt = n.scale :=
    Bytes.toInt16_bigEndian (by have := writable.scale; omega)
  have weight : (Int16.ofInt n.weight).toInt = n.weight :=
    Int16.toInt_ofInt_of_le writable.weight.1 writable.weight.2
  have sign : (Bytes.toInt16 (Bytes.bigEndian 2 (if n.negative then 0x4000 else 0))).toUInt16.toNat
      = if n.negative then 0x4000 else 0 := by
    split <;> decide
  simp only [bytes, List.append_assoc]
  rw [decode, takeInt16_append (Bytes.length_bigEndian _ _)]
  simp only [bind, Except.bind, takeInt16_append (Bytes.length_int16 _),
    takeInt16_append (Bytes.length_bigEndian _ _), Bytes.toInt16_int16, sign, count, scale, weight,
    Int.toNat_natCast, takeGroups_flatMap writable.groups]
  obtain ⟨negative, weight, scale, groups⟩ := n
  cases negative <;> rfl

/-- A text shows a decimal: a minus for a negative one, a run of digits, and behind a point as many
digits as there are places. Without the point they are the integer part of the absolute value with
all places in front of the point, so the rest is cut off and not rounded. The filling of the
fraction has come to an end. -/
def Shows (n : Numeric) (text : String) : Prop :=
  ∃ whole filled : List Char,
    text.toList = (if n.negative then ['-'] else []) ++ whole ++
      (if n.scale = 0 then [] else '.' :: filled.take n.scale) ∧
    n.Fills (n.weight + 1) [] filled ∧
    whole ≠ [] ∧ (filled.take n.scale).length = n.scale ∧
    (∀ c ∈ whole ++ filled.take n.scale, c.isDigit) ∧
    Nat.ofDigitChars 10 (whole ++ filled.take n.scale) 0 = ⌊n.magnitude * 10 ^ n.scale⌋₊ ∧
    ((∃ g ∈ n.groups.head?, g ≠ 0) → 0 ≤ n.weight → whole.head? ≠ some '0')

theorem decode_shows_value (writable : n.IsWritable) (rest : Bytes) :
    ∃ text, decode (n.bytes ++ rest) = .ok text ∧ n.Shows text := by
  have valid := writable.groups
  have fills : n.Fills (n.weight + 1) [] n.places := fills_groups valid writable.scale (by simp)
  have length : (n.places.take n.scale).length = n.scale := by
    rw [List.length_take, length_places valid]
    omega
  have digits : ∀ c ∈ n.wholeChars ++ n.places.take n.scale, c.isDigit := fun c mem =>
    (List.mem_append.mp mem).elim (isDigit_of_mem_wholeChars valid) fun mem =>
      isDigit_of_mem_groups valid (List.mem_of_mem_take mem)
  refine ⟨_, decode_bytes writable rest, n.wholeChars, n.places, ?_, fills,
    wholeChars_ne_nil valid, length, digits, ofDigitChars_take_places valid,
    head?_wholeChars_ne valid⟩
  rw [String.toList_ofList, chars, fills.fractionChars_eq]

theorem decode_shows_value_truncated :
    let n : Numeric := ⟨true, 1, 3, [1, 2345, 6789]⟩
    n.IsWritable ∧ ∃ text, decode (n.bytes ++ [0xFF]) = .ok text ∧ n.Shows text := by
  intro n
  have writable : n.IsWritable :=
    ⟨by decide, ⟨by decide, by decide⟩, by decide, by simp [n, IsGroup]⟩
  exact ⟨writable, decode_shows_value writable [0xFF]⟩

example : decode (Numeric.bytes ⟨true, 1, 3, [1, 2345, 6789]⟩) = .ok "-12345.678" := by decide

end Numeric

end PgPipeline
