import PgPipeline.Number.Integer
import PgPipeline.Text.Base64
import PgPipeline.Text.Cut

namespace PgPipeline

namespace Text

variable {c : Char} {front behind : List Char}

theorem cutFirst_eq_none (absent : c ∉ front) : cutFirst c front = (front, none) := by
  induction front with
  | nil => rfl
  | cons d front ih =>
    simp only [List.mem_cons, not_or] at absent
    rw [cutFirst, if_neg (Ne.symm absent.1), ih absent.2]

theorem cutFirst_append (absent : c ∉ front) :
    cutFirst c (front ++ c :: behind) = (front, some behind) := by
  induction front with
  | nil => simp [cutFirst]
  | cons d front ih =>
    simp only [List.mem_cons, not_or] at absent
    rw [List.cons_append, cutFirst, if_neg (Ne.symm absent.1), ih absent.2]

theorem exists_last {cs : List Char} (mem : c ∈ cs) :
    ∃ front behind, cs = front ++ c :: behind ∧ c ∉ behind := by
  obtain ⟨behind, front, same, last⟩ := List.eq_append_cons_of_mem (List.mem_reverse.mpr mem)
  refine ⟨front.reverse, behind.reverse, ?_, by simpa using last⟩
  rw [← List.reverse_reverse cs, same]
  simp

theorem cutLast_append (absent : c ∉ behind) :
    cutLast c (front ++ c :: behind) = (some front, behind) := by
  have turned : (front ++ c :: behind).reverse = behind.reverse ++ c :: front.reverse := by simp
  rw [cutLast, turned, cutFirst_append (by simpa using absent)]
  simp

theorem cutLast_eq_none (absent : c ∉ front) : cutLast c front = (none, front) := by
  rw [cutLast, cutFirst_eq_none (by simpa using absent)]

theorem cutLast_append_right {cs : List Char} (absent : c ∉ behind) :
    cutLast c (cs ++ behind) = ((cutLast c cs).1, (cutLast c cs).2 ++ behind) := by
  by_cases mem : c ∈ cs
  · obtain ⟨front, rest, rfl, last⟩ := exists_last mem
    rw [List.append_assoc, List.cons_append, cutLast_append last,
      cutLast_append (by simp [last, absent])]
  · rw [cutLast_eq_none mem, cutLast_eq_none (by simp [mem, absent])]

theorem cutLast_subset (c : Char) (cs : List Char) : (cutLast c cs).2 ⊆ cs := by
  by_cases mem : c ∈ cs
  · obtain ⟨front, rest, rfl, last⟩ := exists_last mem
    rw [cutLast_append last]
    exact fun d within => List.mem_append_right _ (List.mem_cons_of_mem _ within)
  · rw [cutLast_eq_none mem]
    exact List.Subset.refl cs

theorem splitAll_eq_singleton (absent : c ∉ front) : splitAll c front = [front] := by
  induction front with
  | nil => rfl
  | cons d front ih =>
    simp only [List.mem_cons, not_or] at absent
    rw [splitAll, if_neg (Ne.symm absent.1), ih absent.2]

theorem splitAll_append (absent : c ∉ front) :
    splitAll c (front ++ c :: behind) = front :: splitAll c behind := by
  induction front with
  | nil => simp [splitAll]
  | cons d front ih =>
    simp only [List.mem_cons, not_or] at absent
    rw [List.cons_append, splitAll, if_neg (Ne.symm absent.1), ih absent.2]

theorem head?_splitAll (c : Char) (cs : List Char) :
    (splitAll c cs).head? = some (cs.takeWhile (· ≠ c)) := by
  induction cs with
  | nil => rfl
  | cons d cs ih =>
    rw [splitAll]
    split
    · next same => simp [same]
    · next other =>
      rw [List.takeWhile_cons_of_pos (by simpa using other)]
      split
      · next none =>
        rw [none] at ih
        cases ih
      · next first others parts =>
        rw [parts] at ih
        cases ih
        rfl

end Text

namespace Base64

theorem value?_digit {n : Nat} (small : n < 64) : value? (digit n) = some n := by
  revert n
  decide

theorem digit_ne {n : Nat} {c : Char} (small : n < 64) (foreign : value? c = none) :
    digit n ≠ c := by
  rintro rfl
  rw [value?_digit small] at foreign
  cases foreign

theorem decode?_full {p q r s : Char} {rest : List Char} (third : r ≠ '=') (fourth : s ≠ '=') :
    decode? (p :: q :: r :: s :: rest) = (do
      let x ← value? p
      let y ← value? q
      let z ← value? r
      let w ← value? s
      let tail ← decode? rest
      return UInt8.ofNat (x * 4 + y / 16) :: UInt8.ofNat (y % 16 * 16 + z / 4)
        :: UInt8.ofNat (z % 4 * 64 + w) :: tail) := by
  rw [decode?]
  · simp [third]
  · simp [fourth]

theorem decode?_encode (bs : Bytes) : decode? (encode bs) = some bs := by
  have byte (b : UInt8) (n : Nat) (same : n = b.toNat) : UInt8.ofNat n = b := by
    rw [same, UInt8.ofNat_toNat]
  fun_induction encode bs with
  | case1 => rfl
  | case2 a =>
    have bound := a.toNat_lt
    rw [decode?, last?, value?_digit (by omega), value?_digit (by omega)]
    simp only [Option.bind_eq_bind, Option.bind_some]
    rw [if_pos (by omega), byte a _ (by omega)]
  | case3 a b =>
    have first := a.toNat_lt
    have second := b.toNat_lt
    rw [decode?, last?, value?_digit (by omega), value?_digit (by omega), value?_digit (by omega)]
    · simp only [Option.bind_eq_bind, Option.bind_some]
      rw [if_pos (by omega), byte a _ (by omega), byte b _ (by omega)]
    · exact digit_ne (by omega) rfl
  | case4 a b c rest ih =>
    have first := a.toNat_lt
    have second := b.toNat_lt
    have third := c.toNat_lt
    rw [decode?_full (digit_ne (by omega) rfl) (digit_ne (by omega) rfl), value?_digit (by omega),
      value?_digit (by omega), value?_digit (by omega), value?_digit (by omega), ih]
    simp only [Option.bind_eq_bind, Option.bind_some]
    rw [byte a _ (by omega), byte b _ (by omega), byte c _ (by omega)]
    rfl

theorem digit_of_value? {c : Char} {n : Nat} (read : value? c = some n) : n < 64 ∧ digit n = c := by
  have back : Char.ofNat c.toNat = c := Char.ofNat_toNat c
  simp only [value?] at read
  split at read
  · cases read
    refine ⟨by omega, ?_⟩
    rw [digit, if_pos (by omega), Nat.add_sub_cancel' (by omega), back]
  split at read
  · cases read
    refine ⟨by omega, ?_⟩
    rw [digit, if_neg (by omega), if_pos (by omega), Nat.add_sub_cancel' (by omega), back]
  split at read
  · cases read
    refine ⟨by omega, ?_⟩
    rw [digit, if_neg (by omega), if_neg (by omega), if_pos (by omega), Nat.add_sub_cancel, back]
  split at read
  · next plus =>
    cases read
    exact ⟨by decide, plus.symm⟩
  split at read
  · next slash =>
    cases read
    exact ⟨by decide, slash.symm⟩
  · cases read

/-- Only what writing produces is read: the padding is complete, and no bits stray in front of it. -/
theorem encode_of_decode? {cs : List Char} {bs : Bytes} (read : decode? cs = some bs) :
    encode bs = cs := by
  have byte (n : Nat) (small : n < 256) : (UInt8.ofNat n).toNat = n :=
    UInt8.toNat_ofNat_of_lt small
  fun_induction decode? cs generalizing bs with
  | case1 =>
    cases read
    rfl
  | case2 p q =>
    simp only [last?, Option.bind_eq_bind, Option.bind_eq_some_iff] at read
    obtain ⟨x, first, y, second, read⟩ := read
    obtain ⟨smallX, rfl⟩ := digit_of_value? first
    obtain ⟨smallY, rfl⟩ := digit_of_value? second
    obtain ⟨stray, same⟩ := Option.ite_none_right_eq_some.mp read
    cases same
    have front : (x * 4 + y / 16) / 4 = x := by omega
    have back : (x * 4 + y / 16) % 4 * 16 = y := by omega
    rw [encode, byte _ (by omega), front, back]
  | case3 p q r =>
    simp only [last?, Option.bind_eq_bind, Option.bind_eq_some_iff] at read
    obtain ⟨x, first, y, second, z, third, read⟩ := read
    obtain ⟨smallX, rfl⟩ := digit_of_value? first
    obtain ⟨smallY, rfl⟩ := digit_of_value? second
    obtain ⟨smallZ, rfl⟩ := digit_of_value? third
    obtain ⟨stray, same⟩ := Option.ite_none_right_eq_some.mp read
    cases same
    have front : (x * 4 + y / 16) / 4 = x := by omega
    have middle : (x * 4 + y / 16) % 4 * 16 + (y % 16 * 16 + z / 4) / 16 = y := by omega
    have back : (y % 16 * 16 + z / 4) % 16 * 4 = z := by omega
    rw [encode, byte _ (by omega), byte _ (by omega), front, middle, back]
  | case4 p q r s rest _ _ ih =>
    simp only [Option.bind_eq_bind, Option.bind_eq_some_iff] at read
    obtain ⟨x, first, y, second, z, third, w, fourth, tail, others, read⟩ := read
    obtain ⟨smallX, rfl⟩ := digit_of_value? first
    obtain ⟨smallY, rfl⟩ := digit_of_value? second
    obtain ⟨smallZ, rfl⟩ := digit_of_value? third
    obtain ⟨smallW, rfl⟩ := digit_of_value? fourth
    cases read
    have front : (x * 4 + y / 16) / 4 = x := by omega
    have middle : (x * 4 + y / 16) % 4 * 16 + (y % 16 * 16 + z / 4) / 16 = y := by omega
    have next : (y % 16 * 16 + z / 4) % 16 * 4 + (z % 4 * 64 + w) / 64 = z := by omega
    have back : (z % 4 * 64 + w) % 64 = w := by omega
    rw [encode, byte _ (by omega), byte _ (by omega), byte _ (by omega), front, middle, next, back,
      ih others]
  | case5 => cases read

theorem decode?_eq_some_iff {cs : List Char} {bs : Bytes} :
    decode? cs = some bs ↔ cs = encode bs :=
  ⟨fun read => (encode_of_decode? read).symm, fun written => written ▸ decode?_encode bs⟩

theorem not_mem_encode {c : Char} (foreign : value? c = none) (padding : c ≠ '=') (bs : Bytes) :
    c ∉ encode bs := by
  have other (n : Nat) (small : n < 64) : c ≠ digit n := (digit_ne small foreign).symm
  fun_induction encode bs with
  | case1 => simp
  | case2 a =>
    have bound := a.toNat_lt
    simp only [List.mem_cons, List.not_mem_nil, or_false, not_or]
    exact ⟨other _ (by omega), other _ (by omega), padding, padding⟩
  | case3 a b =>
    have first := a.toNat_lt
    have second := b.toNat_lt
    simp only [List.mem_cons, List.not_mem_nil, or_false, not_or]
    exact ⟨other _ (by omega), other _ (by omega), other _ (by omega), padding⟩
  | case4 a b c rest ih =>
    have first := a.toNat_lt
    have second := b.toNat_lt
    have third := c.toNat_lt
    simp only [List.mem_cons, not_or]
    exact ⟨other _ (by omega), other _ (by omega), other _ (by omega), other _ (by omega), ih⟩

end Base64

namespace Number

theorem isDigit_iff {c : Char} : c.isDigit ↔ 48 ≤ c.toNat ∧ c.toNat ≤ 57 := by
  simp only [Char.isDigit, Bool.and_eq_true, decide_eq_true_eq, UInt32.le_iff_toNat_le]
  rfl

theorem digitValue?_of_isDigit {c : Char} (digit : c.isDigit) :
    digitValue? c = some (c.toNat - '0'.toNat) :=
  if_pos (isDigit_iff.mp digit)

theorem isDigit_of_digitValue? {c : Char} {d : Nat} (read : digitValue? c = some d) :
    c.isDigit ∧ d = c.toNat - '0'.toNat := by
  obtain ⟨digit, same⟩ := Option.ite_none_right_eq_some.mp read
  exact ⟨isDigit_iff.mpr digit, (Option.some.inj same).symm⟩

/-- A number is written with decimal digits, and may have a plus in front of them. -/
def Spells (cs : List Char) (n : Nat) : Prop :=
  ∃ digits, (cs = digits ∨ cs = '+' :: digits) ∧ digits ≠ [] ∧ (∀ c ∈ digits, c.isDigit) ∧
    Nat.ofDigitChars 10 digits 0 = n

theorem isDigit_of_mem_toString {n : Nat} {c : Char} (mem : c ∈ (toString n).toList) :
    c.isDigit := by
  rw [Nat.toString_eq_repr, Nat.toList_repr] at mem
  exact Nat.isDigit_of_mem_toDigits (by decide) (by decide) mem

namespace IntegerRange

variable {range : IntegerRange}

/-- The number only grows while digits are read, so a number in the range never leaves it on the
way. -/
theorem readDigits_ofDigitChars {cs : List Char} {acc : Nat} (digits : ∀ c ∈ cs, c.isDigit)
    (low : range.low ≤ 0) (fits : (Nat.ofDigitChars 10 cs acc : Int) ≤ range.high) :
    range.readDigits false acc cs = .ok (Nat.ofDigitChars 10 cs acc : Int) := by
  induction cs generalizing acc with
  | nil => rfl
  | cons c cs ih =>
    obtain ⟨digit, digits⟩ := List.forall_mem_cons.mp digits
    rw [Nat.ofDigitChars_cons] at fits ⊢
    generalize next : 10 * acc + (c.toNat - '0'.toNat) = sum at fits ⊢
    have grows : sum ≤ Nat.ofDigitChars 10 cs sum := by
      rw [Nat.ofDigitChars_eq_ofDigitChars_zero]
      have power : 0 < 10 ^ cs.length := Nat.pow_pos (by decide)
      exact Nat.le_trans (Nat.le_mul_of_pos_left sum power) (Nat.le_add_right _ _)
    have taken : (acc : Int) * 10 + (c.toNat - '0'.toNat : Nat) = sum := by omega
    simp only [readDigits, digitValue?_of_isDigit digit, Bool.false_eq_true, if_false]
    rw [taken, if_neg (by omega), if_neg (by omega)]
    exact ih digits fits

theorem readDigits_ok {cs : List Char} {acc : Nat} {n : Int}
    (within : (acc : Int) ≤ range.high) (read : range.readDigits false acc cs = .ok n) :
    (∀ c ∈ cs, c.isDigit) ∧ n = (Nat.ofDigitChars 10 cs acc : Nat) ∧ n ≤ range.high := by
  induction cs generalizing acc with
  | nil =>
    cases read
    exact ⟨nofun, rfl, within⟩
  | cons c cs ih =>
    simp only [readDigits, Bool.false_eq_true, if_false] at read
    split at read
    · cases read
    next d value =>
    obtain ⟨digit, rfl⟩ := isDigit_of_digitValue? value
    split at read
    · cases read
    next fits =>
    split at read
    · cases read
    have taken : (acc : Int) * 10 + (c.toNat - '0'.toNat : Nat) =
        (10 * acc + (c.toNat - '0'.toNat) : Nat) := by omega
    rw [taken] at fits read
    obtain ⟨digits, value, within⟩ := ih (by omega) read
    exact ⟨List.forall_mem_cons.mpr ⟨digit, digits⟩, by rw [value, Nat.ofDigitChars_cons], within⟩

theorem read_of_isDigit {c : Char} {rest : List Char} (digit : c.isDigit) :
    range.read (c :: rest) = range.readDigits false 0 (c :: rest) := by
  unfold read
  split
  · next none_ => cases none_
  · next sign =>
    cases sign
    exact absurd digit (by decide)
  · next sign =>
    cases sign
    exact absurd digit (by decide)
  · next all =>
    cases all
    rfl

theorem readDigits_unsigned_iff {bits : Nat} {cs : List Char} {n : Int} :
    (unsigned bits).readDigits false 0 cs = .ok n ↔
      (∀ c ∈ cs, c.isDigit) ∧ n = (Nat.ofDigitChars 10 cs 0 : Nat) ∧
        Nat.ofDigitChars 10 cs 0 < 2 ^ bits := by
  have high : (unsigned bits).high = ((2 ^ bits : Nat) : Int) - 1 := by simp [unsigned]
  have positive : 0 < 2 ^ bits := Nat.pow_pos (by decide)
  constructor
  · intro read
    obtain ⟨digits, rfl, within⟩ :=
      readDigits_ok (show ((0 : Nat) : Int) ≤ (unsigned bits).high by omega) read
    exact ⟨digits, rfl, by omega⟩
  · rintro ⟨digits, rfl, small⟩
    have fits : (Nat.ofDigitChars 10 cs 0 : Int) ≤ (unsigned bits).high := by omega
    exact readDigits_ofDigitChars digits (Int.le_refl 0) fits

theorem read_unsigned_eq_ok_iff {bits : Nat} {cs : List Char} {n : Int} :
    (unsigned bits).read cs = .ok n ↔ ∃ m : Nat, n = m ∧ Spells cs m ∧ m < 2 ^ bits := by
  constructor
  · intro found
    have reads {digits : List Char} (some : digits ≠ [])
        (written : cs = digits ∨ cs = '+' :: digits)
        (found : (unsigned bits).readDigits false 0 digits = .ok n) :
        ∃ m : Nat, n = m ∧ Spells cs m ∧ m < 2 ^ bits := by
      obtain ⟨all, value, small⟩ := readDigits_unsigned_iff.mp found
      exact ⟨_, value, ⟨digits, written, some, all, rfl⟩, small⟩
    unfold read at found
    split at found
    · cases found
    · split at found
      · cases found
      · next some => exact reads (mt List.isEmpty_iff.mpr some) (.inr rfl) found
    · rw [if_pos (.inr (Int.le_refl 0))] at found
      cases found
    · exact reads (List.cons_ne_nil _ _) (.inl rfl) found
  · rintro ⟨m, rfl, ⟨digits, written, some, all, rfl⟩, small⟩
    have found := readDigits_unsigned_iff.mpr ⟨all, rfl, small⟩
    obtain ⟨c, rest, rfl⟩ := List.exists_cons_of_ne_nil some
    rcases written with rfl | rfl
    · rw [read_of_isDigit (all c List.mem_cons_self), found]
    · exact found

theorem read_toString {n : Nat} (low : range.low ≤ 0) (fits : (n : Int) ≤ range.high) :
    range.read (toString n).toList = .ok (n : Int) := by
  have digits (c : Char) (mem : c ∈ (toString n).toList) : c.isDigit := isDigit_of_mem_toString mem
  have value : Nat.ofDigitChars 10 (Nat.toDigits 10 n) 0 = n :=
    Nat.ofDigitChars_toDigits (by decide) (by decide)
  simp only [Nat.toString_eq_repr, Nat.toList_repr] at digits ⊢
  have reading : range.readDigits false 0 (Nat.toDigits 10 n) =
      .ok (Nat.ofDigitChars 10 (Nat.toDigits 10 n) 0 : Int) :=
    readDigits_ofDigitChars digits low (by rwa [value])
  rw [value] at reading
  cases written : Nat.toDigits 10 n with
  | nil => exact absurd written Nat.toDigits_ne_nil
  | cons c rest =>
    rw [written] at digits reading
    rw [read_of_isDigit (digits c List.mem_cons_self), reading]

end IntegerRange

end Number

end PgPipeline
