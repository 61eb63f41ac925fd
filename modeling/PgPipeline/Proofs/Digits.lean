import PgPipeline.Calendar
import PgPipeline.Proofs.Reading

namespace PgPipeline

variable {c : Char} {cs : List Char} {width n k : Nat}

theorem ofDigitChars_lt (digits : ∀ c ∈ cs, c.isDigit) :
    Nat.ofDigitChars 10 cs 0 < 10 ^ cs.length := by
  induction cs with
  | nil => simp
  | cons c cs ih =>
    obtain ⟨digit, digits⟩ := List.forall_mem_cons.mp digits
    have small : c.toNat - '0'.toNat ≤ 9 :=
      Nat.sub_le_of_le_add (Number.isDigit_iff.mp digit).2
    have rest := ih digits
    rw [Nat.ofDigitChars_cons, Nat.mul_zero, Nat.zero_add, Nat.ofDigitChars_eq_ofDigitChars_zero,
      List.length_cons, Nat.pow_succ]
    have head : 10 ^ cs.length * (c.toNat - '0'.toNat) ≤ 10 ^ cs.length * 9 :=
      Nat.mul_le_mul_left _ small
    omega

theorem ofDigitChars_take (digits : ∀ c ∈ cs, c.isDigit) :
    Nat.ofDigitChars 10 (cs.take k) 0 = Nat.ofDigitChars 10 cs 0 / 10 ^ (cs.length - k) := by
  have behind : Nat.ofDigitChars 10 (cs.drop k) 0 < 10 ^ (cs.drop k).length :=
    ofDigitChars_lt fun c mem => digits c (List.mem_of_mem_drop mem)
  have whole : Nat.ofDigitChars 10 cs 0 = 10 ^ (cs.length - k) *
      Nat.ofDigitChars 10 (cs.take k) 0 + Nat.ofDigitChars 10 (cs.drop k) 0 := by
    rw [← List.length_drop, ← Nat.ofDigitChars_eq_ofDigitChars_zero, ← Nat.ofDigitChars_append,
      List.take_append_drop]
  rw [List.length_drop] at behind
  rw [whole, Nat.mul_add_div (Nat.pow_pos (by decide)), Nat.div_eq_of_lt behind, Nat.add_zero]

theorem head?_toDigits_ne (positive : 0 < n) : (Nat.toDigits 10 n).head? ≠ some '0' := by
  intro zero
  obtain ⟨rest, written⟩ := List.head?_eq_some_iff.mp zero
  have value : Nat.ofDigitChars 10 (Nat.toDigits 10 n) 0 = n :=
    Nat.ofDigitChars_toDigits (by decide) (by decide)
  have digits (c : Char) (mem : c ∈ rest) : c.isDigit :=
    Nat.isDigit_of_mem_toDigits (b := 10) (n := n) (by decide) (by decide)
      (written ▸ List.mem_cons_of_mem _ mem)
  rw [written, Nat.ofDigitChars_cons] at value
  have bound := ofDigitChars_lt digits
  cases none : rest with
  | nil =>
    rw [none] at value
    exact absurd value (Nat.ne_of_lt positive)
  | cons d others =>
    have short : (Nat.toDigits 10 n).length ≤ rest.length :=
      (Nat.length_toDigits_le_iff (by decide) (by simp [none])).mpr (value ▸ bound)
    rw [written, List.length_cons] at short
    omega

theorem isDigit_of_mem_padded (mem : c ∈ padded width n) : c.isDigit := by
  rcases List.mem_append.mp mem with zero | digit
  · rw [List.eq_of_mem_replicate zero]
    decide
  · exact Nat.isDigit_of_mem_toDigits (by decide) (by decide) digit

theorem length_padded (positive : 0 < width) (small : n < 10 ^ width) :
    (padded width n).length = width := by
  have short := (Nat.length_toDigits_le_iff (b := 10) (by decide) positive).mpr small
  rw [padded, List.length_append, List.length_replicate]
  omega

theorem ofDigitChars_padded : Nat.ofDigitChars 10 (padded width n) 0 = n := by
  rw [padded, Nat.ofDigitChars_append, Nat.ofDigitChars_replicate_zero]
  simp [Nat.ofDigitChars_toDigits]

theorem le_length_padded : width ≤ (padded width n).length := by
  rw [padded, List.length_append, List.length_replicate]
  omega

theorem head?_padded_ne (positive : 0 < width) (long : width < (padded width n).length) :
    (padded width n).head? ≠ some '0' := by
  have unpadded : width - (Nat.toDigits 10 n).length = 0 := by
    rw [padded, List.length_append, List.length_replicate] at long
    omega
  rw [padded, unpadded, List.replicate_zero, List.nil_append] at long ⊢
  refine head?_toDigits_ne (Nat.pos_of_ne_zero ?_)
  rintro rfl
  exact absurd long (Nat.not_lt.mpr positive)

structure Means (cs : List Char) (n : Nat) : Prop where
  digits : ∀ c ∈ cs, c.isDigit
  value : Nat.ofDigitChars 10 cs 0 = n

theorem means_padded : Means (padded width n) n :=
  ⟨fun _ mem => isDigit_of_mem_padded mem, ofDigitChars_padded⟩

theorem padded_fits (positive : 0 < width) (small : n < 10 ^ width) :
    Means (padded width n) n ∧ (padded width n).length = width :=
  ⟨means_padded, length_padded positive small⟩

end PgPipeline
