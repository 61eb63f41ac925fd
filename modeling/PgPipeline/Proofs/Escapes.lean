import PgPipeline.Config.Percent
import PgPipeline.Proofs.Utf8

namespace PgPipeline.Percent

open Bytes (ascii hexValue?)

inductive Spells : Bytes → Bytes → Prop
  | nil : Spells [] []
  | keep {b : UInt8} {written meant : Bytes} (plain : b ≠ ascii '%') (rest : Spells written meant) :
    Spells (b :: written) (b :: meant)
  | escape {a b : Char} {high low : Nat} {written meant : Bytes} (first : hexValue? a = some high)
    (second : hexValue? b = some low) (rest : Spells written meant) :
    Spells (ascii '%' :: ascii a :: ascii b :: written) (UInt8.ofNat (high * 16 + low) :: meant)

def IsEscaped (cs : List Char) : Prop :=
  ∀ front behind, cs = front ++ '%' :: behind →
    ∃ a b rest, behind = a :: b :: rest ∧ (hexValue? a).isSome ∧ (hexValue? b).isSome

/-- An escape has a sign in the place of its first digit. -/
def HasSign (cs : List Char) : Prop := ['%', '+'] <:+: cs

variable {a b : Char} {cs rest : List Char} {written meant : Bytes}

theorem hexValue?_lt {n : Nat} (digit : hexValue? a = some n) : a.toNat < 0x80 := by
  unfold hexValue? at digit
  dsimp only at digit
  repeat' split at digit
  all_goals first
    | omega
    | cases digit

theorem byte?_digits {high low : Nat} (first : hexValue? a = some high)
    (second : hexValue? b = some low) : byte? a b = some (UInt8.ofNat (high * 16 + low)) := by
  have digit : a ≠ '+' := by
    rintro rfl
    cases first
  simp [byte?, first, second, digit]

/-- Two characters make a byte if they are digits, and otherwise only if the first is a sign. -/
theorem digits_of_byte? {byte : UInt8} (read : byte? a b = some byte) (unsigned : a ≠ '+') :
    ∃ high low, hexValue? a = some high ∧ hexValue? b = some low ∧
      byte = UInt8.ofNat (high * 16 + low) := by
  simp only [byte?, if_neg unsigned, Option.bind_eq_bind, Option.bind_eq_some_iff,
    Option.pure_def, Option.some.injEq] at read
  obtain ⟨low, second, high, first, same⟩ := read
  exact ⟨high, low, first, second, same.symm⟩

theorem spells_cons {x : UInt8} (plain : x ≠ ascii '%') :
    Spells (x :: written) meant ↔ ∃ others, meant = x :: others ∧ Spells written others := by
  constructor
  · intro spelled
    cases spelled with
    | keep _ rest => exact ⟨_, rfl, rest⟩
    | escape => exact absurd rfl plain
  · rintro ⟨others, rfl, rest⟩
    exact .keep plain rest

theorem spells_append {front : Bytes} (plain : ascii '%' ∉ front) :
    Spells (front ++ written) meant ↔ ∃ others, meant = front ++ others ∧ Spells written others := by
  induction front generalizing meant with
  | nil => simp
  | cons x front ih =>
    simp only [List.mem_cons, not_or] at plain
    simp only [List.cons_append, spells_cons (Ne.symm plain.1), ih plain.2]
    constructor
    · rintro ⟨_, rfl, others, rfl, rest⟩
      exact ⟨others, rfl, rest⟩
    · rintro ⟨others, rfl, rest⟩
      exact ⟨_, rfl, others, rfl, rest⟩

theorem spells_char (plain : a ≠ '%') : Spells (Utf8.encodeChars (a :: cs)) meant ↔
    ∃ others, meant = Utf8.encodeChar a ++ others ∧ Spells (Utf8.encodeChars cs) others :=
  spells_append (Utf8.ascii_not_mem_encodeChar (by decide) plain)

theorem spells_percent : Spells (Utf8.encodeChars ('%' :: cs)) meant ↔
    ∃ a b rest high low others, cs = a :: b :: rest ∧ hexValue? a = some high ∧
      hexValue? b = some low ∧ meant = UInt8.ofNat (high * 16 + low) :: others ∧
      Spells (Utf8.encodeChars rest) others := by
  constructor
  · intro spelled
    rw [Utf8.encodeChars_cons, Utf8.encodeChar_ascii (by decide), List.singleton_append] at spelled
    generalize same : Utf8.encodeChars cs = written at spelled
    cases spelled with
    | keep plain => exact absurd rfl plain
    | escape first second spelled =>
      obtain ⟨behind, rfl, tail⟩ := Utf8.encodeChars_eq_cons (hexValue?_lt first) same.symm
      obtain ⟨rest, rfl, last⟩ := Utf8.encodeChars_eq_cons (hexValue?_lt second) tail
      exact ⟨_, _, rest, _, _, _, rfl, first, second, rfl, last ▸ spelled⟩
  · rintro ⟨a, b, rest, high, low, others, rfl, first, second, rfl, spelled⟩
    simp only [Utf8.encodeChars_cons, Utf8.encodeChar_ascii (hexValue?_lt first),
      Utf8.encodeChar_ascii (hexValue?_lt second)]
    exact .escape first second spelled

theorem bytes?_of_spells (spelled : Spells (Utf8.encodeChars cs) meant) :
    bytes? cs = some meant := by
  fun_induction bytes? cs generalizing meant with
  | case1 =>
    cases spelled
    rfl
  | case2 a b rest ih =>
    obtain ⟨_, _, _, _, _, _, same, first, second, rfl, tail⟩ := spells_percent.mp spelled
    cases same
    rw [byte?_digits first second, ih tail]
    rfl
  | case3 tail short =>
    obtain ⟨a, b, rest, _, _, _, same, _⟩ := spells_percent.mp spelled
    exact (short a b rest same).elim
  | case4 c rest _ plain ih =>
    obtain ⟨others, rfl, tail⟩ := (spells_char plain).mp spelled
    rw [ih tail]
    rfl

theorem spells_of_bytes? (unsigned : ¬ HasSign cs) (read : bytes? cs = some meant) :
    Spells (Utf8.encodeChars cs) meant := by
  have later (front : List Char) {rest : List Char} (unsigned : ¬ HasSign (front ++ rest)) :
      ¬ HasSign rest :=
    fun sign => unsigned (sign.trans (List.suffix_append front rest).isInfix)
  fun_induction bytes? cs generalizing meant with
  | case1 =>
    cases read
    exact .nil
  | case2 a b rest ih =>
    simp only [Option.bind_eq_bind, Option.bind_eq_some_iff, Option.pure_def,
      Option.some.injEq] at read
    obtain ⟨byte, digits, others, tail, rfl⟩ := read
    have digit : a ≠ '+' := by
      rintro rfl
      exact unsigned ⟨[], b :: rest, rfl⟩
    obtain ⟨high, low, first, second, rfl⟩ := digits_of_byte? digits digit
    exact spells_percent.mpr ⟨a, b, rest, high, low, others, rfl, first, second, rfl,
      ih (later ['%', a, b] unsigned) tail⟩
  | case3 => cases read
  | case4 c rest _ plain ih =>
    obtain ⟨others, tail, rfl⟩ := Option.map_eq_some_iff.mp read
    exact (spells_char plain).mpr ⟨others, rfl, ih (later [c] unsigned) tail⟩

theorem isEscaped_char (plain : a ≠ '%') : IsEscaped (a :: cs) ↔ IsEscaped cs := by
  constructor
  · intro escaped front behind same
    exact escaped (a :: front) behind (congrArg (a :: ·) same)
  · intro escaped front behind same
    rcases List.cons_eq_append_iff.mp same with ⟨-, same⟩ | ⟨front, -, same⟩
    · injection same with sign _
      exact absurd sign.symm plain
    · exact escaped front behind same

theorem isEscaped_percent : IsEscaped ('%' :: cs) ↔ ∃ a b rest high low, cs = a :: b :: rest ∧
    hexValue? a = some high ∧ hexValue? b = some low ∧ IsEscaped rest := by
  have plain {c : Char} {n : Nat} (digit : hexValue? c = some n) : c ≠ '%' := by
    rintro rfl
    cases digit
  constructor
  · intro escaped
    obtain ⟨a, b, rest, rfl, first, second⟩ := escaped [] cs rfl
    obtain ⟨high, first⟩ := Option.isSome_iff_exists.mp first
    obtain ⟨low, second⟩ := Option.isSome_iff_exists.mp second
    refine ⟨a, b, rest, high, low, rfl, first, second, fun front behind same => ?_⟩
    exact escaped ('%' :: a :: b :: front) behind (congrArg ('%' :: a :: b :: ·) same)
  · rintro ⟨a, b, rest, high, low, rfl, first, second, escaped⟩ front behind same
    rcases List.cons_eq_append_iff.mp same with ⟨-, same⟩ | ⟨front, -, same⟩
    · cases same
      exact ⟨a, b, rest, rfl, Option.isSome_of_eq_some first, Option.isSome_of_eq_some second⟩
    · exact (isEscaped_char (plain first)).mpr ((isEscaped_char (plain second)).mpr escaped)
        front behind same

/-- It is told what a text spells as soon as every percent sign in it begins an escape. -/
theorem isEscaped_iff : IsEscaped cs ↔ ∃ meant, Spells (Utf8.encodeChars cs) meant := by
  induction length : cs.length using Nat.strongRecOn generalizing cs with
  | ind n ih =>
    subst length
    cases cs with
    | nil => exact iff_of_true (fun front _ same => by cases front <;> cases same) ⟨[], .nil⟩
    | cons c cs =>
      by_cases sign : c = '%'
      · subst sign
        rw [isEscaped_percent]
        constructor
        · rintro ⟨a, b, rest, high, low, rfl, first, second, escaped⟩
          obtain ⟨others, spelled⟩ := (ih _ (by simp; omega) rfl).mp escaped
          exact ⟨_, spells_percent.mpr ⟨a, b, rest, high, low, others, rfl, first, second, rfl,
            spelled⟩⟩
        · rintro ⟨meant, spelled⟩
          obtain ⟨a, b, rest, high, low, others, rfl, first, second, -, spelled⟩ :=
            spells_percent.mp spelled
          exact ⟨a, b, rest, high, low, rfl, first, second,
            (ih _ (by simp; omega) rfl).mpr ⟨others, spelled⟩⟩
      · rw [isEscaped_char sign, ih _ (Nat.lt_succ_self _) rfl]
        constructor
        · rintro ⟨others, spelled⟩
          exact ⟨_, (spells_char sign).mpr ⟨others, rfl, spelled⟩⟩
        · rintro ⟨meant, spelled⟩
          obtain ⟨others, -, tail⟩ := (spells_char sign).mp spelled
          exact ⟨others, tail⟩

theorem decode_eq_ok_iff {text : String} :
    decode cs = .ok text ↔ bytes? cs = some (Utf8.encode text) := by
  unfold decode
  cases bytes? cs with
  | none => simp
  | some bs =>
    dsimp only
    rw [Option.some.injEq, @eq_comm _ bs, ← Utf8.decode_eq_ok_iff]
    cases Utf8.decode bs <;> simp

/-- A text is decoded as itself with its escapes replaced by their bytes, and only if each percent
sign begins an escape and the bytes make a text: this holds of exactly those that have no sign in an
escape, and of those that are refused. Every spelling of a text is decoded as that text. -/
theorem decode_exact_iff (s : String) :
    ((∀ text, decode s.toList = .ok text ↔
        IsEscaped s.toList ∧ Spells (Utf8.encode s) (Utf8.encode text)) ↔
      (HasSign s.toList → ∀ text, decode s.toList ≠ .ok text)) ∧
    ∀ text, Spells (Utf8.encode s) (Utf8.encode text) → decode s.toList = .ok text := by
  have read (text : String) (spelled : Spells (Utf8.encode s) (Utf8.encode text)) :
      decode s.toList = .ok text := decode_eq_ok_iff.mpr (bytes?_of_spells spelled)
  refine ⟨⟨?_, ?_⟩, read⟩
  · rintro exact_ ⟨front, behind, signed⟩ text decoded
    obtain ⟨escaped, -⟩ := (exact_ text).mp decoded
    obtain ⟨a, b, rest, same, digit, -⟩ := escaped front ('+' :: behind) (by simp [← signed])
    cases same
    cases digit
  · intro refused text
    refine ⟨fun decoded => ?_, fun spelled => read text spelled.2⟩
    have unsigned : ¬ HasSign s.toList := fun sign => refused sign text decoded
    have spelled := spells_of_bytes? unsigned (decode_eq_ok_iff.mp decoded)
    exact ⟨isEscaped_iff.mpr ⟨_, spelled⟩, spelled⟩

theorem decode_exact_iff_escaped :
    Spells (Utf8.encode "caf%C3%a9%2B") (Utf8.encode "café+") ∧
      decode "caf%C3%a9%2B".toList = .ok "café+" ∧ ¬ HasSign "caf%C3%a9%2B".toList ∧
      (∀ text, decode "caf%C3%a9%2B".toList = .ok text ↔ IsEscaped "caf%C3%a9%2B".toList ∧
        Spells (Utf8.encode "caf%C3%a9%2B") (Utf8.encode text)) ∧
      HasSign "u%+G".toList ∧ (∀ text, decode "u%+G".toList ≠ .ok text) ∧
      ∀ text, decode "u%+G".toList = .ok text ↔ IsEscaped "u%+G".toList ∧
        Spells (Utf8.encode "u%+G") (Utf8.encode text) := by
  have written : Utf8.encode "caf%C3%a9%2B" = [0x63, 0x61, 0x66, ascii '%', ascii 'C', ascii '3',
      ascii '%', ascii 'a', ascii '9', ascii '%', ascii '2', ascii 'B'] := by decide +kernel
  have meant : Utf8.encode "café+" = [0x63, 0x61, 0x66, .ofNat (12 * 16 + 3), .ofNat (10 * 16 + 9),
      .ofNat (2 * 16 + 11)] := by decide +kernel
  have spelled : Spells (Utf8.encode "caf%C3%a9%2B") (Utf8.encode "café+") := by
    rw [written, meant]
    refine .keep (by decide) (.keep (by decide) (.keep (by decide) ?_))
    exact .escape (by decide) (by decide) (.escape (by decide) (by decide)
      (.escape (by decide) (by decide) .nil))
  have unsigned : ¬ HasSign "caf%C3%a9%2B".toList := by
    unfold HasSign
    decide +kernel
  have refused : ∀ text, decode "u%+G".toList ≠ .ok text := by
    intro text decoded
    have nothing : bytes? "u%+G".toList = none := by decide +kernel
    cases nothing.symm.trans (decode_eq_ok_iff.mp decoded)
  exact ⟨spelled, (decode_exact_iff _).2 _ spelled, unsigned,
    (decode_exact_iff _).1.mpr fun sign => absurd sign unsigned,
    ⟨['u'], ['G'], rfl⟩, refused, (decode_exact_iff _).1.mpr fun _ => refused⟩

/-- A sign and a digit are read as a byte, though they are no two digits. -/
theorem decode_reads_sign :
    decode "u%+A".toList = .ok "u\n" ∧ ¬ IsEscaped "u%+A".toList := by
  refine ⟨decode_eq_ok_iff.mpr (by decide), fun escaped => ?_⟩
  obtain ⟨a, b, rest, same, digit, -⟩ := escaped ['u'] ['+', 'A'] (by decide)
  cases same
  cases digit

end PgPipeline.Percent
