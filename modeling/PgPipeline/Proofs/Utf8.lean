import PgPipeline.Text.Utf8

namespace PgPipeline.Utf8

variable {a b c d : UInt8} {rest : Bytes}

theorem isTail_iff {n : Nat} : isTail n ↔ 0x80 ≤ n ∧ n < 0xC0 := by
  simp [isTail]

/-- The second byte of a character is one of its tail bytes that makes no shorter form, no
surrogate and no number above the last code point. -/
theorem secondAllowed_of {lead second : Nat} (tail : 0x80 ≤ second ∧ second < 0xC0)
    (long : lead = 0xE0 → 0xA0 ≤ second) (scalar : lead = 0xED → second < 0xA0)
    (longer : lead = 0xF0 → 0x90 ≤ second) (last : lead = 0xF4 → second < 0x90) :
    secondAllowed lead second := by
  unfold secondAllowed
  repeat' split
  all_goals simp only [isTail, Bool.and_eq_true, decide_eq_true_eq]
  all_goals omega

theorem pieces_one (ascii : a.toNat < 0x80) :
    pieces (a :: rest) = .char (Char.ofNat a.toNat) :: pieces rest := by
  rw [pieces.eq_def]
  exact if_pos ascii

theorem pieces_two (lead : 0xC2 ≤ a.toNat ∧ a.toNat < 0xE0) (second : isTail b.toNat) :
    pieces (a :: b :: rest) =
      .char (Char.ofNat ((a.toNat - 0xC0) * 64 + (b.toNat - 0x80))) :: pieces rest := by
  have allowed : secondAllowed a.toNat b.toNat := by
    have tail := isTail_iff.mp second
    exact secondAllowed_of tail (by omega) (by omega) (by omega) (by omega)
  rw [pieces.eq_def]
  dsimp only
  rw [if_neg (by omega), if_neg (by omega), if_neg (not_not_intro allowed), if_pos lead.2]

theorem pieces_three (lead : 0xE0 ≤ a.toNat ∧ a.toNat < 0xF0)
    (second : secondAllowed a.toNat b.toNat) (third : isTail c.toNat) :
    pieces (a :: b :: c :: rest) =
      .char (Char.ofNat ((a.toNat - 0xE0) * 4096 + (b.toNat - 0x80) * 64 + (c.toNat - 0x80))) ::
        pieces rest := by
  rw [pieces.eq_def]
  dsimp only
  rw [if_neg (by omega), if_neg (by omega), if_neg (not_not_intro second), if_neg (by omega),
    if_neg (not_not_intro third), if_pos lead.2]

theorem pieces_four (lead : 0xF0 ≤ a.toNat ∧ a.toNat < 0xF5)
    (second : secondAllowed a.toNat b.toNat) (third : isTail c.toNat) (fourth : isTail d.toNat) :
    pieces (a :: b :: c :: d :: rest) =
      .char (Char.ofNat ((a.toNat - 0xF0) * 262144 + (b.toNat - 0x80) * 4096
        + (c.toNat - 0x80) * 64 + (d.toNat - 0x80))) :: pieces rest := by
  rw [pieces.eq_def]
  dsimp only
  rw [if_neg (by omega), if_neg (by omega), if_neg (not_not_intro second), if_neg (by omega),
    if_neg (not_not_intro third), if_neg (by omega), if_neg (not_not_intro fourth)]

theorem pieces_encodeChar (ch : Char) (rest : Bytes) :
    pieces (encodeChar ch ++ rest) = .char ch :: pieces rest := by
  have valid : ch.toNat < 0xD800 ∨ 0xDFFF < ch.toNat ∧ ch.toNat < 0x110000 := ch.valid
  have byte (m : Nat) (h : m < 256) : (UInt8.ofNat m).toNat = m := UInt8.toNat_ofNat_of_lt' h
  have same (m : Nat) (h : m = ch.toNat) : Char.ofNat m = ch := by rw [h, Char.ofNat_toNat]
  unfold encodeChar
  dsimp only
  generalize ch.toNat = n at valid same
  split
  · have only := byte n (by omega)
    rw [List.cons_append, List.nil_append, pieces_one (by omega), only, same n rfl]
  split
  · have first := byte (0xC0 + n / 64) (by omega)
    have second := byte (0x80 + n % 64) (by omega)
    simp only [List.cons_append, List.nil_append]
    rw [pieces_two (by omega) (isTail_iff.mpr (by omega)), first, second, same _ (by omega)]
  split
  · have first := byte (0xE0 + n / 4096) (by omega)
    have second := byte (0x80 + n / 64 % 64) (by omega)
    have third := byte (0x80 + n % 64) (by omega)
    simp only [List.cons_append, List.nil_append]
    rw [pieces_three (by omega)
      (secondAllowed_of (by omega) (by omega) (by omega) (by omega) (by omega))
      (isTail_iff.mpr (by omega)), first, second, third, same _ (by omega)]
  · have first := byte (0xF0 + n / 262144) (by omega)
    have second := byte (0x80 + n / 4096 % 64) (by omega)
    have third := byte (0x80 + n / 64 % 64) (by omega)
    have fourth := byte (0x80 + n % 64) (by omega)
    simp only [List.cons_append, List.nil_append]
    rw [pieces_four (by omega)
      (secondAllowed_of (by omega) (by omega) (by omega) (by omega) (by omega))
      (isTail_iff.mpr (by omega)) (isTail_iff.mpr (by omega)), first, second, third, fourth,
      same _ (by omega)]

theorem pieces_encodeChars (cs : List Char) : pieces (encodeChars cs) = cs.map .char := by
  induction cs with
  | nil => simp [encodeChars, pieces]
  | cons ch rest ih =>
    rw [encodeChars, List.flatMap_cons, pieces_encodeChar]
    exact congrArg (_ :: ·) ih

theorem collect_map_char (index : Nat) (cs : List Char) :
    collect index (cs.map .char) = .ok cs := by
  induction cs generalizing index with
  | nil => rfl
  | cons ch rest ih => rw [List.map_cons, collect, ih]; rfl

theorem decode_encode (s : String) : decode (encode s) = .ok s := by
  rw [decode, encode, pieces_encodeChars, collect_map_char]
  exact congrArg Except.ok String.ofList_toList

theorem lossy_encode (s : String) : lossy (encode s) = s := by
  rw [lossy, encode, pieces_encodeChars, List.map_map]
  have same : Piece.toChar ∘ Piece.char = id := rfl
  rw [same, List.map_id, String.ofList_toList]

theorem ascii_not_mem_encodeChar {x ch : Char} (small : x.toNat < 0x80) (other : ch ≠ x) :
    Bytes.ascii x ∉ encodeChar ch := by
  have differs : ch.toNat ≠ x.toNat := fun same =>
    other (by rw [← Char.ofNat_toNat ch, same, Char.ofNat_toNat])
  have code : (Bytes.ascii x).toNat = x.toNat :=
    UInt8.toNat_ofNat_of_lt' (Nat.lt_trans small (by decide))
  have byte {k : Nat} (ne : k ≠ x.toNat) (lt : k < 256) : Bytes.ascii x ≠ UInt8.ofNat k := by
    intro same
    have := congrArg UInt8.toNat same
    rw [code, UInt8.toNat_ofNat_of_lt' lt] at this
    exact ne this.symm
  have valid : ch.toNat < 0xD800 ∨ 0xDFFF < ch.toNat ∧ ch.toNat < 0x110000 := ch.valid
  unfold encodeChar
  dsimp only
  repeat' split
  all_goals
    simp only [List.mem_cons, List.not_mem_nil, or_false, not_or]
  · exact byte differs (by omega)
  · exact ⟨byte (by omega) (by omega), byte (by omega) (by omega)⟩
  · exact ⟨byte (by omega) (by omega), byte (by omega) (by omega), byte (by omega) (by omega)⟩
  · exact ⟨byte (by omega) (by omega), byte (by omega) (by omega), byte (by omega) (by omega),
      byte (by omega) (by omega)⟩

theorem zero_not_mem_encodeChar {ch : Char} (h : ch ≠ '\x00') :
    (0 : UInt8) ∉ encodeChar ch :=
  ascii_not_mem_encodeChar (x := '\x00') (by decide) h

theorem zero_not_mem_encode {s : String} (plain : '\x00' ∉ s.toList) :
    (0 : UInt8) ∉ encode s := by
  rw [encode, encodeChars, List.mem_flatMap]
  rintro ⟨ch, mem, zero⟩
  exact zero_not_mem_encodeChar (fun same => plain (same ▸ mem)) zero

theorem bounds_of_secondAllowed {lead second : Nat} (allowed : secondAllowed lead second) :
    (0x80 ≤ second ∧ second < 0xC0) ∧ (lead = 0xE0 → 0xA0 ≤ second) ∧
      (lead = 0xED → second < 0xA0) ∧ (lead = 0xF0 → 0x90 ≤ second) ∧
      (lead = 0xF4 → second < 0x90) := by
  unfold secondAllowed at allowed
  repeat' split at allowed
  all_goals simp only [isTail, Bool.and_eq_true, decide_eq_true_eq] at allowed
  all_goals omega

theorem toNat_ofNat {n : Nat} (valid : n.isValidChar) : (Char.ofNat n).toNat = n := by
  rw [Char.ofNat, dif_pos valid]
  rfl

theorem encodeChar_one (ascii : a.toNat < 0x80) : encodeChar (Char.ofNat a.toNat) = [a] := by
  have number : (Char.ofNat a.toNat).toNat = a.toNat := toNat_ofNat (.inl (by omega))
  unfold encodeChar
  dsimp only
  rw [number, if_pos ascii, UInt8.ofNat_toNat]

theorem ofNat_eq {n : Nat} (same : n = a.toNat) : UInt8.ofNat n = a := by
  rw [same, UInt8.ofNat_toNat]

theorem encodeChar_two (lead : 0xC2 ≤ a.toNat ∧ a.toNat < 0xE0)
    (second : secondAllowed a.toNat b.toNat) :
    encodeChar (Char.ofNat ((a.toNat - 0xC0) * 64 + (b.toNat - 0x80))) = [a, b] := by
  obtain ⟨tail, -⟩ := bounds_of_secondAllowed second
  have number := toNat_ofNat (n := (a.toNat - 0xC0) * 64 + (b.toNat - 0x80)) (.inl (by omega))
  unfold encodeChar
  dsimp only
  rw [number, if_neg (by omega), if_pos (by omega), ofNat_eq (a := a) (by omega),
    ofNat_eq (a := b) (by omega)]

theorem encodeChar_three (lead : 0xE0 ≤ a.toNat ∧ a.toNat < 0xF0)
    (second : secondAllowed a.toNat b.toNat) (third : isTail c.toNat) :
    encodeChar (Char.ofNat
      ((a.toNat - 0xE0) * 4096 + (b.toNat - 0x80) * 64 + (c.toNat - 0x80))) = [a, b, c] := by
  obtain ⟨tail, long, scalar, -⟩ := bounds_of_secondAllowed second
  have third := isTail_iff.mp third
  have number := toNat_ofNat
    (n := (a.toNat - 0xE0) * 4096 + (b.toNat - 0x80) * 64 + (c.toNat - 0x80))
    (by unfold Nat.isValidChar; omega)
  unfold encodeChar
  dsimp only
  rw [number, if_neg (by omega), if_neg (by omega), if_pos (by omega),
    ofNat_eq (a := a) (by omega), ofNat_eq (a := b) (by omega), ofNat_eq (a := c) (by omega)]

theorem encodeChar_four (lead : 0xF0 ≤ a.toNat ∧ a.toNat < 0xF5)
    (second : secondAllowed a.toNat b.toNat) (third : isTail c.toNat) (fourth : isTail d.toNat) :
    encodeChar (Char.ofNat ((a.toNat - 0xF0) * 262144 + (b.toNat - 0x80) * 4096
      + (c.toNat - 0x80) * 64 + (d.toNat - 0x80))) = [a, b, c, d] := by
  obtain ⟨tail, -, -, longer, last⟩ := bounds_of_secondAllowed second
  have third := isTail_iff.mp third
  have fourth := isTail_iff.mp fourth
  have number := toNat_ofNat (n := (a.toNat - 0xF0) * 262144 + (b.toNat - 0x80) * 4096
      + (c.toNat - 0x80) * 64 + (d.toNat - 0x80)) (by unfold Nat.isValidChar; omega)
  unfold encodeChar
  dsimp only
  rw [number, if_neg (by omega), if_neg (by omega), if_neg (by omega),
    ofNat_eq (a := a) (by omega), ofNat_eq (a := b) (by omega), ofNat_eq (a := c) (by omega),
    ofNat_eq (a := d) (by omega)]

theorem collect_char {index : Nat} {ch : Char} {ps : List Piece} {cs : List Char}
    (h : collect index (.char ch :: ps) = .ok cs) :
    ∃ others, collect (index + (encodeChar ch).length) ps = .ok others ∧ cs = ch :: others := by
  rw [collect] at h
  cases collected : collect (index + (encodeChar ch).length) ps with
  | error e =>
    rw [collected] at h
    cases h
  | ok others =>
    rw [collected] at h
    cases h
    exact ⟨others, rfl, rfl⟩

theorem encodeChars_of_collect {index : Nat} {bs : Bytes} {cs : List Char}
    (h : collect index (pieces bs) = .ok cs) : encodeChars cs = bs := by
  have step {ch : Char} {front rest : Bytes} {index : Nat} {cs : List Char}
      (ih : ∀ {index : Nat} {cs : List Char}, collect index (pieces rest) = .ok cs →
        encodeChars cs = rest) (written : encodeChar ch = front)
      (h : collect index (.char ch :: pieces rest) = .ok cs) : encodeChars cs = front ++ rest := by
    obtain ⟨others, collected, rfl⟩ := collect_char h
    rw [encodeChars, List.flatMap_cons, written]
    exact congrArg (front ++ ·) (ih collected)
  fun_induction pieces bs generalizing index cs
  case case1 =>
    cases h
    rfl
  case case2 a rest lead ascii ih => exact step @ih (encodeChar_one ascii) h
  case case6 a lead notAscii known b rest allowed short ih =>
    have second : secondAllowed a.toNat b.toNat := Decidable.not_not.mp allowed
    exact step @ih (encodeChar_two ⟨by omega, short⟩ second) h
  case case9 a lead notAscii known b allowed long c rest tail short ih =>
    have second : secondAllowed a.toNat b.toNat := Decidable.not_not.mp allowed
    have third : isTail c.toNat := Decidable.not_not.mp tail
    exact step @ih (encodeChar_three ⟨by omega, short⟩ second third) h
  case case12 a lead notAscii known b allowed long c tail longer d rest last ih =>
    have second : secondAllowed a.toNat b.toNat := Decidable.not_not.mp allowed
    have third : isTail c.toNat := Decidable.not_not.mp tail
    have fourth : isTail d.toNat := Decidable.not_not.mp last
    exact step @ih (encodeChar_four ⟨by omega, by omega⟩ second third fourth) h
  -- Every other piece is malformed, and `collect` stops there.
  all_goals cases h

theorem decode_eq_ok_iff {bs : Bytes} {s : String} : decode bs = .ok s ↔ encode s = bs := by
  constructor
  · intro read
    rw [decode] at read
    cases collected : collect 0 (pieces bs) with
    | error e =>
      rw [collected] at read
      cases read
    | ok cs =>
      rw [collected] at read
      cases read
      rw [encode, String.toList_ofList]
      exact encodeChars_of_collect collected
  · rintro rfl
    exact decode_encode s

theorem encodeChars_cons (ch : Char) (cs : List Char) :
    encodeChars (ch :: cs) = encodeChar ch ++ encodeChars cs := rfl

theorem encodeChar_ascii {ch : Char} (small : ch.toNat < 0x80) :
    encodeChar ch = [Bytes.ascii ch] := if_pos small

theorem encodeChars_eq_cons {ch : Char} {cs : List Char} (small : ch.toNat < 0x80)
    (same : Bytes.ascii ch :: rest = encodeChars cs) :
    ∃ others, cs = ch :: others ∧ rest = encodeChars others := by
  have code : (Bytes.ascii ch).toNat = ch.toNat :=
    UInt8.toNat_ofNat_of_lt' (Nat.lt_trans small (by decide))
  have one : pieces (Bytes.ascii ch :: rest) = .char ch :: pieces rest := by
    rw [pieces_one (by omega), code, Char.ofNat_toNat]
  cases cs with
  | nil => cases same
  | cons c others =>
    have read := congrArg pieces same
    rw [one, encodeChars_cons, pieces_encodeChar] at read
    injection read with head _
    injection head with head
    subst head
    rw [encodeChars_cons, encodeChar_ascii small, List.singleton_append] at same
    injection same with _ same
    exact ⟨others, rfl, same⟩

theorem zero_not_mem_encode_iff {s : String} : (0 : UInt8) ∉ encode s ↔ '\x00' ∉ s.toList := by
  refine ⟨fun plain nul => plain ?_, zero_not_mem_encode⟩
  rw [encode, encodeChars, List.mem_flatMap]
  exact ⟨_, nul, by decide⟩

end PgPipeline.Utf8
