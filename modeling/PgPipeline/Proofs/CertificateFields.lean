import PgPipeline.Tls.Certificate

namespace PgPipeline.Certificate

variable {n : Nat} {tag : UInt8} {input octets contents field rest identifier : Bytes}

/-- The octets that say how long a field is: a length below 128 by itself, or any length in one to
four bytes behind their count. -/
inductive LengthOctets : Nat → Bytes → Prop
  | short {n : Nat} (small : n < 128) : LengthOctets n [UInt8.ofNat n]
  | long {n : Nat} (bs : Bytes) (some : bs ≠ []) (few : bs.length ≤ 4)
    (value : Bytes.toNat bs = n) : LengthOctets n (UInt8.ofNat (128 + bs.length) :: bs)

theorem readLength?_append (written : LengthOctets n octets) (rest : Bytes) :
    readLength? (octets ++ rest) = some (n, rest) := by
  cases written with
  | short small =>
    have first : (UInt8.ofNat n).toNat = n :=
      UInt8.toNat_ofNat_of_lt (Nat.lt_trans small (by decide))
    simp [readLength?, first, small]
  | long bs some few value =>
    have positive : bs.length ≠ 0 := mt List.length_eq_zero_iff.mp some
    have first : (UInt8.ofNat (128 + bs.length)).toNat = 128 + bs.length :=
      UInt8.toNat_ofNat_of_lt (show 128 + bs.length < 256 by omega)
    have fits : ¬ (bs.length = 0 ∨ 4 < bs.length ∨ (bs ++ rest).length < bs.length) := by
      simp only [List.length_append]
      omega
    simp only [List.cons_append, readLength?, first, Nat.add_sub_cancel_left]
    rw [if_neg (by omega), if_neg fits, List.take_left, List.drop_left, value]

theorem octets_of_readLength? (read : readLength? input = some (n, rest)) :
    ∃ octets, LengthOctets n octets ∧ input = octets ++ rest := by
  cases input with
  | nil => cases read
  | cons first input =>
    have byte : UInt8.ofNat first.toNat = first := UInt8.ofNat_toNat
    simp only [readLength?] at read
    split at read
    · next small =>
      cases read
      exact ⟨_, .short small, by rw [byte]; rfl⟩
    split at read
    · cases read
    next large fits =>
    simp only [Option.some.injEq, Prod.mk.injEq] at read
    obtain ⟨rfl, rfl⟩ := read
    have whole : (input.take (first.toNat - 128)).length = first.toNat - 128 := by
      rw [List.length_take]
      omega
    have count : UInt8.ofNat (128 + (input.take (first.toNat - 128)).length) = first := by
      rw [whole, Nat.add_sub_cancel' (by omega), byte]
    refine ⟨_, .long _ ?_ (by omega) rfl, ?_⟩
    · exact List.ne_nil_of_length_pos (by omega)
    · rw [count, List.cons_append, List.take_append_drop]

def Encodes (tag : UInt8) (contents field : Bytes) : Prop :=
  ∃ octets, LengthOctets contents.length octets ∧ field = tag :: (octets ++ contents)

theorem readField?_eq_some_iff : readField? input = some ⟨tag, contents, rest⟩ ↔
    ∃ field, Encodes tag contents field ∧ input = field ++ rest := by
  cases input with
  | nil =>
    refine iff_of_false nofun ?_
    rintro ⟨_, ⟨octets, -, rfl⟩, same⟩
    cases same
  | cons first input =>
    constructor
    · intro read
      rw [readField?] at read
      split at read
      · cases read
      next n body length =>
      obtain ⟨octets, written, rfl⟩ := octets_of_readLength? length
      obtain ⟨enough, read⟩ := Option.ite_none_left_eq_some.mp read
      cases read
      have cut : (body.take n).length = n := List.length_take_of_le (by omega)
      exact ⟨_, ⟨octets, cut.symm ▸ written, rfl⟩, by simp⟩
    · rintro ⟨_, ⟨octets, written, rfl⟩, same⟩
      rw [List.cons_append, List.append_assoc] at same
      cases same
      simp [readField?, readLength?_append written]

theorem readField?_append (encoded : Encodes tag contents field) (rest : Bytes) :
    readField? (field ++ rest) = some ⟨tag, contents, rest⟩ :=
  readField?_eq_some_iff.mpr ⟨field, encoded, rfl⟩

/-- A certificate that names the algorithm of its signature: a body, the name of the algorithm with
its parameters, and the signature. More may follow, inside and behind it. -/
inductive IsSignedBy (identifier : Bytes) : Bytes → Prop
  | mk {bodyTag signatureTag : UInt8}
    {body bodyField name parameters algorithm signature signatureField more certificate : Bytes}
    (first : Encodes bodyTag body bodyField)
    (named : Encodes identifierTag identifier name)
    (second : Encodes sequenceTag (name ++ parameters) algorithm)
    (third : Encodes signatureTag signature signatureField)
    (whole : Encodes sequenceTag (bodyField ++ algorithm ++ signatureField ++ more) certificate)
    (trailing : Bytes) : IsSignedBy identifier (certificate ++ trailing)

theorem signatureAlgorithm?_of_isSignedBy (signed : IsSignedBy identifier input) :
    signatureAlgorithm? input = some identifier := by
  cases signed with
  | mk first named second third whole trailing =>
    simp only [signatureAlgorithm?, readField?_append whole, List.append_assoc,
      readField?_append first, readField?_append second, readField?_append named,
      Option.bind_eq_bind, Option.bind_some]
    rfl

theorem length_sha384 (message : Bytes) : (Digest.sha384 message).length = 48 := by
  simp [Digest.sha384, Digest.Chain.toList]

theorem length_sha512 (message : Bytes) : (Digest.sha512 message).length = 64 := by
  simp [Digest.sha512, Digest.Chain.toList]

theorem digests_differ (message : Bytes) : Digest.sha256 message ≠ Digest.sha384 message ∧
    Digest.sha256 message ≠ Digest.sha512 message ∧
    Digest.sha384 message ≠ Digest.sha512 message := by
  have differ {one other : Bytes} (lengths : one.length ≠ other.length) : one ≠ other :=
    fun same => lengths (congrArg List.length same)
  refine ⟨differ ?_, differ ?_, differ ?_⟩ <;> simp [length_sha384, length_sha512]

theorem not_mem_algorithms512 (listed : identifier ∈ algorithms384) :
    identifier ∉ algorithms512 := by
  revert identifier
  decide

theorem endPointDigest_eq (signed : IsSignedBy identifier input) :
    endPointDigest input =
      if identifier ∈ algorithms384 then Digest.sha384 input
      else if identifier ∈ algorithms512 then Digest.sha512 input
      else Digest.sha256 input := by
  rw [endPointDigest, signatureAlgorithm?_of_isSignedBy signed]

theorem endPointDigest_eq_iff (signed : IsSignedBy identifier input) :
    (endPointDigest input = Digest.sha384 input ↔ identifier ∈ algorithms384) ∧
    (endPointDigest input = Digest.sha512 input ↔ identifier ∈ algorithms512) ∧
    (endPointDigest input = Digest.sha256 input ↔
      identifier ∉ algorithms384 ∧ identifier ∉ algorithms512) := by
  obtain ⟨weak, weakest, strong⟩ := digests_differ input
  rw [endPointDigest_eq signed]
  by_cases first : identifier ∈ algorithms384
  · simp [first, not_mem_algorithms512 first, Ne.symm weak, strong]
  · by_cases second : identifier ∈ algorithms512
    · simp [first, second, Ne.symm weakest, Ne.symm strong]
    · simp [first, second, weak, weakest]

/-- The algorithm that a certificate is signed with is found whatever the fields hold and however
their lengths are written, and it alone decides on the digest. What is read as a field, of any bytes
at all, is what these bytes begin with. -/
theorem endPointDigest_follows_signature :
    (∀ identifier certificate, IsSignedBy identifier certificate →
      signatureAlgorithm? certificate = some identifier ∧
      (endPointDigest certificate = Digest.sha384 certificate ↔ identifier ∈ algorithms384) ∧
      (endPointDigest certificate = Digest.sha512 certificate ↔ identifier ∈ algorithms512) ∧
      (endPointDigest certificate = Digest.sha256 certificate ↔
        identifier ∉ algorithms384 ∧ identifier ∉ algorithms512)) ∧
    ∀ (input : Bytes) (tag : UInt8) (contents rest : Bytes),
      readField? input = some ⟨tag, contents, rest⟩ ↔
        ∃ octets, LengthOctets contents.length octets ∧
          input = tag :: (octets ++ contents ++ rest) := by
  refine ⟨fun identifier certificate signed => ?_, fun input tag contents rest => ?_⟩
  · exact ⟨signatureAlgorithm?_of_isSignedBy signed, endPointDigest_eq_iff signed⟩
  · rw [readField?_eq_some_iff]
    constructor
    · rintro ⟨_, ⟨octets, written, rfl⟩, rfl⟩
      exact ⟨octets, written, rfl⟩
    · rintro ⟨octets, written, rfl⟩
      exact ⟨_, ⟨octets, written, rfl⟩, rfl⟩

def mixedForms : Bytes :=
  [0x30, 0x84, 0x00, 0x00, 0x00, 0x18,
    0xA0, 0x81, 0x03, 0x02, 0x01, 0x01,
    0x30, 0x0C, 0x06, 0x08, 0x2A, 0x86, 0x48, 0xCE, 0x3D, 0x04, 0x03, 0x04, 0x05, 0x00,
    0x03, 0x82, 0x00, 0x00] ++ [0xFF]

theorem endPointDigest_follows_signature_mixedForms :
    IsSignedBy [0x2A, 0x86, 0x48, 0xCE, 0x3D, 0x04, 0x03, 0x04] mixedForms ∧
    endPointDigest mixedForms = Digest.sha512 mixedForms := by
  let name : Bytes := [0x06, 0x08, 0x2A, 0x86, 0x48, 0xCE, 0x3D, 0x04, 0x03, 0x04]
  let algorithm : Bytes := [0x30, 0x0C] ++ name ++ [0x05, 0x00]
  have first : Encodes 0xA0 [0x02, 0x01, 0x01] [0xA0, 0x81, 0x03, 0x02, 0x01, 0x01] :=
    ⟨[0x81, 0x03], .long [0x03] nofun (by decide) rfl, rfl⟩
  have named : Encodes identifierTag [0x2A, 0x86, 0x48, 0xCE, 0x3D, 0x04, 0x03, 0x04] name :=
    ⟨[0x08], .short (by decide), rfl⟩
  have second : Encodes sequenceTag (name ++ [0x05, 0x00]) algorithm :=
    ⟨[0x0C], .short (by decide), rfl⟩
  have third : Encodes 0x03 [] [0x03, 0x82, 0x00, 0x00] :=
    ⟨[0x82, 0x00, 0x00], .long [0x00, 0x00] nofun (by decide) rfl, rfl⟩
  have whole : Encodes sequenceTag
      ([0xA0, 0x81, 0x03, 0x02, 0x01, 0x01] ++ algorithm ++ [0x03, 0x82, 0x00, 0x00] ++ [])
      (mixedForms.take 30) :=
    ⟨[0x84, 0x00, 0x00, 0x00, 0x18], .long [0x00, 0x00, 0x00, 0x18] nofun (by decide) (by decide),
      rfl⟩
  have signed : IsSignedBy [0x2A, 0x86, 0x48, 0xCE, 0x3D, 0x04, 0x03, 0x04] mixedForms :=
    .mk first named second third whole [0xFF]
  exact ⟨signed, ((endPointDigest_follows_signature.1 _ _ signed).2.2.1).mpr (by decide)⟩

end PgPipeline.Certificate
