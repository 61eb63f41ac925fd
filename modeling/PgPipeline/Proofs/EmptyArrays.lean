import PgPipeline.Proofs.ArrayShape

/-!
Arrays with a dimension of length zero.

Lengths are multiplied from left to right, and the product has to fit 64 bits on the way, so a zero
makes an array empty only if it is met in time (`ArrayHeader.total_of_void`). The same dimensions
are read as the empty array in every order exactly if the product of all lengths but zero fits
(`Value.ofBinary_void_eq`).
-/

namespace PgPipeline

def Dimension.isOccupied (d : Dimension) : Bool := d.length != 0

namespace ArrayHeader

variable {lengths : List Nat} {start n : Nat} {dims others : List Dimension}

theorem foldlM_times?_lt (below : start < 2 ^ 64)
    (counted : lengths.foldlM times? start = some n) : n < 2 ^ 64 := by
  induction lengths generalizing start with
  | nil =>
    cases counted
    exact below
  | cons length lengths ih =>
    rw [List.foldlM_cons, times?] at counted
    split at counted
    · next fits => exact ih fits counted
    · cases counted

theorem product?_of_positive (positive : ∀ d ∈ lengths, 0 < d) :
    product? lengths = if lengths.prod < 2 ^ 64 then some lengths.prod else none := by
  split
  · next fits =>
    have product := product?_eq_prod positive (by rwa [Nat.one_mul])
    rwa [Nat.one_mul] at product
  · next large =>
    cases counted : product? lengths with
    | none => rfl
    | some n =>
      have all := eq_prod_of_product? counted
      rw [Nat.one_mul] at all
      exact absurd (all ▸ foldlM_times?_lt (by decide) counted) large

theorem foldlM_times?_zero (lengths : List Nat) : lengths.foldlM times? 0 = some 0 := by
  induction lengths with
  | nil => rfl
  | cons length lengths ih =>
    rw [List.foldlM_cons, times?, Nat.zero_mul]
    exact ih

theorem product?_append_zero (front behind : List Nat) :
    product? (front ++ 0 :: behind) = (product? front).map fun _ => 0 := by
  rw [product?_eq, List.foldlM_append, ← product?_eq]
  cases product? front with
  | none => rfl
  | some n =>
    rw [Option.bind_eq_bind, Option.bind_some, List.foldlM_cons, times?, Nat.mul_zero]
    exact foldlM_times?_zero behind

theorem exists_void (void : ∃ d ∈ dims, d.length = 0) : ∃ behind,
    dims.map Dimension.length =
      (dims.takeWhile Dimension.isOccupied).map Dimension.length ++ 0 :: behind := by
  induction dims with
  | nil =>
    obtain ⟨d, mem, -⟩ := void
    cases mem
  | cons d dims ih =>
    rw [List.takeWhile_cons]
    by_cases zero : d.length = 0
    · exact ⟨dims.map Dimension.length, by simp [Dimension.isOccupied, zero]⟩
    · obtain ⟨behind, same⟩ := ih (by simpa [zero] using void)
      exact ⟨behind, by simp [Dimension.isOccupied, zero, same]⟩

theorem pos_of_occupied (occupied : ∀ d ∈ dims, d.isOccupied = true) :
    ∀ n ∈ dims.map Dimension.length, 0 < n := by
  rw [List.forall_mem_map]
  intro d mem
  have nonzero : d.length ≠ 0 := by simpa [Dimension.isOccupied] using occupied d mem
  exact Nat.pos_of_ne_zero nonzero

/-- What stands behind the first zero is not looked at. -/
theorem total_of_void (element : Oid) (body : Bytes) (void : ∃ d ∈ dims, d.length = 0) :
    total ⟨element, dims.map Dimension.length, body⟩ =
      if memberCount (dims.takeWhile Dimension.isOccupied) < 2 ^ 64 then .ok 0
      else .error (.tooManyElements (dims.map Dimension.length) body.length) := by
  obtain ⟨behind, same⟩ := exists_void void
  have occupied : ∀ d ∈ dims.takeWhile Dimension.isOccupied, d.isOccupied = true :=
    List.all_eq_true.mp List.all_takeWhile
  have product : product? (dims.map Dimension.length) =
      if memberCount (dims.takeWhile Dimension.isOccupied) < 2 ^ 64 then some 0 else none := by
    rw [same, product?_append_zero, product?_of_positive (pos_of_occupied occupied), ← memberCount]
    split <;> rfl
  rw [total]
  by_cases fits : memberCount (dims.takeWhile Dimension.isOccupied) < 2 ^ 64
  · rw [if_pos fits] at product ⊢
    simp [product]
  · rw [if_neg fits] at product ⊢
    simp [product]

theorem memberCount_pos (occupied : ∀ d ∈ dims, d.isOccupied = true) : 0 < memberCount dims :=
  List.prod_pos (pos_of_occupied occupied)

theorem memberCount_perm (same : others.Perm dims) : memberCount others = memberCount dims :=
  (same.map Dimension.length).prod_eq

theorem takeWhile_zerosLast (dims : List Dimension) :
    (dims.filter Dimension.isOccupied ++ dims.filter (!·.isOccupied)).takeWhile
      Dimension.isOccupied = dims.filter Dimension.isOccupied := by
  rw [List.takeWhile_append_of_pos fun d mem => (List.mem_filter.mp mem).2]
  cases zeros : dims.filter (!·.isOccupied) with
  | nil => rw [List.takeWhile_nil, List.append_nil]
  | cons d rest =>
    have mem : d ∈ dims.filter (!·.isOccupied) := zeros ▸ List.mem_cons_self
    have zero := (List.mem_filter.mp mem).2
    rw [List.takeWhile_cons_of_neg (by simpa using zero), List.append_nil]

/-- In no order do the dimensions in front of the first zero ask for more than all others but
zeros. -/
theorem memberCount_takeWhile_le (dims : List Dimension) :
    memberCount (dims.takeWhile Dimension.isOccupied) ≤
      memberCount (dims.filter Dimension.isOccupied) := by
  have occupied : ∀ d ∈ dims.takeWhile Dimension.isOccupied, d.isOccupied = true :=
    List.all_eq_true.mp List.all_takeWhile
  have rest : 0 < memberCount ((dims.dropWhile Dimension.isOccupied).filter Dimension.isOccupied) :=
    memberCount_pos fun d mem => (List.mem_filter.mp mem).2
  have split_ : dims.filter Dimension.isOccupied = dims.takeWhile Dimension.isOccupied ++
      (dims.dropWhile Dimension.isOccupied).filter Dimension.isOccupied := by
    conv_lhs => rw [← List.takeWhile_append_dropWhile (p := Dimension.isOccupied) (l := dims)]
    rw [List.filter_append, List.filter_eq_self.mpr occupied]
  rw [split_, memberCount, memberCount, List.map_append, List.prod_append]
  exact Nat.le_mul_of_pos_right _ rest

end ArrayHeader

namespace Value

open ArrayHeader (Announces AreWords memberCount)

variable {oid element : Oid} {data body : Bytes} {dims : List Dimension}

theorem ofBinary_of_void (layout : oid.layout = .array)
    (announced : Announces data element dims body) (few : dims.length ≤ 6)
    (void : ∃ d ∈ dims, d.length = 0) :
    ofBinary oid data =
      if memberCount (dims.takeWhile Dimension.isOccupied) < 2 ^ 64 then .ok (array element [])
      else .error (.tooManyElements (dims.map Dimension.length) body.length) := by
  rw [ofBinary_of_announces layout announced, if_neg (by omega), ArrayHeader.total_of_void _ _ void]
  split <;> rfl

/-- An array with a dimension of length zero is read as empty unless the dimensions in front of the
first zero ask for more members than 64 bits can count. All orders of the dimensions are read so if
and only if all dimensions but those of length zero ask for no more. -/
theorem ofBinary_void_eq (layout : oid.layout = .array)
    (announced : Announces data element dims body) (few : dims.length ≤ 6)
    (void : ∃ d ∈ dims, d.length = 0) :
    (ofBinary oid data =
      if memberCount (dims.takeWhile Dimension.isOccupied) < 2 ^ 64 then .ok (array element [])
      else .error (.tooManyElements (dims.map Dimension.length) body.length)) ∧
    ((∀ others sent behind, others.Perm dims → Announces sent element others behind →
        ofBinary oid sent = .ok (array element [])) ↔
      memberCount (dims.filter Dimension.isOccupied) < 2 ^ 64) := by
  have within {others : List Dimension} (same : others.Perm dims) : ∃ d ∈ others, d.length = 0 := by
    obtain ⟨d, mem, zero⟩ := void
    exact ⟨d, same.mem_iff.mpr mem, zero⟩
  refine ⟨ofBinary_of_void layout announced few void, ?_, ?_⟩
  · -- The order with all zeros at the end is the hardest.
    intro every
    by_contra large
    obtain ⟨flag, four, words, some, many, -⟩ := announced
    have same := List.filter_append_perm Dimension.isOccupied dims
    have front := ArrayHeader.takeWhile_zerosLast dims
    generalize dims.filter Dimension.isOccupied ++ dims.filter (!·.isOccupied) = others
      at same front
    have announced : Announces (ArrayHeader.bytes flag element others ++ []) element others [] :=
      ⟨flag, four, fun d mem => words d (same.mem_iff.mp mem), same.length_eq ▸ some,
        same.length_eq ▸ many, rfl⟩
    have read := every others _ _ same announced
    rw [ofBinary_of_void layout announced (same.length_eq ▸ few) (within same), front,
      if_neg large] at read
    cases read
  · intro fits others sent behind same announced
    have front := ArrayHeader.memberCount_takeWhile_le others
    rw [ArrayHeader.memberCount_perm (same.filter _)] at front
    rw [ofBinary_of_void layout announced (same.length_eq ▸ few) (within same),
      if_pos (Nat.lt_of_le_of_lt front fits)]

theorem ofBinary_void_eq_late :
    let dims : List Dimension := [⟨2147483647, 1⟩, ⟨2147483647, 1⟩, ⟨0, 1⟩, ⟨2147483647, -5⟩]
    let data := arrayBytes .int4 dims []
    Oid.int4Array.layout = .array ∧ (∃ d ∈ dims, d.length = 0) ∧
      ofBinary .int4Array data = .ok (array .int4 []) ∧
      ¬ ∀ others sent behind, others.Perm dims → Announces sent .int4 others behind →
        ofBinary .int4Array sent = .ok (array .int4 []) := by
  intro dims data
  have layout : Oid.int4Array.layout = .array := rfl
  have void : ∃ d ∈ dims, d.length = 0 := by decide
  have announced : Announces data .int4 dims [] :=
    ⟨_, Bytes.length_bigEndian 4 0, by simp [dims, AreWords], by decide, by decide, rfl⟩
  obtain ⟨read, every⟩ := ofBinary_void_eq layout announced (by decide) void
  have large : ¬ memberCount (dims.filter Dimension.isOccupied) < 2 ^ 64 := by decide
  exact ⟨layout, void, read.trans (if_pos (by decide)), mt every.mp large⟩

/-- An array without members, as one of its dimensions is zero: it is refused if that is the last
one, and read if it is the first. -/
theorem ofBinary_refuses_empty_array :
    let long : Dimension := ⟨2147483647, 1⟩
    ofBinary .int4Array (arrayBytes .int4 [long, long, long, ⟨0, 1⟩] []) =
        .error (.tooManyElements [2147483647, 2147483647, 2147483647, 0] 0) ∧
      ofBinary .int4Array (arrayBytes .int4 [⟨0, 1⟩, long, long, long] []) =
        .ok (array .int4 []) := by
  intro long
  have layout : Oid.int4Array.layout = .array := rfl
  have announced (dims : List Dimension) (words : AreWords dims) (four : dims.length = 4) :
      Announces (arrayBytes .int4 dims []) .int4 dims [] :=
    ⟨_, Bytes.length_bigEndian 4 0, words, by omega, by omega, rfl⟩
  constructor
  · refine (ofBinary_of_void layout (announced _ ?_ rfl) (by decide) (by decide)).trans ?_
    · simp [AreWords, long]
    · exact if_neg (by decide)
  · refine (ofBinary_of_void layout (announced _ ?_ rfl) (by decide) (by decide)).trans ?_
    · simp [AreWords, long]
    · exact if_pos (by decide)

end Value

end PgPipeline
