import PgPipeline.Proofs.Checked
import PgPipeline.Proofs.Framing
import PgPipeline.Value.Writer
import Mathlib.Algebra.BigOperators.Group.List.Basic
import Mathlib.Algebra.Order.BigOperators.GroupWithZero.List
import Mathlib.Algebra.Order.Ring.Nat

/-!
Arrays in the binary format.

A byte string that is read as an array announces its dimensions (`ArrayHeader.Announces`), and holds
behind them the members that are read (`ArrayElements.Holds`). Grouping these by the dimensions
keeps all of them in their order (`Value.nest_shape`).
-/

namespace PgPipeline

open List (Forall₂)

namespace Value

variable {element : Oid} {dims : List Nat} {flat : List Value}

/-- As many levels of arrays of one type as there are dimensions, each as long as its dimension. -/
def HasShape (element : Oid) : List Nat → Value → Prop
  | [], _ => True
  | d :: dims, v => ∃ values, v = array element values ∧ values.length = d ∧
    ∀ member ∈ values, HasShape element dims member

def leaves : Nat → Value → List Value
  | 0, v => [v]
  | n + 1, array _ values => values.flatMap (leaves n)
  | _ + 1, _ => []

theorem length_chunks (size count : Nat) (flat : List Value) :
    (chunks size count flat).length = count := by
  induction count generalizing flat with
  | zero => rfl
  | succ count ih => rw [chunks, List.length_cons, ih]

theorem flatten_chunks {size count : Nat} (all : flat.length = count * size) :
    (chunks size count flat).flatten = flat := by
  induction count generalizing flat with
  | zero =>
    rw [Nat.zero_mul, List.length_eq_zero_iff] at all
    rw [all]
    rfl
  | succ count ih =>
    have rest : (flat.drop size).length = count * size := by
      rw [List.length_drop, all, Nat.succ_mul, Nat.add_sub_cancel]
    rw [chunks, List.flatten_cons, ih rest, List.take_append_drop]

theorem length_of_mem_chunks {size count : Nat} (all : flat.length = count * size) :
    ∀ chunk ∈ chunks size count flat, chunk.length = size := by
  induction count generalizing flat with
  | zero => exact nofun
  | succ count ih =>
    have rest : (flat.drop size).length = count * size := by
      rw [List.length_drop, all, Nat.succ_mul, Nat.add_sub_cancel]
    have first : (flat.take size).length = size := by
      rw [List.length_take, all, Nat.succ_mul]
      omega
    rw [chunks]
    exact List.forall_mem_cons.mpr ⟨first, ih rest⟩

theorem nest_shape (element : Oid) (nonempty : dims ≠ []) (all : flat.length = dims.prod) :
    HasShape element dims (nest element dims flat) ∧
      leaves dims.length (nest element dims flat) = flat := by
  induction dims generalizing flat with
  | nil => exact absurd rfl nonempty
  | cons d inner ih =>
    cases inner with
    | nil =>
      rw [List.prod_singleton] at all
      refine ⟨⟨flat, rfl, all, fun _ _ => trivial⟩, ?_⟩
      exact List.flatMap_singleton' flat
    | cons e inner =>
      -- Only the first of several dimensions is used up at this level.
      generalize more : e :: inner = dims at ih all
      have nonempty : dims ≠ [] := by simp [← more]
      have grouped : nest element (d :: dims) flat =
          array element ((chunks dims.prod d flat).map (nest element dims)) := by
        rw [← more]
        rfl
      rw [List.prod_cons] at all
      have each := fun chunk mem => ih nonempty (length_of_mem_chunks all chunk mem)
      rw [grouped]
      refine ⟨⟨_, rfl, by rw [List.length_map, length_chunks], ?_⟩, ?_⟩
      · intro member mem
        obtain ⟨chunk, listed, rfl⟩ := List.mem_map.mp mem
        exact (each chunk listed).1
      · have back : (chunks dims.prod d flat).flatMap
            (fun chunk => leaves dims.length (nest element dims chunk)) =
              (chunks dims.prod d flat).flatMap id :=
          List.flatMap_congr fun chunk mem => (each chunk mem).2
        rw [List.length_cons, leaves, List.flatMap_map, back, List.flatMap_id, flatten_chunks all]

end Value

theorem takeBytes_ok {n : Nat} {data front rest : Bytes}
    (taken : takeBytes n data = .ok (front, rest)) : front.length = n ∧ data = front ++ rest := by
  obtain ⟨enough, rfl, rfl⟩ := ArrayElements.takeBytes_eq_ok taken
  exact ⟨List.length_take_of_le enough, (List.take_append_drop n data).symm⟩

theorem takeInt32_ok {data rest : Bytes} {v : Int32} (taken : takeInt32 data = .ok (v, rest)) :
    data = Bytes.int32 v ++ rest := by
  obtain ⟨four, rfl, rfl⟩ := ArrayElements.takeInt32_eq_ok taken
  rw [Bytes.int32_toInt32 (List.length_take_of_le four), List.take_append_drop]

theorem Bytes.int32_of_nonneg {v : Int32} (nonneg : ¬ v < 0) :
    int32 v = bigEndian 4 v.toInt.toNat ∧ v.toInt.toNat < 2 ^ 31 := by
  have above : 0 ≤ v.toInt := by
    rwa [Int32.lt_iff_toInt_lt, Int32.toInt_zero, Int.not_lt] at nonneg
  exact bigEndian_toInt32 (length_int32 v) (by rw [toInt32_int32, Int.toNat_of_nonneg above])

namespace ArrayElements

variable {member : Option Bytes} {members : List (Option Bytes)} {piece rest body : Bytes}
  {pieces : List Bytes}

/-- How a member may be sent: any length below zero stands for an absent one. -/
inductive Sent : Option Bytes → Bytes → Prop
  | absent {length : Int32} (below : length < 0) : Sent none (Bytes.int32 length)
  | present {data : Bytes} (small : data.length < 2 ^ 31) :
    Sent (some data) (Bytes.bigEndian 4 data.length ++ data)

theorem Sent.sized (small : ∀ data, member = some data → data.length < 2 ^ 31) :
    Sent member (Wire.sized member) := by
  cases member with
  | none => exact .absent (by decide)
  | some data => exact .present (small data rfl)

theorem Sent.length_le (sent : Sent member piece) : 4 ≤ piece.length := by
  cases sent with
  | absent => exact Nat.le_of_eq (Bytes.length_int32 _).symm
  | present => simp

def Holds (members : List (Option Bytes)) (body : Bytes) : Prop :=
  ∃ pieces rest, Forall₂ Sent members pieces ∧ body = pieces.flatten ++ rest

theorem holds_sized (small : ∀ data, some data ∈ members → data.length < 2 ^ 31) :
    Holds members (members.flatMap Wire.sized) := by
  refine ⟨members.map Wire.sized, [], ?_, by rw [List.append_nil, List.flatMap_def]⟩
  rw [List.forall₂_map_right_iff, List.forall₂_same]
  intro member mem
  exact .sized fun data same => small data (same ▸ mem)

theorem Holds.length_le (holds : Holds members body) : 4 * members.length ≤ body.length := by
  obtain ⟨pieces, rest, sent, rfl⟩ := holds
  induction sent with
  | nil => simp
  | cons first _ ih =>
    have four := first.length_le
    simp only [List.length_cons, List.flatten_cons, List.length_append] at ih ⊢
    omega

theorem split_absent {length : Int32} (taken : takeInt32 body = .ok (length, rest))
    (below : length < 0) (n : Nat) :
    split (n + 1) body = ⟨none :: (split n rest).slices, (split n rest).fault⟩ := by
  rw [split, taken]
  exact if_pos below

theorem split_present {length : Int32} {data behind : Bytes}
    (taken : takeInt32 body = .ok (length, rest)) (nonneg : ¬ length < 0)
    (cut : takeBytes length.toInt.toNat rest = .ok (data, behind)) (n : Nat) :
    split (n + 1) body = ⟨some data :: (split n behind).slices, (split n behind).fault⟩ := by
  rw [split, taken]
  dsimp only
  rw [if_neg nonneg, cut]

theorem split_of_sent (sent : Sent member piece) (n : Nat) (rest : Bytes) :
    split (n + 1) (piece ++ rest) =
      ⟨member :: (split n rest).slices, (split n rest).fault⟩ := by
  cases sent with
  | @absent length below =>
    have taken := takeInt32_append (Bytes.length_int32 length) rest
    rw [Bytes.toInt32_int32] at taken
    exact split_absent taken below n
  | @present data small =>
    have word := Bytes.toInt32_bigEndian small
    have nonneg := Bytes.not_toInt32_neg small
    have taken := takeInt32_append (Bytes.length_bigEndian 4 data.length) (data ++ rest)
    rw [← List.append_assoc] at taken
    exact split_present taken nonneg (takeBytes_append (by rw [word, Int.toNat_natCast]) rest) n

theorem split_of_holds (holds : Holds members body) :
    split members.length body = ⟨members, none⟩ := by
  obtain ⟨pieces, rest, sent, rfl⟩ := holds
  induction sent with
  | nil => rfl
  | cons first _ ih =>
    rw [List.flatten_cons, List.append_assoc, List.length_cons, split_of_sent first, ih]

theorem holds_of_split {n : Nat} (complete : (split n body).fault = none) :
    Holds (split n body).slices body ∧ (split n body).slices.length = n := by
  induction n generalizing body with
  | zero => exact ⟨⟨[], body, .nil, rfl⟩, rfl⟩
  | succ n ih =>
    unfold split at complete ⊢
    split at complete
    · cases complete
    next length rest taken =>
    have first := takeInt32_ok taken
    split at complete
    · next below =>
      obtain ⟨⟨pieces, behind, sent, others⟩, count⟩ := ih complete
      rw [if_pos below]
      refine ⟨⟨_ :: pieces, behind, .cons (.absent below) sent, ?_⟩, by rw [List.length_cons, count]⟩
      rw [first, others, List.flatten_cons, List.append_assoc]
    · next nonneg =>
      split at complete
      · cases complete
      next data rest' cut =>
      obtain ⟨size, second⟩ := takeBytes_ok cut
      obtain ⟨word, small⟩ := Bytes.int32_of_nonneg nonneg
      obtain ⟨⟨pieces, behind, sent, others⟩, count⟩ := ih complete
      rw [← size] at word small
      rw [if_neg nonneg]
      refine ⟨⟨_ :: pieces, behind, .cons (.present small) sent, ?_⟩,
        by rw [List.length_cons, count]⟩
      rw [first, word, second, others, List.flatten_cons]
      simp only [List.append_assoc]

end ArrayElements

namespace ArrayHeader

variable {element : Oid} {dims : List Dimension} {flag body data : Bytes}

/-- The header as it is sent: the number of dimensions, the flag for absent members, the type of the
members, and each dimension. -/
def bytes (flag : Bytes) (element : Oid) (dims : List Dimension) : Bytes :=
  Bytes.bigEndian 4 dims.length ++ flag ++ Bytes.int32 element.number ++
    dims.flatMap Dimension.bytes

def AreWords (dims : List Dimension) : Prop := ∀ d ∈ dims, d.length < 2 ^ 31

def memberCount (dims : List Dimension) : Nat := (dims.map Dimension.length).prod

/-- A byte string says that there are dimensions; this stands behind them. The flag for absent
members can be anything. -/
def Announces (data : Bytes) (element : Oid) (dims : List Dimension) (body : Bytes) : Prop :=
  ∃ flag, flag.length = 4 ∧ AreWords dims ∧ 0 < dims.length ∧ dims.length < 2 ^ 31 ∧
    data = bytes flag element dims ++ body

theorem Announces.ne_nil (announced : Announces data element dims body) : dims ≠ [] := by
  obtain ⟨-, -, -, some, -⟩ := announced
  exact List.length_pos_iff.mp some

theorem takeDimensions_cons {n : Nat} {length bound : Int32} {rest behind : Bytes}
    (first : takeInt32 data = .ok (length, rest)) (second : takeInt32 rest = .ok (bound, behind))
    (nonneg : ¬ length < 0) :
    takeDimensions (n + 1) data =
      (takeDimensions n behind).map fun p => (length.toInt.toNat :: p.1, p.2) := by
  simp only [takeDimensions, first, second, bind, Except.bind, if_neg nonneg]
  cases takeDimensions n behind <;> rfl

theorem takeDimensions_flatMap (words : AreWords dims) (body : Bytes) :
    takeDimensions dims.length (dims.flatMap Dimension.bytes ++ body) =
      .ok (dims.map Dimension.length, body) := by
  induction dims with
  | nil => rfl
  | cons d dims ih =>
    obtain ⟨small, words⟩ := List.forall_mem_cons.mp words
    have word := Bytes.toInt32_bigEndian small
    have nonneg := Bytes.not_toInt32_neg small
    have first := takeInt32_append (Bytes.length_bigEndian 4 d.length)
      (Bytes.int32 d.lowerBound ++ (dims.flatMap Dimension.bytes ++ body))
    have second := takeInt32_append (Bytes.length_int32 d.lowerBound)
      (dims.flatMap Dimension.bytes ++ body)
    rw [List.flatMap_cons, Dimension.bytes, List.append_assoc, List.append_assoc, List.length_cons,
      takeDimensions_cons first second nonneg, ih words, word, Int.toNat_natCast]
    rfl

theorem exists_dimensions {n : Nat} {lengths : List Nat}
    (read : takeDimensions n data = .ok (lengths, body)) :
    ∃ dims, AreWords dims ∧ dims.length = n ∧ dims.map Dimension.length = lengths ∧
      data = dims.flatMap Dimension.bytes ++ body := by
  induction n generalizing data lengths with
  | zero =>
    cases read
    exact ⟨[], nofun, rfl, rfl, rfl⟩
  | succ n ih =>
    simp only [takeDimensions] at read
    obtain ⟨⟨length, rest⟩, first, read⟩ := bind_ok read
    obtain ⟨⟨bound, behind⟩, second, read⟩ := bind_ok read
    split at read
    · cases read
    next nonneg =>
    obtain ⟨⟨others, body'⟩, more, read⟩ := bind_ok read
    cases read
    obtain ⟨dims, words, count, same, written⟩ := ih more
    obtain ⟨word, small⟩ := Bytes.int32_of_nonneg nonneg
    refine ⟨⟨length.toInt.toNat, bound⟩ :: dims, List.forall_mem_cons.mpr ⟨small, words⟩,
      by rw [List.length_cons, count], by rw [List.map_cons, same], ?_⟩
    have front := takeInt32_ok first
    have next := takeInt32_ok second
    dsimp only at next written
    rw [front, next, written, word, List.flatMap_cons, Dimension.bytes]
    simp only [List.append_assoc]

theorem decode_of_words {count null type : Int32} {rest₁ rest₂ rest : Bytes}
    (first : takeInt32 data = .ok (count, rest₁)) (second : takeInt32 rest₁ = .ok (null, rest₂))
    (third : takeInt32 rest₂ = .ok (type, rest)) :
    decode data =
      if count = 0 then .ok ⟨⟨type⟩, [], []⟩
      else if count < 1 ∨ 6 < count then .error (.dimensionCount count)
      else (takeDimensions count.toInt.toNat rest).map fun p => ⟨⟨type⟩, p.1, p.2⟩ := by
  simp only [decode, first, second, third, bind, Except.bind]
  split
  · rfl
  split
  · rfl
  cases takeDimensions count.toInt.toNat rest <;> rfl

theorem decode_of_announces (announced : Announces data element dims body) :
    decode data =
      if 6 < dims.length then .error (.dimensionCount (Bytes.toInt32 (.bigEndian 4 dims.length)))
      else .ok ⟨element, dims.map Dimension.length, body⟩ := by
  obtain ⟨flag, four, words, nonempty, count, rfl⟩ := announced
  have word := Bytes.toInt32_bigEndian count
  have first := takeInt32_append (Bytes.length_bigEndian 4 dims.length)
    (flag ++ (Bytes.int32 element.number ++ (dims.flatMap Dimension.bytes ++ body)))
  have second := takeInt32_append four
    (Bytes.int32 element.number ++ (dims.flatMap Dimension.bytes ++ body))
  have third := takeInt32_append (Bytes.length_int32 element.number)
    (dims.flatMap Dimension.bytes ++ body)
  have read := decode_of_words first second third
  simp only [bytes, List.append_assoc]
  rw [read, Bytes.toInt32_int32]
  generalize Bytes.toInt32 (Bytes.bigEndian 4 dims.length) = n at word
  have nonzero : n ≠ 0 := by
    rintro rfl
    rw [Int32.toInt_zero] at word
    omega
  have positive : ¬ n < 1 := by
    rw [Int32.lt_iff_toInt_lt, Int32.toInt_one]
    omega
  have many : 6 < n ↔ 6 < dims.length := by
    have six : (6 : Int32).toInt = 6 := by decide
    rw [Int32.lt_iff_toInt_lt]
    omega
  rw [if_neg nonzero]
  simp only [positive, false_or, many]
  split
  · rfl
  · rw [word, Int.toNat_natCast, takeDimensions_flatMap words]
    rfl

/-- A byte string that is read as a header announces what the header says, unless it begins with a
zero. -/
theorem announces_of_decode {header : ArrayHeader} (read : decode data = .ok header)
    (nonzero : data.take 4 ≠ [0, 0, 0, 0]) :
    ∃ dims, Announces data header.element dims header.body ∧
      dims.map Dimension.length = header.dimensions := by
  have whole := read
  simp only [decode] at read
  obtain ⟨⟨count, rest₁⟩, first, read⟩ := bind_ok read
  obtain ⟨⟨null, rest₂⟩, second, read⟩ := bind_ok read
  obtain ⟨⟨type, rest⟩, third, -⟩ := bind_ok read
  rw [decode_of_words first second third] at whole
  have front := takeInt32_ok first
  have next := takeInt32_ok second
  have last := takeInt32_ok third
  dsimp only at next last
  split at whole
  · next none =>
    rw [front, none] at nonzero
    exact absurd rfl nonzero
  split at whole
  · cases whole
  next within =>
  rw [not_or] at within
  obtain ⟨⟨lengths, body⟩, taken, made⟩ := map_ok whole
  obtain ⟨dims, words, number, same, written⟩ := exists_dimensions taken
  have six : (6 : Int32).toInt = 6 := by decide
  have low := mt Int32.lt_iff_toInt_lt.mpr within.1
  rw [Int32.toInt_one] at low
  have high := mt Int32.lt_iff_toInt_lt.mpr within.2
  have nonneg : ¬ count < 0 := by
    rw [Int32.lt_iff_toInt_lt, Int32.toInt_zero]
    omega
  have word := (Bytes.int32_of_nonneg nonneg).1
  cases made
  refine ⟨dims, ⟨Bytes.int32 null, Bytes.length_int32 null, words, by omega, by omega, ?_⟩, same⟩
  rw [front, next, last, written, word, ← number]
  simp only [bytes, List.append_assoc]

variable {header : ArrayHeader} {n : Nat}

def times? (total length : Nat) : Option Nat :=
  if total * length < 2 ^ 64 then some (total * length) else none

theorem product?_eq (lengths : List Nat) : product? lengths = lengths.foldlM times? 1 := rfl

theorem eq_prod_of_product? {lengths : List Nat} {start : Nat}
    (counted : lengths.foldlM times? start = some n) : n = start * lengths.prod := by
  induction lengths generalizing start with
  | nil =>
    cases counted
    rw [List.prod_nil, Nat.mul_one]
  | cons length lengths ih =>
    rw [List.foldlM_cons, times?] at counted
    split at counted
    · rw [ih counted, List.prod_cons, Nat.mul_assoc]
    · cases counted

/-- As no length is zero, the product only grows, and fits on the way if it fits in the end. -/
theorem product?_eq_prod {lengths : List Nat} {start : Nat} (positive : ∀ d ∈ lengths, 0 < d)
    (fits : start * lengths.prod < 2 ^ 64) :
    lengths.foldlM times? start = some (start * lengths.prod) := by
  induction lengths generalizing start with
  | nil => rw [List.prod_nil, Nat.mul_one]; rfl
  | cons length lengths ih =>
    obtain ⟨-, others⟩ := List.forall_mem_cons.mp positive
    rw [List.prod_cons, ← Nat.mul_assoc] at fits ⊢
    have grows : start * length ≤ start * length * lengths.prod :=
      Nat.le_mul_of_pos_right _ (List.prod_pos others)
    rw [List.foldlM_cons, times?, if_pos (by omega)]
    exact ih others fits

theorem total_ok (counted : header.total = .ok n) : n = header.dimensions.prod := by
  unfold total at counted
  split at counted
  · next product =>
    split at counted <;> cases counted
    have all := eq_prod_of_product? product
    rwa [Nat.one_mul] at all
  · cases counted

theorem total_eq (positive : ∀ d ∈ header.dimensions, 0 < d)
    (room : 4 * header.dimensions.prod ≤ header.body.length)
    (memory : header.body.length < 2 ^ 63) : header.total = .ok header.dimensions.prod := by
  have product := product?_eq_prod positive (show 1 * header.dimensions.prod < 2 ^ 64 by omega)
  rw [Nat.one_mul] at product
  rw [total, product?_eq, product]
  exact if_pos (by omega)

end ArrayHeader

namespace Value

open ArrayElements (Holds split_of_holds holds_of_split)
open ArrayHeader (AreWords Announces memberCount announces_of_decode decode_of_announces total_eq
  total_ok)

variable {oid element : Oid} {flag data body : Bytes} {dims : List Dimension}
  {header : ArrayHeader} {members : List (Option Bytes)} {values : List Value} {v : Value}

def readMember (element : Oid) : Option Bytes → Except ConversionError Value
  | none => .ok null
  | some data => ofBinary element data

/-- The members under their type. A fault in one of them is told before the one that cuts them
short. -/
def readMembers (element : Oid) (elements : ArrayElements) :
    Except ConversionError (List Value) := do
  let values ← elements.slices.mapM (readMember element)
  match elements.fault with
  | none => return values
  | some e => throw e

theorem ofBinary_of_malformed {e : ConversionError} (layout : oid.layout = .array)
    (refused : ArrayHeader.decode data = .error e) : ofBinary oid data = .error e := by
  rw [ofBinary.eq_def, layout]
  dsimp only
  split
  · next same =>
    rw [refused] at same
    cases same
    rfl
  · next found =>
    rw [refused] at found
    cases found

theorem ofBinary_of_header (layout : oid.layout = .array)
    (decoded : ArrayHeader.decode data = .ok header) (announced : header.dimensions ≠ []) :
    ofBinary oid data = header.total >>= fun n =>
      if n = 0 then .ok (array header.element [])
      else (readMembers header.element (.split n header.body)).map
        (nest header.element header.dimensions) := by
  rw [ofBinary.eq_def, layout]
  dsimp only
  split
  · next failed =>
    rw [decoded] at failed
    cases failed
  · next other same =>
    rw [decoded] at same
    cases same
    rw [if_neg announced]
    split
    · next failed =>
      rw [failed]
      rfl
    · next none =>
      rw [none]
      rfl
    · next n more counted =>
      rw [counted]
      refine .trans ?_ (if_neg more).symm
      rw [readMembers, List.mapM_subtype (g := readMember header.element) ?_, List.unattach_attach]
      · cases (ArrayElements.split n header.body).slices.mapM (readMember header.element) with
        | error e => rfl
        | ok values => cases (ArrayElements.split n header.body).fault <;> rfl
      · intro slice mem
        cases slice <;> rfl

theorem readMembers_of_holds (holds : Holds members body)
    (read : Forall₂ (readMember element · = .ok ·) members values) :
    readMembers element (.split members.length body) = .ok values := by
  rw [readMembers, split_of_holds holds, mapM_of_forall₂ read]
  rfl

theorem readMembers_ok {elements : ArrayElements}
    (read : readMembers element elements = .ok values) :
    elements.fault = none ∧ Forall₂ (readMember element · = .ok ·) elements.slices values := by
  obtain ⟨found, each, read⟩ := bind_ok read
  split at read
  · next complete =>
    cases read
    exact ⟨complete, mapM_ok each⟩
  · cases read

theorem ofBinary_of_announces (layout : oid.layout = .array)
    (announced : Announces data element dims body) :
    ofBinary oid data =
      if 6 < dims.length then .error (.dimensionCount (Bytes.toInt32 (.bigEndian 4 dims.length)))
      else ArrayHeader.total ⟨element, dims.map Dimension.length, body⟩ >>= fun n =>
        if n = 0 then .ok (array element [])
        else (readMembers element (.split n body)).map (nest element (dims.map Dimension.length)) := by
  have decoded := decode_of_announces announced
  split
  · next many =>
    rw [if_pos many] at decoded
    exact ofBinary_of_malformed layout decoded
  · next few =>
    rw [if_neg few] at decoded
    exact ofBinary_of_header layout decoded (mt List.map_eq_nil_iff.mp announced.ne_nil)

theorem ofBinary_of_holds (layout : oid.layout = .array)
    (announced : Announces data element dims body) (few : dims.length ≤ 6)
    (positive : ∀ d ∈ dims, 0 < d.length) (holds : Holds members body)
    (all : members.length = memberCount dims) (memory : body.length < 2 ^ 63)
    (read : Forall₂ (readMember element · = .ok ·) members values) :
    ofBinary oid data = .ok (nest element (dims.map Dimension.length) values) := by
  have positive : ∀ n ∈ dims.map Dimension.length, 0 < n := List.forall_mem_map.mpr positive
  have room := holds.length_le
  rw [all] at room
  have counted : ArrayHeader.total ⟨element, dims.map Dimension.length, body⟩ =
      .ok (memberCount dims) := total_eq positive room memory
  have found := readMembers_of_holds holds read
  rw [all] at found
  rw [ofBinary_of_announces layout announced, if_neg (by omega), counted]
  refine (if_neg (List.prod_pos positive).ne').trans ?_
  rw [found]
  rfl

theorem exists_members (layout : oid.layout = .array)
    (announced : Announces data element dims body) (read : ofBinary oid data = .ok v) :
    ∃ members, Holds members body ∧ members.length = memberCount dims ∧
      Forall₂ (readMember element · = .ok ·) members (leaves dims.length v) := by
  rw [ofBinary_of_announces layout announced] at read
  split at read
  · cases read
  obtain ⟨n, counted, read⟩ := bind_ok read
  have product : n = memberCount dims := total_ok counted
  split at read
  · next none =>
    -- A dimension is zero, and what stands behind the header is not looked at.
    cases read
    refine ⟨[], ⟨[], body, .nil, rfl⟩, none.symm.trans product, ?_⟩
    obtain ⟨d, dims, rfl⟩ := List.exists_cons_of_ne_nil announced.ne_nil
    exact .nil
  · obtain ⟨values, found, rfl⟩ := map_ok read
    obtain ⟨complete, each⟩ := readMembers_ok found
    obtain ⟨holds, count⟩ := holds_of_split complete
    have all := each.length_eq
    rw [count, product] at all
    have kept := (nest_shape element (mt List.map_eq_nil_iff.mp announced.ne_nil) all.symm).2
    rw [List.length_map] at kept
    exact ⟨_, holds, count.trans product, by rwa [kept]⟩

/-- An array that words can say the lengths of, and that fits in memory, comes back with its shape
and its members, in their order. Whatever is accepted as an array with dimensions holds as many
members as they ask for, and these are what it is made of; what does not hold as many is a
conversion error. -/
theorem ofBinary_array_keeps_members (layout : oid.layout = .array) :
    (∀ element (dims : List Dimension) members values,
      0 < dims.length → dims.length ≤ 6 → (∀ d ∈ dims, 0 < d.length ∧ d.length < 2 ^ 31) →
      members.length = memberCount dims → (∀ data, some data ∈ members → data.length < 2 ^ 31) →
      (arrayBytes element dims members).length < 2 ^ 63 →
      Forall₂ (readMember element · = .ok ·) members values →
      ∃ v, ofBinary oid (arrayBytes element dims members) = .ok v ∧
        HasShape element (dims.map Dimension.length) v ∧ leaves dims.length v = values) ∧
    (∀ data v, ofBinary oid data = .ok v → data.take 4 ≠ [0, 0, 0, 0] →
      ∃ element dims body, Announces data element dims body ∧ ∃ members, Holds members body ∧
        members.length = memberCount dims ∧
        Forall₂ (readMember element · = .ok ·) members (leaves dims.length v)) ∧
    ∀ data element dims body, Announces data element dims body →
      (∀ members, Holds members body → members.length ≠ memberCount dims) →
      ∃ e text, ofBinary oid data = .error e ∧ e.failure = .conversion text := by
  refine ⟨?_, ?_, ?_⟩
  · intro element dims members values nonempty few lengths all small memory read
    have held := ArrayElements.holds_sized small
    have announced : Announces (arrayBytes element dims members) element dims
        (members.flatMap Wire.sized) :=
      ⟨_, Bytes.length_bigEndian 4 _, fun d mem => (lengths d mem).2, nonempty, by omega, rfl⟩
    have count := read.length_eq
    rw [all] at count
    have shape := nest_shape element (mt List.map_eq_nil_iff.mp announced.ne_nil) count.symm
    rw [List.length_map] at shape
    rw [arrayBytes, List.length_append] at memory
    exact ⟨_, ofBinary_of_holds layout announced few (fun d mem => (lengths d mem).1) held all
      (by omega) read, shape⟩
  · intro data v read nonzero
    cases decoded : ArrayHeader.decode data with
    | error e =>
      rw [ofBinary_of_malformed layout decoded] at read
      cases read
    | ok header =>
      obtain ⟨dims, announced, -⟩ := announces_of_decode decoded nonzero
      exact ⟨_, dims, _, announced, exists_members layout announced read⟩
  · intro data element dims body announced short
    cases read : ofBinary oid data with
    | error e => exact ⟨e, e.message, rfl, rfl⟩
    | ok v =>
      obtain ⟨members, holds, all, -⟩ := exists_members layout announced read
      exact absurd all (short members holds)

theorem ofBinary_array_keeps_members_nested :
    let inner : Bytes := arrayBytes .int2 [⟨2, 1⟩] [some [0, 7], none]
    Oid.int2Array.layout = .array ∧
      (∃ v, ofBinary .int2Array
          (arrayBytes .int2Array [⟨2, 0⟩, ⟨1, -5⟩] [none, some inner]) = .ok v ∧
        HasShape .int2Array [2, 1] v ∧ leaves 2 v = [null, array .int2 [int2 7, null]]) ∧
      ∃ e text, ofBinary .int2Array (arrayBytes .int2 [⟨2, 1⟩] [some [0, 7]]) = .error e ∧
        e.failure = .conversion text := by
  intro inner
  have layout : Oid.int2Array.layout = .array := rfl
  have seven : readMember .int2 (some [0, 7]) = .ok (int2 7) := by
    rw [readMember, ofBinary.eq_def]
    rfl
  have reads : readMember .int2Array (some inner) = .ok (array .int2 [int2 7, null]) := by
    obtain ⟨v, read, ⟨values, rfl, -⟩, flat⟩ := (ofBinary_array_keeps_members layout).1
      .int2 [⟨2, 1⟩] [some [0, 7], none] [int2 7, null] (by decide) (by decide) (by decide) rfl
      (by simp) (by decide) (.cons seven (.cons rfl .nil))
    rw [← flat]
    exact read.trans (congrArg (Except.ok <| array _ ·) (List.flatMap_singleton' values).symm)
  have small : ∀ data, some data ∈ [none, some inner] → data.length < 2 ^ 31 := by
    intro data mem
    obtain rfl : data = inner := by simpa using mem
    decide
  refine ⟨layout, (ofBinary_array_keeps_members layout).1 .int2Array [⟨2, 0⟩, ⟨1, -5⟩]
    [none, some inner] [null, array .int2 [int2 7, null]] (by decide) (by decide) (by decide) rfl
    small (by decide) (.cons rfl (.cons reads .nil)), ?_⟩
  refine (ofBinary_array_keeps_members layout).2.2 _ .int2 [⟨2, 1⟩] [0, 0, 0, 2, 0, 7]
    ⟨_, rfl, by simp [AreWords], by decide, by decide, rfl⟩ ?_
  intro members holds
  have room : 4 * members.length ≤ 6 := holds.length_le
  show members.length ≠ 2
  omega

end Value

end PgPipeline
