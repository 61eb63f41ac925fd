import PgPipeline.Proofs.Framing
import PgPipeline.Proofs.Readers
import PgPipeline.Proofs.Utf8
import PgPipeline.Wire.Backend.Writer

namespace PgPipeline

namespace Bytes

theorem toInt16_bigEndian {n : Nat} (h : n < 2 ^ 15) : (toInt16 (bigEndian 2 n)).toInt = n := by
  have word : toInt16 (bigEndian 2 n) = Int16.ofNat n := by
    rw [toInt16, toNat_bigEndian, Nat.mod_eq_of_lt (by omega), UInt16.toInt16_ofNat']
  rw [word, Int16.toInt_ofNat_of_lt h]

end Bytes

theorem TransactionStatus.ofByte_byte (status : TransactionStatus) :
    ofByte status.byte = status := by
  cases status <;> rfl

theorem Format.ofCode_code (format : Format) : ofCode format.code = format := by
  cases format <;> rfl

theorem ReportFields.insert_of_not_mem {fields : ReportFields} {key : UInt8}
    (new : key ∉ fields.map (·.1)) (text : String) :
    fields.insert key text = fields ++ [(key, text)] := by
  have absent : fields.any (fun f => f.1 == key) = false := by
    rw [List.any_eq_false]
    intro f mem same
    exact new (List.mem_map.mpr ⟨f, mem, beq_iff_eq.mp same⟩)
  rw [insert, absent]
  rfl

theorem Wire.cut_cstring {text : String} (plain : BackendMessage.IsPlain text) (rest : Bytes) :
    (cstring text ++ rest).contains 0 ∧
      (cstring text ++ rest).takeWhile (· != 0) = Utf8.encode text ∧
      ((cstring text ++ rest).dropWhile (· != 0)).drop 1 = rest := by
  have split : cstring text ++ rest = Utf8.encode text ++ 0 :: rest := by
    rw [cstring, List.append_assoc]
    rfl
  rw [split]
  exact cut_zero (Utf8.zero_not_mem_encode plain) rest

namespace BodyReader

variable {α : Type}

theorem reads_int16 (v : Int16) : Reads int16 (Bytes.int16 v) v := by
  have read := (reads_bytes (Bytes.length_int16 v)).map (f := Bytes.toInt16)
  rwa [Bytes.toInt16_int16] at read

theorem reads_int32 (v : Int32) : Reads int32 (Bytes.int32 v) v := by
  have read := (reads_bytes (Bytes.length_int32 v)).map (f := Bytes.toInt32)
  rwa [Bytes.toInt32_int32] at read

theorem reads_cstring {text : String} (plain : BackendMessage.IsPlain text) :
    Reads cstring (Wire.cstring text) text := by
  intro rest
  obtain ⟨closed, content, after⟩ := Wire.cut_cstring plain rest
  rw [cstring, if_pos closed, content, after, Utf8.lossy_encode]
  rfl

theorem reads_count {n : Nat} (h : n ≤ BackendMessage.maxCount) :
    Reads count (Bytes.bigEndian 2 n) n := by
  have word := Bytes.toInt16_bigEndian (n := n) (by unfold BackendMessage.maxCount at h; omega)
  have nonneg : ¬ Bytes.toInt16 (Bytes.bigEndian 2 n) < 0 := by
    intro below
    have below := Int16.lt_iff_toInt_lt.mp below
    rw [word] at below
    have zero : (0 : Int16).toInt = 0 := by decide
    omega
  have read : Reads int16 (Bytes.bigEndian 2 n) (Bytes.toInt16 (Bytes.bigEndian 2 n)) :=
    (reads_bytes (Bytes.length_bigEndian 2 n)).map
  refine read.last ?_
  rw [if_neg nonneg, word, Int.toNat_natCast]
  exact Reads.nothing n

theorem reads_items {item : BodyReader α} {write : α → Bytes} {xs : List α}
    (h : ∀ x ∈ xs, Reads item (write x) x) :
    Reads (items item xs.length) (xs.flatMap write) xs := by
  induction xs with
  | nil => exact Reads.nothing []
  | cons x rest ih =>
    have others := ih fun y mem => h y (List.mem_cons_of_mem _ mem)
    exact (h x List.mem_cons_self).bind others.map

theorem reads_counted {item : BodyReader α} {write : α → Bytes} {xs : List α}
    (few : xs.length ≤ BackendMessage.maxCount) (h : ∀ x ∈ xs, Reads item (write x) x) :
    Reads (counted item) (Wire.counted write xs) xs :=
  (reads_count few).bind (reads_items h)

theorem reads_sized {v : Option Bytes} (small : ∀ data, v = some data → data.length < 2 ^ 31) :
    Reads sized (Wire.sized v) v := by
  cases v with
  | none => exact (reads_int32 (-1)).last (Reads.nothing none)
  | some data =>
    have word := Bytes.toInt32_bigEndian (small data rfl)
    have read : Reads int32 (Bytes.bigEndian 4 data.length)
        (Bytes.toInt32 (Bytes.bigEndian 4 data.length)) :=
      (reads_bytes (Bytes.length_bigEndian 4 data.length)).map
    refine read.bind ?_
    rw [if_neg (Bytes.not_toInt32_neg (small data rfl))]
    exact (reads_bytes (by rw [word, Int.toNat_natCast])).map

theorem reads_column {c : Column} (plain : BackendMessage.IsPlain c.name) :
    Reads column (BackendMessage.columnBytes c) c := by
  have format := (reads_int16 c.format.code).map (f := fun code =>
    Column.mk c.name c.table c.position ⟨c.type.number⟩ c.size c.modifier (.ofCode code))
  rw [Format.ofCode_code] at format
  simp only [BackendMessage.columnBytes, List.append_assoc]
  exact (reads_cstring plain).bind <| (reads_int32 c.table).bind <|
    (reads_int16 c.position).bind <| (reads_int32 c.type.number).bind <|
    (reads_int16 c.size).bind <| (reads_int32 c.modifier).bind format

theorem textsUntilEmpty_eq {data : Bytes} (more : data ≠ []) :
    textsUntilEmpty data = cstring data >>= fun p =>
      if p.1.isEmpty then .ok [] else (textsUntilEmpty p.2).map (p.1 :: ·) := by
  rw [textsUntilEmpty, dif_neg more]
  split
  · next failed =>
    rw [failed]
    rfl
  · next read =>
    dsimp only
    rw [read]
    rfl

theorem reportFields_cons (before : ReportFields) {key : UInt8} (nonzero : key ≠ 0)
    (tail : Bytes) :
    reportFields before (key :: tail) =
      cstring tail >>= fun p => reportFields (before.insert key p.1) p.2 := by
  rw [reportFields, if_neg nonzero]
  split
  · next failed =>
    rw [failed]
    rfl
  · next read =>
    dsimp only
    rw [read]
    rfl

theorem textsUntilEmpty_textsBytes {texts : List String}
    (named : ∀ text ∈ texts, text ≠ "" ∧ BackendMessage.IsPlain text) :
    textsUntilEmpty (BackendMessage.textsBytes texts) = .ok texts := by
  induction texts with
  | nil =>
    have closing : cstring [0] = .ok ("", []) := by
      have plain : BackendMessage.IsPlain "" := by simp [BackendMessage.IsPlain]
      exact (reads_cstring plain).all
    rw [BackendMessage.textsBytes, List.flatMap_nil, List.nil_append, textsUntilEmpty_eq (by simp),
      closing]
    rfl
  | cons text rest ih =>
    obtain ⟨nonempty, plain⟩ := named text List.mem_cons_self
    have more := ih fun t mem => named t (List.mem_cons_of_mem _ mem)
    have first : cstring (BackendMessage.textsBytes (text :: rest)) =
        .ok (text, BackendMessage.textsBytes rest) := by
      rw [BackendMessage.textsBytes, List.flatMap_cons, List.append_assoc]
      exact reads_cstring plain _
    have entered : (textsUntilEmpty (BackendMessage.textsBytes (text :: rest))) =
        if text.isEmpty then .ok []
        else (textsUntilEmpty (BackendMessage.textsBytes rest)).map (text :: ·) := by
      rw [textsUntilEmpty_eq (by simp [BackendMessage.textsBytes]), first]
      rfl
    rw [entered, if_neg (by simpa using nonempty), more]
    rfl

theorem reportFields_reportBytes (before : ReportFields) {fields : ReportFields}
    (distinct : ((before ++ fields).map (·.1)).Nodup)
    (keyed : ∀ f ∈ fields, f.1 ≠ 0 ∧ BackendMessage.IsPlain f.2) :
    reportFields before (BackendMessage.reportBytes fields) = .ok (before ++ fields) := by
  induction fields generalizing before with
  | nil =>
    rw [BackendMessage.reportBytes, List.flatMap_nil, List.nil_append, reportFields, if_pos rfl,
      List.append_nil]
  | cons f rest ih =>
    obtain ⟨nonzero, plain⟩ := keyed f List.mem_cons_self
    have new : f.1 ∉ before.map (·.1) := by
      rw [List.map_append, List.map_cons] at distinct
      exact fun mem => (List.nodup_append.mp distinct).2.2 _ mem _ List.mem_cons_self rfl
    have entered := ReportFields.insert_of_not_mem new f.2
    have more := ih (before ++ [f]) (by simpa using distinct)
      fun g mem => keyed g (List.mem_cons_of_mem _ mem)
    have first : cstring (Wire.cstring f.2 ++ BackendMessage.reportBytes rest) =
        .ok (f.2, BackendMessage.reportBytes rest) := reads_cstring plain _
    have split : BackendMessage.reportBytes (f :: rest) =
        f.1 :: (Wire.cstring f.2 ++ BackendMessage.reportBytes rest) := by
      simp [BackendMessage.reportBytes]
    rw [split, reportFields_cons before nonzero, first]
    change reportFields (before.insert f.1 f.2) (BackendMessage.reportBytes rest) = _
    rw [entered, more, List.append_assoc]
    rfl

end BodyReader

namespace BackendMessage

open BodyReader

theorem whole_of_reads {reader : BodyReader BackendMessage} {bs : Bytes} {m : BackendMessage}
    (h : Reads reader bs m) : whole reader bs = .ok m := by
  rw [whole, h.all]
  rfl

theorem reads_rowDescription {columns : List Column}
    (writable : (rowDescription columns).IsWritable) :
    Reads (do return rowDescription (← counted column)) (rowDescription columns).body
      (rowDescription columns) :=
  (reads_counted writable.1 fun c mem => reads_column (writable.2 c mem)).map

theorem reads_dataRow {values : List (Option Bytes)} (writable : (dataRow values).IsWritable) :
    Reads (do return dataRow (← counted sized)) (dataRow values).body (dataRow values) :=
  (reads_counted writable.1 fun v mem => reads_sized (writable.2 v mem)).map

theorem reads_commandComplete {tag : String} (writable : (commandComplete tag).IsWritable) :
    Reads (do return commandComplete (← cstring)) (commandComplete tag).body (commandComplete tag) :=
  (reads_cstring writable).map

theorem reads_readyForQuery (status : TransactionStatus) :
    Reads (do return readyForQuery (.ofByte (← byte))) (readyForQuery status).body
      (readyForQuery status) := by
  have read := (reads_byte status.byte).map (f := fun b => readyForQuery (.ofByte b))
  rwa [TransactionStatus.ofByte_byte] at read

theorem reads_parameterStatus {name value : String}
    (writable : (parameterStatus name value).IsWritable) :
    Reads (do return parameterStatus (← cstring) (← cstring)) (parameterStatus name value).body
      (parameterStatus name value) :=
  (reads_cstring writable.1).bind (reads_cstring writable.2).map

theorem reads_backendKeyData (process secret : Int32) :
    Reads (do return backendKeyData (← int32) (← int32)) (backendKeyData process secret).body
      (backendKeyData process secret) :=
  (reads_int32 process).bind (reads_int32 secret).map

theorem reads_notification {process : Int32} {channel payload : String}
    (writable : (notification process channel payload).IsWritable) :
    Reads (do return notification (← int32) (← cstring) (← cstring))
      (notification process channel payload).body (notification process channel payload) := by
  have split : (notification process channel payload).body =
      Bytes.int32 process ++ (Wire.cstring channel ++ Wire.cstring payload) :=
    List.append_assoc ..
  rw [split]
  exact (reads_int32 process).bind
    ((reads_cstring writable.1).bind (reads_cstring writable.2).map)

theorem reads_parameterDescription {types : List Oid}
    (writable : (parameterDescription types).IsWritable) :
    Reads (do return parameterDescription (← counted (do return Oid.mk (← int32))))
      (parameterDescription types).body (parameterDescription types) :=
  (reads_counted writable fun oid _ => (reads_int32 oid.number).map (f := Oid.mk)).map

theorem decodeBody_body {m : BackendMessage} (writable : m.IsWritable) :
    decodeBody (Bytes.ascii m.tag) m.body = .ok m := by
  cases m with
  | authenticationOk => rfl
  | cleartextPassword => rfl
  | md5Password salt =>
    change decodeAuthentication (Bytes.int32 5 ++ salt) = _
    rw [decodeAuthentication, reads_int32 5 salt]
    change (bytes 4 salt).map _ = _
    rw [(reads_bytes writable).all]
    rfl
  | sasl mechanisms =>
    change decodeAuthentication (Bytes.int32 10 ++ textsBytes mechanisms) = _
    rw [decodeAuthentication, reads_int32 10 (textsBytes mechanisms)]
    change (textsUntilEmpty (textsBytes mechanisms)).map sasl = _
    rw [textsUntilEmpty_textsBytes writable]
    rfl
  | saslContinue data =>
    change decodeAuthentication (Bytes.int32 11 ++ data) = _
    rw [decodeAuthentication, reads_int32 11 data]
    rfl
  | saslFinal data =>
    change decodeAuthentication (Bytes.int32 12 ++ data) = _
    rw [decodeAuthentication, reads_int32 12 data]
    rfl
  | rowDescription columns => exact whole_of_reads (reads_rowDescription writable)
  | dataRow values => exact whole_of_reads (reads_dataRow writable)
  | commandComplete tag => exact whole_of_reads (reads_commandComplete writable)
  | emptyQueryResponse => rfl
  | parseComplete => rfl
  | bindComplete => rfl
  | closeComplete => rfl
  | noData => rfl
  | portalSuspended => rfl
  | readyForQuery status => exact whole_of_reads (reads_readyForQuery status)
  | parameterStatus name value => exact whole_of_reads (reads_parameterStatus writable)
  | backendKeyData process secret => exact whole_of_reads (reads_backendKeyData process secret)
  | errorResponse fields =>
    change (reportFields [] (reportBytes fields)).map errorResponse = _
    rw [reportFields_reportBytes [] writable.1 writable.2]
    rfl
  | noticeResponse fields =>
    change (reportFields [] (reportBytes fields)).map noticeResponse = _
    rw [reportFields_reportBytes [] writable.1 writable.2]
    rfl
  | notification process channel payload => exact whole_of_reads (reads_notification writable)
  | parameterDescription types => exact whole_of_reads (reads_parameterDescription writable)

/-- A message that a server writes is read back as it is, and what follows its frame is left. The
length word can say how long the frame is. -/
theorem decode_inverts {m : BackendMessage} (writable : m.IsWritable)
    (fits : m.body.length + 4 < 2 ^ 31) (rest : Bytes) :
    decode (m.encode ++ rest) = (.ok m, rest) := by
  have read := Frame.decode_bytes (f := ⟨Bytes.ascii m.tag, m.body⟩) fits rest
  rw [Frame.content, decodeBody_body writable] at read
  exact read

theorem decode_inverts_rowDescription :
    let m := rowDescription
      [⟨"id", 16384, 1, .int4, 4, -1, .binary⟩, ⟨"größe", 0, 0, .numeric, -1, -1, .text⟩]
    m.IsWritable ∧ m.body.length + 4 < 2 ^ 31 ∧ decode (m.encode ++ [0x5A]) = (.ok m, [0x5A]) := by
  intro m
  have writable : m.IsWritable := by
    refine ⟨by decide, ?_⟩
    simp [IsPlain]
  have fits : m.body.length + 4 < 2 ^ 31 := by decide +kernel
  exact ⟨writable, fits, decode_inverts writable fits [0x5A]⟩

end BackendMessage

namespace Inbound

variable {i j : Inbound} {m : BackendMessage}

theorem drain_of_next (h : i.next = (.ok (some m), j)) :
    i.drain = (m :: j.drain.1, j.drain.2) := by
  rw [drain]
  split
  · next taken =>
    cases h.symm.trans taken
    rfl
  · next taken => cases h.symm.trans taken
  · next taken => cases h.symm.trans taken

theorem drain_of_idle (h : i.next = (.ok none, j)) :
    i.drain = ([], none, j) := by
  rw [drain]
  split
  · next taken => cases h.symm.trans taken
  · next taken =>
    cases h.symm.trans taken
    rfl
  · next taken => cases h.symm.trans taken

theorem drain_encode {ms : List BackendMessage} {limit : Nat}
    (writable : ∀ m ∈ ms, m.IsWritable)
    (fits : ∀ m ∈ ms, (⟨Bytes.ascii m.tag, m.body⟩ : Frame).Fits limit) :
    (⟨ms.flatMap BackendMessage.encode, limit⟩ : Inbound).drain = (ms, none, ⟨[], limit⟩) := by
  induction ms with
  | nil => exact drain_of_idle rfl
  | cons m rest ih =>
    have content : (⟨Bytes.ascii m.tag, m.body⟩ : Frame).content = .ok m :=
      BackendMessage.decodeBody_body (writable m List.mem_cons_self)
    have next := Frame.next_bytes (fits m List.mem_cons_self) (rest.flatMap BackendMessage.encode)
    rw [content] at next
    have others := ih (fun m mem => writable m (List.mem_cons_of_mem _ mem))
      fun m mem => fits m (List.mem_cons_of_mem _ mem)
    rw [List.flatMap_cons]
    refine (drain_of_next next).trans ?_
    rw [others]

end Inbound

end PgPipeline
