import PgPipeline.Proofs.BackendRoundTrip

/-!
A message from the server that was cut off.

A local reader that takes all of some bytes can make nothing of a part of them
(`BodyReader.IsLocal.refuses_part`). The fields of a message are read by local readers, but the two
lists that an ending closes are not: they also end where the body ends. So a body that ends early is
refused unless it ends between two entries of such a list (`BackendMessage.decodeBody_prefix_iff`).
-/

namespace PgPipeline

theorem Bytes.prefix_append_cases {bs cs part : Bytes} (first : part <+: bs ++ cs)
    (short : part ≠ bs ++ cs) :
    (part <+: bs ∧ part ≠ bs) ∨ ∃ rest, part = bs ++ rest ∧ rest <+: cs ∧ rest ≠ cs := by
  by_cases whole : part = bs
  · subst whole
    exact .inr ⟨[], by simp, List.nil_prefix, fun same => short (by simp [← same])⟩
  rcases List.prefix_or_prefix_of_prefix first (List.prefix_append bs cs) with inside | ⟨rest, rfl⟩
  · exact .inl ⟨inside, whole⟩
  · exact .inr ⟨rest, rfl, (List.prefix_append_right_inj bs).mp first,
      fun same => short (same ▸ rfl)⟩

def IsProtocolError {α : Type} (result : Except WireError α) : Prop :=
  ∃ e, result = .error e ∧ e.failure = .protocol e.message

theorem WireError.failure_of_isFieldFault {e : WireError} (fault : e.isFieldFault) :
    e.failure = .protocol e.message := by
  cases e <;> first | rfl | cases fault

theorem not_isProtocolError_ok {α : Type} (a : α) :
    ¬ IsProtocolError (.ok a : Except WireError α) := nofun

theorem isProtocolError_map {α β : Type} {result : Except WireError α} (f : α → β) :
    IsProtocolError (result.map f) ↔ IsProtocolError result := by
  cases result with
  | error e => exact ⟨fun ⟨_, same, breach⟩ => ⟨_, congrArg _ (Except.error.inj same), breach⟩,
      fun ⟨_, same, breach⟩ => ⟨_, congrArg _ (Except.error.inj same), breach⟩⟩
  | ok a => exact ⟨nofun, nofun⟩

namespace BodyReader

variable {α : Type} {r : BodyReader α} {bs : Bytes} {a : α}

theorem IsLocal.refuses_part (isLocal : IsLocal r) (reads : Reads r bs a) {part : Bytes}
    (first : part <+: bs) (short : part ≠ bs) : IsProtocolError (r part) := by
  cases read : r part with
  | error e => exact ⟨e, rfl, WireError.failure_of_isFieldFault (isLocal.faults read)⟩
  | ok p =>
    obtain ⟨b, left⟩ := p
    obtain ⟨missing, rfl⟩ := first
    obtain ⟨taken, rfl, again⟩ := isLocal.takes read
    have all := reads.all
    rw [List.append_assoc, again (left ++ missing)] at all
    have nothingLeft : left ++ missing = [] := congrArg Prod.snd (Except.ok.inj all)
    exact absurd (by simp [(List.append_eq_nil_iff.mp nothingLeft).2]) short

def EndsBetween (write : α → Bytes) (xs : List α) (part : Bytes) : Prop :=
  ∃ front, front <+: xs ∧ part = front.flatMap write

section

variable {write : α → Bytes} {x : α} {xs : List α} {part : Bytes}

theorem endsBetween_nil : EndsBetween write xs [] := ⟨[], List.nil_prefix, rfl⟩

theorem endsBetween_append (filled : write x ≠ []) :
    EndsBetween write (x :: xs) (write x ++ part) ↔ EndsBetween write xs part := by
  constructor
  · rintro ⟨front, first, same⟩
    rcases List.prefix_cons_iff.mp first with rfl | ⟨more, rfl, others⟩
    · exact absurd (List.append_eq_nil_iff.mp same).1 filled
    · exact ⟨more, others, List.append_cancel_left same⟩
  · rintro ⟨front, first, rfl⟩
    exact ⟨x :: front, (List.prefix_cons_inj x).mpr first, rfl⟩

theorem not_endsBetween_inside (first : part <+: write x) (short : part ≠ write x)
    (filled : part ≠ []) : ¬ EndsBetween write (x :: xs) part := by
  rintro ⟨front, within, rfl⟩
  rcases List.prefix_cons_iff.mp within with rfl | ⟨front, rfl, -⟩
  · exact filled rfl
  · have length := first.length_le
    rw [List.flatMap_cons, List.length_append] at length
    have rest : front.flatMap write = [] := List.length_eq_zero_iff.mp (by omega)
    exact short (by rw [List.flatMap_cons, rest, List.append_nil])

/-- A list that an ending closes. If the reading goes on behind every entry, fails inside an entry
and succeeds where there is nothing more, then it fails on what is cut off unless that ends between
two entries. -/
theorem refused_part_iff {σ : Type} (refused : σ → Bytes → Prop) (step : σ → α → σ)
    (filled : ∀ x, write x ≠ []) (ending : ∀ s, ¬ refused s [])
    (inside : ∀ x ∈ xs, ∀ s part, part <+: write x → part ≠ write x → part ≠ [] → refused s part)
    (beyond : ∀ x ∈ xs, ∀ s rest, refused s (write x ++ rest) ↔ refused (step s x) rest)
    (s : σ) (first : part <+: xs.flatMap write ++ [0]) (short : part ≠ xs.flatMap write ++ [0]) :
    refused s part ↔ ¬ EndsBetween write xs part := by
  induction xs generalizing s part with
  | nil =>
    have nothing : part = [] := by
      rcases List.prefix_cons_iff.mp first with rfl | ⟨front, rfl, rest⟩
      · rfl
      · rw [List.prefix_nil.mp rest] at short
        exact absurd rfl short
    subst nothing
    exact iff_of_false (ending s) (not_not_intro endsBetween_nil)
  | cons x xs ih =>
    rw [List.flatMap_cons, List.append_assoc] at first short
    rcases Bytes.prefix_append_cases first short with ⟨first, short⟩ | ⟨rest, rfl, first, short⟩
    · by_cases nothing : part = []
      · subst nothing
        exact iff_of_false (ending s) (not_not_intro endsBetween_nil)
      · exact iff_of_true (inside x List.mem_cons_self s part first short nothing)
          (not_endsBetween_inside first short nothing)
    · rw [beyond x List.mem_cons_self, endsBetween_append (filled x)]
      exact ih (fun y mem => inside y (List.mem_cons_of_mem _ mem))
        (fun y mem => beyond y (List.mem_cons_of_mem _ mem)) (step s x) first short

end

theorem refuses_textsBytes_part_iff {texts : List String}
    (named : ∀ text ∈ texts, text ≠ "" ∧ BackendMessage.IsPlain text) {part : Bytes}
    (first : part <+: BackendMessage.textsBytes texts)
    (short : part ≠ BackendMessage.textsBytes texts) :
    IsProtocolError (textsUntilEmpty part) ↔ ¬ EndsBetween Wire.cstring texts part := by
  have filled (text : String) : Wire.cstring text ≠ [] := by simp [Wire.cstring]
  refine refused_part_iff (fun _ part => IsProtocolError (textsUntilEmpty part)) (fun _ _ => ()) filled
    ?ending ?inside ?beyond () first short
  case ending =>
    rintro -
    rw [textsUntilEmpty, dif_pos rfl]
    exact not_isProtocolError_ok []
  case inside =>
    rintro text mem - part first short more
    obtain ⟨e, failed, breach⟩ :=
      isLocal_cstring.refuses_part (reads_cstring (named text mem).2) first short
    refine ⟨e, ?_, breach⟩
    rw [textsUntilEmpty_eq more, failed]
    rfl
  case beyond =>
    rintro text mem - rest
    obtain ⟨nonempty, plain⟩ := named text mem
    have entered : textsUntilEmpty (Wire.cstring text ++ rest) =
        if text.isEmpty then .ok [] else (textsUntilEmpty rest).map (text :: ·) := by
      rw [textsUntilEmpty_eq (by simp [Wire.cstring]), reads_cstring plain rest]
      rfl
    rw [entered, if_neg (by simpa using nonempty)]
    exact isProtocolError_map (text :: ·)

theorem refuses_reportBytes_part_iff {fields : ReportFields}
    (keyed : ∀ f ∈ fields, f.1 ≠ 0 ∧ BackendMessage.IsPlain f.2) {part : Bytes}
    (first : part <+: BackendMessage.reportBytes fields)
    (short : part ≠ BackendMessage.reportBytes fields) :
    IsProtocolError (reportFields [] part) ↔
      ¬ EndsBetween (fun f : UInt8 × String => f.1 :: Wire.cstring f.2) fields part := by
  refine refused_part_iff (fun before part => IsProtocolError (reportFields before part))
    (fun before f => before.insert f.1 f.2) (fun f => List.cons_ne_nil _ _) ?ending ?inside ?beyond []
    first short
  case ending =>
    intro before
    rw [reportFields]
    exact not_isProtocolError_ok before
  case inside =>
    intro f mem before part first short more
    obtain ⟨nonzero, plain⟩ := keyed f mem
    rcases List.prefix_cons_iff.mp first with rfl | ⟨tail, rfl, inText⟩
    · exact absurd rfl more
    · obtain ⟨e, failed, breach⟩ := isLocal_cstring.refuses_part (reads_cstring plain) inText
        fun same => short (same ▸ rfl)
      refine ⟨e, ?_, breach⟩
      rw [reportFields_cons before nonzero, failed]
      rfl
  case beyond =>
    intro f mem before rest
    obtain ⟨nonzero, plain⟩ := keyed f mem
    rw [List.cons_append, reportFields_cons before nonzero, reads_cstring plain rest]
    rfl

end BodyReader

namespace BackendMessage

open BodyReader

/-- The message can be written with its length and its counts, and no text in it ends early. A
report may hold a key twice. -/
def IsFormed : BackendMessage → Prop
  | errorResponse fields => ∀ f ∈ fields, f.1 ≠ 0 ∧ IsPlain f.2
  | noticeResponse fields => ∀ f ∈ fields, f.1 ≠ 0 ∧ IsPlain f.2
  | m => m.IsWritable

/-- All that is behind the code of the request is one field without a length. -/
def IsOpenEnded : BackendMessage → Prop
  | saslContinue _ => True
  | saslFinal _ => True
  | _ => False

/-- The part of the body ends where a list that an ending closes could go on. -/
def EndsInList : BackendMessage → Bytes → Prop
  | errorResponse fields, part =>
    EndsBetween (fun f : UInt8 × String => f.1 :: Wire.cstring f.2) fields part
  | noticeResponse fields, part =>
    EndsBetween (fun f : UInt8 × String => f.1 :: Wire.cstring f.2) fields part
  | sasl mechanisms, part =>
    ∃ rest, part = Bytes.int32 10 ++ rest ∧ EndsBetween Wire.cstring mechanisms rest
  | _, _ => False

variable {part : Bytes}

theorem refuses_code_part {code : Int32} (first : part <+: Bytes.int32 code)
    (short : part ≠ Bytes.int32 code) : IsProtocolError (decodeAuthentication part) := by
  obtain ⟨e, failed, breach⟩ := isLocal_int32.refuses_part (reads_int32 code) first short
  refine ⟨e, ?_, breach⟩
  rw [decodeAuthentication, failed]

theorem refuses_whole {reader : BodyReader BackendMessage} {bs : Bytes} {m : BackendMessage}
    (isLocal : IsLocal reader) (reads : Reads reader bs m) (first : part <+: bs)
    (short : part ≠ bs) : IsProtocolError (whole reader part) :=
  (isProtocolError_map _).mpr (isLocal.refuses_part reads first short)

/-- A message whose body ends early is reported, unless the body ends between two entries of a list
that an ending closes: there the end of the body is taken for the end of the list. -/
theorem decodeBody_prefix_iff {m : BackendMessage} (formed : m.IsFormed) (closed : ¬ m.IsOpenEnded)
    (first : part <+: m.body) (short : part ≠ m.body) :
    IsProtocolError (decodeBody (Bytes.ascii m.tag) part) ↔ ¬ m.EndsInList part := by
  have fielded {reader : BodyReader BackendMessage} (isLocal : IsLocal reader)
      (reads : Reads reader m.body m) : IsProtocolError (whole reader part) ↔ ¬ False :=
    iff_of_true (refuses_whole isLocal reads first short) not_false
  have bare (empty : m.body = []) : False :=
    short (by rw [empty] at first ⊢; exact List.prefix_nil.mp first)
  cases m with
  | authenticationOk => exact iff_of_true (refuses_code_part first short) not_false
  | cleartextPassword => exact iff_of_true (refuses_code_part first short) not_false
  | md5Password salt =>
    rcases Bytes.prefix_append_cases first short with ⟨first, short⟩ | ⟨rest, rfl, first, short⟩
    · exact iff_of_true (refuses_code_part first short) not_false
    · refine iff_of_true ?_ not_false
      change IsProtocolError (decodeAuthentication (Bytes.int32 5 ++ rest))
      rw [decodeAuthentication, reads_int32 5 rest]
      exact (isProtocolError_map _).mpr
        ((isLocal_bytes 4).refuses_part (reads_bytes formed) first short)
  | sasl mechanisms =>
    rcases Bytes.prefix_append_cases first short with ⟨first, short⟩ | ⟨rest, rfl, first, short⟩
    · refine iff_of_true (refuses_code_part first short) ?_
      rintro ⟨rest, rfl, -⟩
      exact short (first.eq_of_length_le (by simp))
    · have within : (sasl mechanisms).EndsInList (Bytes.int32 10 ++ rest) ↔
          EndsBetween Wire.cstring mechanisms rest := by
        refine ⟨?_, fun ends => ⟨rest, rfl, ends⟩⟩
        rintro ⟨_, same, ends⟩
        exact List.append_cancel_left same ▸ ends
      rw [within, ← refuses_textsBytes_part_iff formed first short]
      change IsProtocolError (decodeAuthentication (Bytes.int32 10 ++ rest)) ↔ _
      rw [decodeAuthentication, reads_int32 10 rest]
      exact isProtocolError_map sasl
  | saslContinue data => exact absurd trivial closed
  | saslFinal data => exact absurd trivial closed
  | rowDescription columns =>
    exact fielded isLocal_column.counted.map (reads_rowDescription formed)
  | dataRow values => exact fielded isLocal_sized.counted.map (reads_dataRow formed)
  | commandComplete tag => exact fielded isLocal_cstring.map (reads_commandComplete formed)
  | emptyQueryResponse => exact (bare rfl).elim
  | parseComplete => exact (bare rfl).elim
  | bindComplete => exact (bare rfl).elim
  | closeComplete => exact (bare rfl).elim
  | noData => exact (bare rfl).elim
  | portalSuspended => exact (bare rfl).elim
  | readyForQuery status => exact fielded isLocal_byte.map (reads_readyForQuery status)
  | parameterStatus name value =>
    exact fielded (isLocal_cstring.bind fun _ => isLocal_cstring.map) (reads_parameterStatus formed)
  | backendKeyData process secret =>
    exact fielded (isLocal_int32.bind fun _ => isLocal_int32.map)
      (reads_backendKeyData process secret)
  | errorResponse fields =>
    exact (isProtocolError_map errorResponse).trans
      (refuses_reportBytes_part_iff formed first short)
  | noticeResponse fields =>
    exact (isProtocolError_map noticeResponse).trans
      (refuses_reportBytes_part_iff formed first short)
  | notification process channel payload =>
    exact fielded (isLocal_int32.bind fun _ => isLocal_cstring.bind fun _ => isLocal_cstring.map)
      (reads_notification formed)
  | parameterDescription types =>
    exact fielded isLocal_int32.map.counted.map (reads_parameterDescription formed)

theorem decodeBody_prefix_iff_row :
    let m := dataRow [some [0x61, 0x62], none]
    let part := m.body.take 7
    m.IsFormed ∧ ¬ m.IsOpenEnded ∧ part <+: m.body ∧ part ≠ m.body ∧
      (IsProtocolError (decodeBody (Bytes.ascii m.tag) part) ↔ ¬ m.EndsInList part) := by
  intro m part
  have formed : m.IsFormed := by
    refine ⟨by decide, ?_⟩
    rintro v mem data rfl
    simp only [List.mem_cons, Option.some.injEq, reduceCtorEq, List.not_mem_nil, or_false] at mem
    subst mem
    decide
  have first : part <+: m.body := List.take_prefix 7 m.body
  have short : part ≠ m.body := by decide +kernel
  exact ⟨formed, not_false, first, short, decodeBody_prefix_iff formed not_false first short⟩

/-- A report that is cut off behind its first field is read as a report with that field alone. -/
theorem decodeBody_takes_cut_report :
    let m := errorResponse [(Bytes.ascii 'S', "ERROR"), (Bytes.ascii 'C', "42P01")]
    let part := Bytes.ascii 'S' :: Wire.cstring "ERROR"
    m.IsFormed ∧ ¬ m.IsOpenEnded ∧ part <+: m.body ∧ part ≠ m.body ∧
      decodeBody (Bytes.ascii m.tag) part = .ok (errorResponse [(Bytes.ascii 'S', "ERROR")]) := by
  intro m part
  have formed : m.IsFormed := by
    intro f mem
    simp only [List.mem_cons, List.not_mem_nil, or_false] at mem
    rcases mem with rfl | rfl
    · exact ⟨by decide, by simp [IsPlain]⟩
    · exact ⟨by decide, by simp [IsPlain]⟩
  have first : part <+: m.body := by decide +kernel
  have short : part ≠ m.body := by decide +kernel
  have read : reportFields [] part = .ok [(Bytes.ascii 'S', "ERROR")] := by
    have text := (reads_cstring (formed _ List.mem_cons_self).2).all
    rw [reportFields_cons [] (by decide), text]
    change reportFields [(Bytes.ascii 'S', "ERROR")] [] = _
    rw [reportFields]
  refine ⟨formed, not_false, first, short, ?_⟩
  change (reportFields [] part).map errorResponse = _
  rw [read]
  rfl

end BackendMessage

end PgPipeline
