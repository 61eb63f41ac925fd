import PgPipeline.Proofs.BackendRoundTrip
import PgPipeline.Wire.Frontend.Reader

namespace PgPipeline

open BackendMessage (IsPlain maxCount)

namespace FieldReader

variable {α : Type} {bs : Bytes}

theorem reads_bytes {n : Nat} (length : bs.length = n) : Reads (bytes n) bs bs := by
  intro rest
  subst length
  rw [bytes, if_neg (by simp), List.take_left, List.drop_left]
  rfl

theorem reads_number {width n : Nat} (small : n < 256 ^ width) :
    Reads (number width) (Bytes.bigEndian width n) n := by
  have read := (reads_bytes (Bytes.length_bigEndian width n)).map (f := Bytes.toNat)
  rwa [Bytes.toNat_bigEndian, Nat.mod_eq_of_lt small] at read

theorem reads_int32 (v : Int32) {f : Int32 → α} :
    Reads (do return f (Bytes.toInt32 (← bytes 4))) (Bytes.int32 v) (f v) := by
  have read := (reads_bytes (Bytes.length_int32 v)).map (f := fun word => f (Bytes.toInt32 word))
  rwa [Bytes.toInt32_int32] at read

theorem reads_cstring {text : String} (plain : IsPlain text) :
    Reads cstring (Wire.cstring text) text := by
  intro rest
  obtain ⟨closed, content, after⟩ := Wire.cut_cstring plain rest
  rw [cstring, if_pos closed, content, after, Utf8.decode_encode]
  rfl

theorem reads_items {item : FieldReader α} {write : α → Bytes} {xs : List α}
    (h : ∀ x ∈ xs, Reads item (write x) x) :
    Reads (items item xs.length) (xs.flatMap write) xs := by
  induction xs with
  | nil => exact Reads.nothing []
  | cons x rest ih =>
    have others := ih fun y mem => h y (List.mem_cons_of_mem _ mem)
    exact (h x List.mem_cons_self).bind others.map

theorem reads_counted {item : FieldReader α} {write : α → Bytes} {xs : List α}
    (few : xs.length ≤ maxCount) (h : ∀ x ∈ xs, Reads item (write x) x) :
    Reads (counted item) (Wire.counted write xs) xs :=
  (reads_number (by unfold maxCount at few; omega)).bind (reads_items h)

theorem reads_sized {v : Option Bytes} (small : ∀ data, v = some data → data.length < 2 ^ 31) :
    Reads sized (Wire.sized v) v := by
  cases v with
  | none =>
    refine (reads_bytes (Bytes.length_int32 (-1))).last ?_
    rw [Bytes.toInt32_int32, if_pos rfl]
    exact Reads.nothing none
  | some data =>
    have small := small data rfl
    have word := Bytes.toInt32_bigEndian small
    have present : Bytes.toInt32 (Bytes.bigEndian 4 data.length) ≠ -1 := by
      intro absent
      rw [absent] at word
      have minus : (-1 : Int32).toInt = -1 := by decide
      omega
    refine (reads_bytes (Bytes.length_bigEndian 4 data.length)).bind ?_
    rw [if_neg present, if_neg (Bytes.not_toInt32_neg small)]
    exact (reads_bytes (by rw [word, Int.toNat_natCast])).map

theorem reads_oid (o : Oid) : Reads oid (Bytes.int32 o.number) o :=
  reads_int32 o.number

theorem reads_format (f : Format) : Reads format (FrontendMessage.formatCode f) f := by
  cases f with
  | text => exact (reads_number (n := 0) (by decide)).last (Reads.nothing Format.text)
  | binary => exact (reads_number (n := 1) (by decide)).last (Reads.nothing Format.binary)

theorem reads_target (t : Target) : Reads target [t.code] t := by
  have byte : Reads (bytes 1) [t.code] [t.code] := reads_bytes rfl
  cases t with
  | statement => exact byte.last (Reads.nothing Target.statement)
  | portal => exact byte.last (Reads.nothing Target.portal)

theorem whole?_of_reads {reader : FieldReader α} {a : α} (h : Reads reader bs a) :
    whole? reader bs = some a := by
  rw [whole?, h.all]
  rfl

end FieldReader

namespace FrontendMessage

open FieldReader

/-- Each text ends where it is cut off, and each list and each value can say how long it is. -/
def HasFields : FrontendMessage → Prop
  | startup user database options =>
    IsPlain user ∧ (∀ name, database = some name → IsPlain name) ∧
      ∀ option ∈ options, IsPlain option.1 ∧ IsPlain option.2
  | password secret => IsPlain secret
  | parse name query types => IsPlain name ∧ IsPlain query ∧ types.length ≤ maxCount
  | bind portal statement formats values results =>
    IsPlain portal ∧ IsPlain statement ∧ formats.length ≤ maxCount ∧
      (values.length ≤ maxCount ∧ ∀ v ∈ values, ∀ data, v = some data → data.length < 2 ^ 31) ∧
      results.length ≤ maxCount
  | execute portal _ => IsPlain portal
  | describe _ name => IsPlain name
  | close _ name => IsPlain name
  | saslInitial mechanism data => IsPlain mechanism ∧ data.length < 2 ^ 31
  | _ => True

def IsSendable (m : FrontendMessage) : Prop := m.HasFields ∧ m.encode.length < 2 ^ 31

/-- An empty option name ends the options, and a first option named `database` stands for the
database where there is none. -/
def IsUnambiguous : FrontendMessage → Prop
  | startup _ database options =>
    (∀ option ∈ options, option.1 ≠ "") ∧
      (database = none → ∀ option ∈ options.head?, option.1 ≠ "database")
  | _ => True

/-- What the server takes the message for. -/
def asRead : FrontendMessage → Option FrontendMessage
  | startup user database options =>
    if options.all (·.1 ≠ "") then
      match database, options with
      | none, ("database", name) :: others => some (startup user (some name) others)
      | _, _ => some (startup user database options)
    else none
  | m => some m

variable {m : FrontendMessage} {ms : List FrontendMessage}

theorem asRead_eq_self_iff : m.asRead = some m ↔ m.IsUnambiguous := by
  cases m with
  | startup user database options =>
    simp only [asRead, IsUnambiguous, List.all_eq_true, decide_eq_true_eq]
    split
    · next named =>
      split
      · next name others =>
        constructor
        · intro same
          cases same
        · intro unambiguous
          exact absurd rfl (unambiguous.2 rfl _ rfl)
      · next other =>
        refine ⟨fun _ => ⟨named, ?_⟩, fun _ => rfl⟩
        rintro rfl option first same
        obtain ⟨name, value⟩ := option
        obtain ⟨others, rfl⟩ := List.head?_eq_some_iff.mp first
        exact other value others rfl (same ▸ rfl)
    · next unnamed => exact ⟨nofun, fun unambiguous => absurd unambiguous.1 unnamed⟩
  | _ => exact ⟨fun _ => trivial, fun _ => rfl⟩

theorem encode_eq (m : FrontendMessage) :
    m.encode = (m.tag?.map Bytes.ascii).toList ++ Wire.withLength m.body := by
  cases m <;> rfl

theorem length_encode (m : FrontendMessage) :
    m.encode.length = m.tag?.toList.length + (m.body.length + 4) := by
  rw [encode_eq, List.length_append, Wire.withLength, List.length_append, Bytes.length_bigEndian]
  cases m.tag? <;> simp <;> omega

theorem patchLength_eq (tagged body : Bytes) :
    patchLength tagged.length (tagged ++ Bytes.bigEndian 4 0 ++ body) =
      tagged ++ Wire.withLength body := by
  have length : (tagged ++ Bytes.bigEndian 4 0 ++ body).length - tagged.length =
      body.length + 4 := by
    rw [List.length_append, List.length_append, Bytes.length_bigEndian]
    omega
  have before : (tagged ++ Bytes.bigEndian 4 0 ++ body).take tagged.length = tagged := by
    rw [List.append_assoc, List.take_left]
  have after : (tagged ++ Bytes.bigEndian 4 0 ++ body).drop (tagged.length + 4) = body := by
    rw [List.drop_left']
    rw [List.length_append, Bytes.length_bigEndian]
  rw [patchLength, length, before, after, Wire.withLength, List.append_assoc]

theorem appendTo_eq (buffer : Bytes) (m : FrontendMessage) :
    appendTo buffer m = buffer ++ m.encode := by
  rw [encode_eq, ← List.append_assoc]
  cases m with
  | sslRequest =>
    rw [appendTo]
    simp [tag?, Wire.withLength, body]
  | _ => exact patchLength_eq _ _

theorem foldl_appendTo (buffer : Bytes) (ms : List FrontendMessage) :
    ms.foldl appendTo buffer = buffer ++ ms.flatMap encode := by
  induction ms generalizing buffer with
  | nil => rw [List.foldl_nil, List.flatMap_nil, List.append_nil]
  | cons m rest ih =>
    rw [List.foldl_cons, ih, appendTo_eq, List.flatMap_cons, List.append_assoc]

theorem readBody_body {tag : Char} (fields : m.HasFields) (tagged : m.tag? = some tag) :
    readBody m.due tag m.body = some m := by
  cases m with
  | startup => cases tagged
  | sslRequest => cases tagged
  | password secret =>
    cases tagged
    exact whole?_of_reads (reads_cstring fields).map
  | parse name query types =>
    cases tagged
    rw [body, List.append_assoc]
    exact whole?_of_reads <| (reads_cstring fields.1).bind <| (reads_cstring fields.2.1).bind
      (reads_counted fields.2.2 fun o _ => reads_oid o).map
  | bind portal statement formats values results =>
    cases tagged
    obtain ⟨plainPortal, plainStatement, fewFormats, ⟨fewValues, small⟩, fewResults⟩ := fields
    simp only [body, List.append_assoc]
    exact whole?_of_reads <|
      (reads_cstring plainPortal).bind <| (reads_cstring plainStatement).bind <|
      (reads_counted fewFormats fun f _ => reads_format f).bind <|
      (reads_counted fewValues fun v mem => reads_sized (small v mem)).bind
      (reads_counted fewResults fun f _ => reads_format f).map
  | execute portal maxRows =>
    cases tagged
    exact whole?_of_reads ((reads_cstring fields).bind (reads_int32 maxRows))
  | describe target name =>
    cases tagged
    exact whole?_of_reads ((reads_target target).bind (reads_cstring fields).map)
  | close target name =>
    cases tagged
    exact whole?_of_reads ((reads_target target).bind (reads_cstring fields).map)
  | sync =>
    cases tagged
    rfl
  | terminate =>
    cases tagged
    rfl
  | saslInitial mechanism data =>
    cases tagged
    have small : ∀ d, some data = some d → d.length < 2 ^ 31 := by
      rintro d ⟨⟩
      exact fields.2
    exact whole?_of_reads ((reads_cstring fields.1).bind (reads_sized small).map)
  | saslResponse data =>
    cases tagged
    rfl

def settings (user : String) (database : Option String) (options : List (String × String)) :
    List (String × String) :=
  ("user", user) :: (database.map ("database", ·)).toList ++ options

def settingBytes (setting : String × String) : Bytes :=
  Wire.cstring setting.1 ++ Wire.cstring setting.2

theorem body_startup (user : String) (database : Option String)
    (options : List (String × String)) : (startup user database options).body =
      Bytes.bigEndian 4 protocolVersion ++
        ((settings user database options).flatMap settingBytes ++ [0]) := by
  cases database <;> simp [body, settings, settingBytes] <;> rfl

theorem readSettings_flatMap {pairs : List (String × String)}
    (plain : ∀ pair ∈ pairs, IsPlain pair.1 ∧ IsPlain pair.2) :
    readSettings (pairs.flatMap settingBytes ++ [0]) =
      if pairs.all (·.1 ≠ "") then some pairs else none := by
  induction pairs with
  | nil =>
    have closing : FieldReader.cstring [0] = some ("", []) := by
      have empty : IsPlain "" := by simp [IsPlain]
      exact (reads_cstring empty).all
    rw [List.flatMap_nil, List.nil_append, readSettings]
    split
    · next h => cases closing.symm.trans h
    · next h =>
      cases closing.symm.trans h
      rfl
  | cons pair rest ih =>
    -- The name and the value are read one after the other; an empty name is not the last thing there.
    obtain ⟨name, value⟩ := pair
    obtain ⟨plainName, plainValue⟩ := plain _ List.mem_cons_self
    have more := ih fun p mem => plain p (List.mem_cons_of_mem _ mem)
    have first : FieldReader.cstring
        (((name, value) :: rest).flatMap settingBytes ++ [0]) =
          some (name, Wire.cstring value ++ (rest.flatMap settingBytes ++ [0])) := by
      rw [List.flatMap_cons, settingBytes, List.append_assoc, List.append_assoc]
      exact reads_cstring plainName _
    have second := reads_cstring plainValue (rest.flatMap settingBytes ++ [0])
    rw [readSettings]
    split
    · next h => cases first.symm.trans h
    · next h =>
      cases first.symm.trans h
      by_cases unnamed : name = ""
      · rw [if_pos unnamed, if_neg (by simp [Wire.cstring]), if_neg (by simp [unnamed])]
      · rw [if_neg unnamed]
        split
        · next h => cases second.symm.trans h
        · next h =>
          cases second.symm.trans h
          rw [more]
          by_cases named : rest.all (·.1 ≠ "")
          · rw [if_pos named, if_pos (by simpa [unnamed] using named)]
            rfl
          · rw [if_neg named, if_neg (by simpa [unnamed] using named)]
            rfl

theorem readOpening_body {user : String} {database : Option String}
    {options : List (String × String)} (fields : (startup user database options).HasFields) :
    readOpening (startup user database options).body = (startup user database options).asRead := by
  obtain ⟨plainUser, plainDatabase, plainOptions⟩ := fields
  have plain : ∀ pair ∈ settings user database options, IsPlain pair.1 ∧ IsPlain pair.2 := by
    intro pair mem
    rcases List.mem_append.mp mem with front | mem
    · rcases List.mem_cons.mp front with rfl | mem
      · exact ⟨by simp [IsPlain], plainUser⟩
      · obtain ⟨name, known, rfl⟩ := Option.map_eq_some_iff.mp (Option.mem_toList.mp mem)
        exact ⟨by simp [IsPlain], plainDatabase name known⟩
    · exact plainOptions pair mem
  have version : FieldReader.number 4 (startup user database options).body =
      some (protocolVersion, (settings user database options).flatMap settingBytes ++ [0]) := by
    rw [body_startup]
    exact reads_number (by decide) _
  have named : (settings user database options).all (·.1 ≠ "") = options.all (·.1 ≠ "") := by
    cases database <;> simp [settings]
  rw [readOpening, version]
  dsimp only
  rw [if_neg (by decide), if_pos rfl, readSettings_flatMap plain, named]
  unfold asRead
  dsimp only
  by_cases all : options.all (·.1 ≠ "")
  · rw [if_pos all, if_pos all]
    cases database with
    | some name => rfl
    | none =>
      cases options with
      | nil => rfl
      | cons option others =>
        obtain ⟨name, value⟩ := option
        by_cases same : name = "database"
        · subst same
          rfl
        · simp [settings, same]
  · rw [if_neg all, if_neg all]

theorem reads_frame {content : Bytes} (small : content.length + 4 < 2 ^ 31) :
    Reads readFrame (Wire.withLength content) content := by
  refine (reads_number (by omega)).bind ?_
  rw [if_neg (by omega), Nat.add_sub_cancel]
  exact reads_bytes rfl

theorem read?_opening {content rest : Bytes} (small : content.length + 4 < 2 ^ 31) :
    read? .opening (Wire.withLength content ++ rest) = (readOpening content).map (·, rest) := by
  rw [read?, reads_frame small rest]
  change (readOpening content >>= fun m => some (m, rest)) = _
  cases readOpening content <;> rfl

theorem read?_tagged {due : Due} (later : due ≠ .opening) {tag : UInt8} {content rest : Bytes}
    (small : content.length + 4 < 2 ^ 31) :
    read? due (tag :: (Wire.withLength content ++ rest)) =
      (readBody due (Char.ofNat tag.toNat) content).map (·, rest) := by
  have taken : read? due (tag :: (Wire.withLength content ++ rest)) =
      (readFrame (Wire.withLength content ++ rest) >>= fun p =>
        readBody due (Char.ofNat tag.toNat) p.1 >>= fun m => some (m, p.2)) := by
    cases due with
    | opening => exact absurd rfl later
    | _ => rfl
  rw [taken, reads_frame small rest]
  change (readBody due (Char.ofNat tag.toNat) content >>= fun m => some (m, rest)) = _
  cases readBody due (Char.ofNat tag.toNat) content <;> rfl

theorem readOpening_sslRequest : readOpening sslRequest.body = some sslRequest := by
  have code : FieldReader.number 4 sslRequest.body = some (sslRequestCode, []) :=
    (reads_number (by decide)).all
  rw [readOpening, code]
  rfl

theorem of_tagged {tag : Char} (tagged : m.tag? = some tag) :
    m.due ≠ .opening ∧ Char.ofNat (Bytes.ascii tag).toNat = tag ∧ m.asRead = some m := by
  cases m with
  | startup => cases tagged
  | sslRequest => cases tagged
  | _ =>
    cases tagged
    exact ⟨nofun, by decide, rfl⟩

theorem read?_encode (sendable : m.IsSendable) (rest : Bytes) :
    read? m.due (m.encode ++ rest) = m.asRead.map (·, rest) := by
  obtain ⟨fields, short⟩ := sendable
  have small : m.body.length + 4 < 2 ^ 31 := by
    rw [length_encode] at short
    omega
  cases tagged : m.tag? with
  | none =>
    have bytes : m.encode = Wire.withLength m.body := by
      rw [encode_eq, tagged]
      rfl
    rw [bytes]
    cases m with
    | startup user database options =>
      rw [← readOpening_body fields]
      exact read?_opening small
    | sslRequest =>
      have known : sslRequest.asRead = readOpening sslRequest.body := readOpening_sslRequest.symm
      rw [known]
      exact read?_opening small
    | _ => cases tagged
  | some tag =>
    obtain ⟨later, letter, same⟩ := of_tagged tagged
    have bytes : m.encode = Bytes.ascii tag :: Wire.withLength m.body := by
      rw [encode_eq, tagged]
      rfl
    rw [bytes, List.cons_append, read?_tagged later small, letter, readBody_body fields tagged,
      same]

theorem readAll?_flatMap (sendable : ∀ m ∈ ms, m.IsSendable) :
    readAll? (ms.map due) (ms.flatMap encode) = some ms ↔ ∀ m ∈ ms, m.IsUnambiguous := by
  induction ms with
  | nil => exact ⟨fun _ m mem => (nomatch mem), fun _ => rfl⟩
  | cons m rest ih =>
    have others := ih fun n mem => sendable n (List.mem_cons_of_mem _ mem)
    have first := read?_encode (sendable m List.mem_cons_self) (rest.flatMap encode)
    rw [List.map_cons, List.flatMap_cons, readAll?, first, List.forall_mem_cons, ← others,
      ← asRead_eq_self_iff]
    cases m.asRead with
    | none => simp
    | some n =>
      change (readAll? (rest.map due) (rest.flatMap encode) >>= fun ns => some (n :: ns)) =
        some (m :: rest) ↔ _
      cases readAll? (rest.map due) (rest.flatMap encode) <;> simp

/-- A buffer to which messages are appended holds their bytes one after the other, each length word
says how far it is from there to the end of its message, and a server that knows what is due takes
the messages off the buffer again, unless a startup message can be taken for something else. -/
theorem stream_reads_back_iff (sendable : ∀ m ∈ ms, m.IsSendable) :
    (∀ buffer, ms.foldl appendTo buffer = buffer ++ ms.flatMap encode) ∧
      (∀ before m after, ms = before ++ m :: after →
        let start := (before.flatMap encode).length + m.tag?.toList.length
        (Bytes.toInt32 (((ms.foldl appendTo []).drop start).take 4)).toInt + start =
          ((before ++ [m]).flatMap encode).length) ∧
      (readAll? (ms.map due) (ms.foldl appendTo []) = some ms ↔ ∀ m ∈ ms, m.IsUnambiguous) := by
  refine ⟨fun buffer => foldl_appendTo buffer ms, ?_, ?_⟩
  · rintro before m after rfl
    have short := (sendable m (List.mem_append_right _ List.mem_cons_self)).2
    have length := length_encode m
    have front : (before.flatMap encode ++ (m.tag?.map Bytes.ascii).toList).length =
        (before.flatMap encode).length + m.tag?.toList.length := by
      cases m.tag? <;> simp
    have word : (((before ++ m :: after).foldl appendTo []).drop
        ((before.flatMap encode).length + m.tag?.toList.length)).take 4 =
          Bytes.bigEndian 4 (m.body.length + 4) := by
      rw [foldl_appendTo, List.nil_append, List.flatMap_append, List.flatMap_cons, encode_eq,
        List.append_assoc, ← List.append_assoc, List.drop_left' front, Wire.withLength,
        List.append_assoc, List.take_left' (Bytes.length_bigEndian 4 _)]
    dsimp only
    rw [word, Bytes.toInt32_bigEndian (by omega), List.flatMap_append, List.length_append,
      List.flatMap_singleton]
    omega
  · rw [foldl_appendTo, List.nil_append]
    exact readAll?_flatMap sendable

theorem stream_reads_back_iff_nulls :
    let ms := [startup "u" (some "d") [("a", "")],
      bind "" "s" [.binary, .text] [none, some []] [.binary], saslInitial "SCRAM" [0, 1], terminate]
    (∀ m ∈ ms, m.IsSendable) ∧ readAll? (ms.map due) (ms.foldl appendTo []) = some ms := by
  intro ms
  have fields : ∀ m ∈ ms, m.HasFields := by simp [ms, HasFields, IsPlain, maxCount]
  have short : ∀ m ∈ ms, m.encode.length < 2 ^ 31 := by decide +kernel
  have sendable : ∀ m ∈ ms, m.IsSendable := fun m mem => ⟨fields m mem, short m mem⟩
  have unambiguous : ∀ m ∈ ms, m.IsUnambiguous := by simp [ms, IsUnambiguous]
  exact ⟨sendable, (stream_reads_back_iff sendable).2.2.mpr unambiguous⟩

/-- Whatever the reader, a database that is named among the options cannot be told from one that is
named in its place. -/
theorem no_reader_recovers_startup :
    ¬ ∃ reader : List Due → Bytes → Option (List FrontendMessage),
      ∀ ms : List FrontendMessage, (∀ m ∈ ms, m.IsSendable) →
        reader (ms.map due) (ms.foldl appendTo []) = some ms := by
  rintro ⟨reader, recovers⟩
  let among := startup "u" none [("database", "d")]
  let placed := startup "u" (some "d") []
  have fields : ∀ m ∈ [among, placed], m.HasFields := by
    simp [among, placed, HasFields, IsPlain]
  have short : ∀ m ∈ [among, placed], m.encode.length < 2 ^ 31 := by decide +kernel
  have sendable : ∀ m ∈ [among, placed], m.IsSendable := fun m mem => ⟨fields m mem, short m mem⟩
  have first := recovers [among] (List.forall_mem_singleton.mpr (sendable among (by simp)))
  have second := recovers [placed] (List.forall_mem_singleton.mpr (sendable placed (by simp)))
  have same : [among].foldl appendTo [] = [placed].foldl appendTo [] := rfl
  rw [same] at first
  exact absurd (first.symm.trans second) (by simp [among, placed])

end FrontendMessage

end PgPipeline
