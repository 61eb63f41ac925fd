import PgPipeline.Connection.Startup
import PgPipeline.Proofs.ByteQueue
import PgPipeline.Proofs.Configuration
import PgPipeline.Proofs.Escapes
import PgPipeline.Proofs.FrontendRoundTrip

namespace PgPipeline

open BackendMessage (IsPlain)

namespace FieldReader

theorem dropWhile_nonzero {data : Bytes} (closed : 0 ∈ data) :
    data.dropWhile (· != 0) = 0 :: (data.dropWhile (· != 0)).drop 1 := by
  induction data with
  | nil => cases closed
  | cons b rest ih =>
    rw [List.dropWhile_cons]
    split
    · next nonzero =>
      refine ih ((List.mem_cons.mp closed).resolve_left fun same => ?_)
      exact bne_iff_ne.mp nonzero same.symm
    · next zero =>
      have zero : b = 0 := by simpa using zero
      rw [zero]
      rfl

theorem of_cstring {data rest : Bytes} {text : String} (read : cstring data = some (text, rest)) :
    IsPlain text ∧ data = Wire.cstring text ++ rest := by
  unfold cstring at read
  split at read
  · next closed =>
    split at read
    · next s decoded =>
      cases read
      have bytes := Utf8.decode_eq_ok_iff.mp decoded
      constructor
      · rw [IsPlain, ← Utf8.zero_not_mem_encode_iff, bytes]
        intro zero
        have nonzero := List.all_takeWhile (p := (· != 0)) (l := data)
        exact absurd (List.all_eq_true.mp nonzero 0 zero) (by decide)
      · have behind := dropWhile_nonzero (List.contains_iff_mem.mp closed)
        rw [Wire.cstring, bytes, List.append_assoc, List.singleton_append, ← behind,
          List.takeWhile_append_dropWhile]
    · cases read
  · cases read

theorem readFrame_withLength_iff {content body : Bytes} :
    FrontendMessage.readFrame (Wire.withLength content) = some (body, []) ↔
      body = content ∧ content.length + 4 < 2 ^ 32 := by
  have word : number 4 (Wire.withLength content) =
      some ((content.length + 4) % 256 ^ 4, content) := by
    have read := (reads_bytes (Bytes.length_bigEndian 4 (content.length + 4))).map (f := Bytes.toNat)
    rw [Bytes.toNat_bigEndian] at read
    exact read content
  have taken : FrontendMessage.readFrame (Wire.withLength content) =
      (if (content.length + 4) % 256 ^ 4 < 4 then failure
        else bytes ((content.length + 4) % 256 ^ 4 - 4) : FieldReader Bytes) content := by
    have run : FrontendMessage.readFrame (Wire.withLength content) =
        (number 4 (Wire.withLength content) >>= fun p =>
          (if p.1 < 4 then failure else bytes (p.1 - 4) : FieldReader Bytes) p.2) := rfl
    rw [run, word]
    rfl
  rw [taken]
  constructor
  · intro read
    split at read
    · cases read
    · next long =>
      unfold bytes at read
      split at read
      · cases read
      · simp only [Option.some.injEq, Prod.mk.injEq, List.drop_eq_nil_iff] at read
        have fits : (content.length + 4) % 256 ^ 4 = content.length + 4 := by omega
        refine ⟨?_, by omega⟩
        rw [← read.1, List.take_of_length_le (by omega)]
  · rintro ⟨rfl, short⟩
    have fits : (body.length + 4) % 256 ^ 4 = body.length + 4 := by omega
    rw [fits, if_neg (by omega), Nat.add_sub_cancel]
    exact (reads_bytes rfl).all

end FieldReader

namespace FrontendMessage

/-- Settings are read from the bytes that they are written as and from no others. -/
theorem readSettings_eq_some_iff {data : Bytes} {pairs : List (String × String)} :
    readSettings data = some pairs ↔
      (∀ pair ∈ pairs, IsPlain pair.1 ∧ IsPlain pair.2 ∧ pair.1 ≠ "") ∧
        data = pairs.flatMap settingBytes ++ [0] := by
  constructor
  · intro read
    fun_induction readSettings data generalizing pairs
    case case2 data closing =>
      cases read
      exact ⟨nofun, (FieldReader.of_cstring closing).2⟩
    case case5 data name afterName first named value rest second shorter ih =>
      obtain ⟨others, more, rfl⟩ := Option.map_eq_some_iff.mp read
      obtain ⟨fields, last⟩ := ih more
      obtain ⟨plainName, start⟩ := FieldReader.of_cstring first
      obtain ⟨plainValue, next⟩ := FieldReader.of_cstring second
      refine ⟨List.forall_mem_cons.mpr ⟨⟨plainName, plainValue, named⟩, fields⟩, ?_⟩
      rw [List.flatMap_cons, settingBytes, start, next, last, List.append_assoc, List.append_assoc]
    all_goals cases read
  · rintro ⟨fields, rfl⟩
    have named : pairs.all (·.1 ≠ "") := by
      simpa only [List.all_eq_true, decide_eq_true_eq] using fun p mem => (fields p mem).2.2
    rw [readSettings_flatMap fun p mem => ⟨(fields p mem).1, (fields p mem).2.1⟩, if_pos named]

variable {user name : String} {options : List (String × String)}

theorem readOpening_body_iff :
    readOpening (startup user (some name) options).body = some (startup user (some name) options) ↔
      ∀ pair ∈ settings user (some name) options, IsPlain pair.1 ∧ IsPlain pair.2 ∧ pair.1 ≠ "" := by
  have version : FieldReader.number 4 (startup user (some name) options).body =
      some (protocolVersion, (settings user (some name) options).flatMap settingBytes ++ [0]) := by
    rw [body_startup]
    exact FieldReader.reads_number (by decide) _
  rw [readOpening, version]
  dsimp only
  rw [if_neg (by decide), if_pos rfl]
  constructor
  · intro read
    split at read
    · next pairs =>
      cases read
      exact (readSettings_eq_some_iff.mp pairs).1
    · cases read
    · cases read
  · intro fields
    rw [readSettings_eq_some_iff.mpr ⟨fields, rfl⟩]
    rfl

theorem read?_startup_iff {packet : Bytes}
    (same : packet = (startup user (some name) options).encode) :
    read? .opening packet = some (startup user (some name) options, []) ↔
      (∀ pair ∈ settings user (some name) options, IsPlain pair.1 ∧ IsPlain pair.2 ∧ pair.1 ≠ "") ∧
        packet.length < 2 ^ 32 := by
  have framed : packet = Wire.withLength (startup user (some name) options).body := same
  have length : packet.length = (startup user (some name) options).body.length + 4 := by
    rw [framed, Wire.withLength, List.length_append, Bytes.length_bigEndian, Nat.add_comm]
  have run : read? .opening packet =
      (readFrame packet >>= fun p => readOpening p.1 >>= fun m => some (m, p.2)) := rfl
  rw [run, length, ← readOpening_body_iff]
  constructor
  · intro read
    obtain ⟨⟨body, rest⟩, frame, read⟩ := Option.bind_eq_some_iff.mp read
    obtain ⟨m, opened, read⟩ := Option.bind_eq_some_iff.mp read
    cases read
    rw [framed] at frame
    obtain ⟨rfl, short⟩ := FieldReader.readFrame_withLength_iff.mp frame
    exact ⟨opened, short⟩
  · rintro ⟨opened, short⟩
    have frame : readFrame packet = some ((startup user (some name) options).body, []) := by
      rw [framed]
      exact FieldReader.readFrame_withLength_iff.mpr ⟨rfl, short⟩
    refine Option.bind_eq_some_iff.mpr ⟨_, frame, ?_⟩
    exact Option.bind_eq_some_iff.mpr ⟨_, opened, rfl⟩

end FrontendMessage

/-- Every text of the startup packet can be written in it, and every option has a name. -/
structure Config.IsExpressible (c : Config) : Prop where
  user : IsPlain c.user
  database : IsPlain c.database
  applicationName : ∀ name, c.applicationName = some name → IsPlain name
  options : ∀ option ∈ c.startupOptions,
    IsPlain option.1 ∧ IsPlain option.2 ∧ option.1 ≠ ""

theorem Config.isExpressible_iff {c : Config} : c.IsExpressible ↔
    ∀ pair ∈ FrontendMessage.settings c.user (some c.database) c.sessionOptions,
      IsPlain pair.1 ∧ IsPlain pair.2 ∧ pair.1 ≠ "" := by
  have known : ∀ name ∈ ["user", "database", "application_name"], IsPlain name ∧ name ≠ "" := by
    simp [IsPlain]
  simp only [List.forall_mem_cons] at known
  obtain ⟨⟨userPlain, userNamed⟩, ⟨databasePlain, databaseNamed⟩, ⟨plain, named⟩, -⟩ := known
  constructor
  · rintro ⟨user, database, application, options⟩ pair mem
    simp only [FrontendMessage.settings, sessionOptions, Option.map_some, Option.toList_some,
      List.mem_append, List.mem_cons, List.not_mem_nil, or_false, Option.mem_toList,
      Option.map_eq_some_iff] at mem
    rcases mem with (rfl | rfl) | ⟨name, set, rfl⟩ | mem
    · exact ⟨userPlain, user, userNamed⟩
    · exact ⟨databasePlain, database, databaseNamed⟩
    · exact ⟨plain, application name set, named⟩
    · exact options pair mem
  · intro fields
    refine ⟨(fields ("user", c.user) ?_).2.1, (fields ("database", c.database) ?_).2.1,
      fun name set => (fields ("application_name", name) ?_).2.1, fun option mem => fields option ?_⟩
    · simp [FrontendMessage.settings]
    · simp [FrontendMessage.settings]
    · simp [FrontendMessage.settings, sessionOptions, set]
    · simp [FrontendMessage.settings, sessionOptions, mem]

namespace Config

def withSettingInUser : Config :=
  { default with host := "h", user := "u\x00replication\x00true" }

theorem ofUrl_settingInUser :
    ofUrl "postgres://u%00replication%00true@h" = .ok withSettingInUser := by
  let credentials := "u%00replication%00true".toList
  have user : Percent.decode credentials = .ok withSettingInUser.user :=
    Percent.decode_eq_ok_iff.mpr (by decide)
  have applied : default.applyCredentials credentials =
      .ok { default with user := withSettingInUser.user } := by
    have filled : ¬ credentials.isEmpty := by decide
    have whole : Text.cutFirst ':' credentials = (credentials, none) := by decide
    rw [applyCredentials, if_neg filled, whole]
    dsimp only
    rw [user]
    rfl
  have scheme : afterScheme? "postgres://u%00replication%00true@h".toList =
      some "u%00replication%00true@h".toList := by decide
  have parts : Text.cutLast '@' "u%00replication%00true@h".toList =
      (some credentials, ['h']) := by decide
  rw [ofUrl, scheme]
  dsimp only
  rw [parts]
  dsimp only [Option.getD_some]
  rw [applied]
  rfl

end Config

namespace Connection

variable {ρ : Type}

open FrontendMessage (read?)

theorem sendStartup_outbound (k : Connection ρ) : k.sendStartup.outbound.toBytes =
    k.outbound.toBytes ++ k.config.startupMessage.encode := by
  have piece : k.sendStartup.outbound =
      k.outbound.pushPiece (FrontendMessage.encodeAll [k.config.startupMessage]) := by
    unfold sendStartup moveTo
    split <;> rfl
  rw [piece, ByteQueue.toBytes_pushPiece, FrontendMessage.encodeAll, List.flatMap_singleton]

/-- However a configuration was made, its options are in the order of their names, and a connection
sends one packet for it. A server reads from that packet the user, the database, the application name
if one is set and these options exactly when no text among them holds a zero, no option is without a
name and the length of the packet fits its word. -/
theorem startup_reads_back_iff {c : Config} (built : c.Built) :
    KeyOrder.Ordered c.startupOptions ∧
      ∃ packet,
        (∀ k : Connection ρ, k.config = c →
          k.sendStartup.outbound.toBytes = k.outbound.toBytes ++ packet) ∧
        (read? .opening packet =
            some (.startup c.user (some c.database)
              ((c.applicationName.map fun name => ("application_name", name)).toList ++
                c.startupOptions), []) ↔
          c.IsExpressible ∧ packet.length < 2 ^ 32) := by
  refine ⟨built.ordered, c.startupMessage.encode, ?_, ?_⟩
  · rintro k rfl
    exact k.sendStartup_outbound
  · rw [Config.isExpressible_iff]
    exact FrontendMessage.read?_startup_iff rfl

theorem startup_reads_back_iff_options :
    let c := ((Config.forHost "h" 5432).withStartupOption "search_path" "app").withStartupOption
      "geqo" "off"
    c.Built ∧ read? .opening (start c fun _ => [] : Connection Unit).sendStartup.outbound.toBytes =
      some (.startup "postgres" (some "postgres")
        [("application_name", "pgmux"), ("geqo", "off"), ("search_path", "app")], []) := by
  intro c
  have built : c.Built := .setStartupOption (.setStartupOption (.forHost "h" 5432) _ _) _ _
  obtain ⟨-, packet, sent, reads⟩ := startup_reads_back_iff (ρ := Unit) built
  have sent : (start c fun _ => [] : Connection Unit).sendStartup.outbound.toBytes = packet :=
    sent _ rfl
  have expressible : c.IsExpressible := by
    have texts : IsPlain "postgres" ∧ IsPlain "pgmux" := by simp [IsPlain]
    have options : c.startupOptions = [("geqo", "off"), ("search_path", "app")] := by decide
    refine ⟨texts.1, texts.1, ?_, ?_⟩
    · rintro name ⟨⟩
      exact texts.2
    · rw [options]
      simp [IsPlain]
  have short : packet.length < 2 ^ 32 := by
    rw [← sent]
    decide
  refine ⟨built, ?_⟩
  rw [sent]
  exact reads.mpr ⟨expressible, short⟩

/-- What follows a zero in a user name is taken for settings of their own, though the configuration
is valid. -/
theorem startup_takes_settings_from_user : ∃ c : Config,
    Config.ofUrl "postgres://u%00replication%00true@h" = .ok c ∧ c.validate = .ok () ∧
      c.user = "u\x00replication\x00true" ∧ c.startupOptions = [] ∧
      read? .opening (start c fun _ => [] : Connection Unit).sendStartup.outbound.toBytes =
        some (.startup "u" none [("replication", "true"), ("database", "postgres"),
          ("application_name", "pgmux")], []) := by
  refine ⟨Config.withSettingInUser, Config.ofUrl_settingInUser, rfl, rfl, rfl, ?_⟩
  let taken := FrontendMessage.startup "u" none
    [("replication", "true"), ("database", "postgres"), ("application_name", "pgmux")]
  have bytes : Config.withSettingInUser.startupMessage.encode = taken.encode := by decide
  have sendable : taken.IsSendable :=
    ⟨by simp [taken, FrontendMessage.HasFields, IsPlain], by decide⟩
  have read := FrontendMessage.read?_encode sendable []
  rw [List.append_nil] at read
  rw [sendStartup_outbound]
  change read? .opening Config.withSettingInUser.startupMessage.encode = _
  rw [bytes]
  exact read

end Connection

end PgPipeline
