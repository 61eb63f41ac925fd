import PgPipeline.Auth.Scram.Server
import PgPipeline.Proofs.Reading
import PgPipeline.Proofs.Utf8

namespace PgPipeline

theorem Digest.xorBytes_xorBytes {a b : Bytes} (same : a.length = b.length) :
    xorBytes (xorBytes a b) b = a := by
  induction a generalizing b with
  | nil => rfl
  | cons x a ih =>
    cases b with
    | nil => cases same
    | cons y b =>
      simp only [xorBytes, List.zipWith_cons_cons, List.cons.injEq] at ih ⊢
      refine ⟨?_, ih (Nat.succ_inj.mp same)⟩
      rw [UInt8.xor_assoc, UInt8.xor_self, UInt8.xor_zero]

theorem Utf8.length_encodeChars_le (cs : List Char) : (encodeChars cs).length ≤ 4 * cs.length := by
  induction cs with
  | nil => exact Nat.le_refl 0
  | cons c cs ih =>
    have four : (encodeChar c).length ≤ 4 := by
      unfold encodeChar
      grind
    rw [encodeChars, List.flatMap_cons, List.length_append, List.length_cons, ← encodeChars]
    omega

theorem Base64.length_encode_le (data : Bytes) : (encode data).length ≤ 4 * data.length := by
  fun_induction encode data <;> simp only [List.length_cons, List.length_nil] at * <;> omega

theorem Utf8.decode_encodeChars (cs : List Char) :
    decode (encodeChars cs) = .ok (String.ofList cs) := by
  have whole := decode_encode (String.ofList cs)
  rwa [encode, String.toList_ofList] at whole

namespace BindingMode

def data : BindingMode → Bytes
  | endPoint data => data
  | _ => []

theorem bindingData_eq (mode : BindingMode) :
    mode.bindingData = Utf8.encodeChars mode.header ++ mode.data := by
  cases mode <;> simp [bindingData, data]

theorem exists_header (mode : BindingMode) :
    ∃ flag, Scram.isBindingFlag flag ∧ ',' ∉ flag ∧ mode.header = flag ++ ',' :: [','] := by
  cases mode with
  | unsupported => exact ⟨['n'], by decide, by decide, rfl⟩
  | notOffered => exact ⟨['y'], by decide, by decide, rfl⟩
  | endPoint data => exact ⟨"p=tls-server-end-point".toList, by decide, by decide, rfl⟩

end BindingMode

namespace Scram

theorem comma_not_mem_escapeName (cs : List Char) : ',' ∉ escapeName cs := by
  induction cs with
  | nil => simp [escapeName]
  | cons c cs ih =>
    simp only [escapeName, List.flatMap_cons, List.mem_append, not_or] at ih ⊢
    refine ⟨?_, ih⟩
    split
    · decide
    split
    · decide
    · next other => simpa using Ne.symm other

theorem unescapeName_escapeName (cs : List Char) : unescapeName (escapeName cs) = some cs := by
  induction cs with
  | nil => rfl
  | cons c cs ih =>
    rw [escapeName, List.flatMap_cons, ← escapeName]
    split
    · next equals => simp [unescapeName, ih, equals]
    split
    · next comma => simp [unescapeName, ih, comma]
    · next equals comma =>
      rw [List.singleton_append, unescapeName]
      · simp [ih, equals, comma]
      · simp [equals]
      · simp [equals]

theorem comma_not_mem_base64 {letter : Char} (other : ',' ≠ letter) (data : Bytes) :
    ',' ∉ letter :: '=' :: Base64.encode data := by
  have body : ',' ∉ Base64.encode data := Base64.not_mem_encode rfl (by decide) data
  simp [body, other]

namespace Challenge

theorem read_nonce (d : Challenge) (value : List Char) :
    d.read ('r' :: '=' :: value) = .ok { d with nonce := some value } := rfl

theorem read_salt (d : Challenge) (salt : Bytes) :
    d.read ('s' :: '=' :: Base64.encode salt) = .ok { d with salt := some salt } := by
  simp [Challenge.read, attribute?, Base64.decode?_encode]

theorem read_count (d : Challenge) {count : Nat} (fits : count < 2 ^ 32) :
    d.read ('i' :: '=' :: (toString count).toList) = .ok { d with iterations := some count } := by
  have within : (count : Int) ≤ (Number.IntegerRange.unsigned 32).high := by
    simp only [Number.IntegerRange.unsigned]
    omega
  have reads := Number.IntegerRange.read_toString (by decide) within
  generalize (toString count).toList = value at reads
  simp [Challenge.read, attribute?, reads]

end Challenge

namespace Client

variable {c : Client} {s : Server} {channel : Bytes}

def opening (c : Client) : ClientFirst := ⟨c.binding.header, c.firstBare, c.user.toList, c.nonce⟩

theorem ofBytes?_first (plain : ',' ∉ c.nonce) :
    ClientFirst.ofBytes? (Utf8.encodeChars c.first) = some c.opening := by
  obtain ⟨flag, known, flagPlain, header⟩ := c.binding.exists_header
  have bare : c.firstBare =
      ('n' :: '=' :: escapeName c.user.toList) ++ ',' :: ('r' :: '=' :: c.nonce) := rfl
  have message : c.first = flag ++ ',' :: ([] ++ ',' :: c.firstBare) := by simp [first, header]
  have name : ',' ∉ 'n' :: '=' :: escapeName c.user.toList := by simp [comma_not_mem_escapeName]
  have nonce : ',' ∉ 'r' :: '=' :: c.nonce := by simp [plain]
  rw [ClientFirst.ofBytes?, Utf8.decode_encodeChars]
  dsimp only
  rw [String.toList_ofList, ClientFirst.read?, message, Text.cutFirst_append flagPlain]
  simp only [Option.bind_eq_bind, Option.bind_some, Text.cutFirst_append List.not_mem_nil, true_or]
  rw [bare, Text.cutFirst_append name]
  simp only [Option.bind_some, Text.cutFirst_eq_none nonce]
  simp [attribute?, unescapeName_escapeName, known, opening, header, bare]

def agreed (c : Client) (s : Server) : Exchange :=
  ⟨Digest.stretchPassword (Utf8.encode c.password) s.credentials.salt s.credentials.iterations,
    Utf8.encodeChars (c.transcript (s.first c.opening) (c.nonce ++ s.nonce))⟩

def closing (c : Client) (s : Server) : ClientFinal :=
  ⟨c.finalWithoutProof (c.nonce ++ s.nonce), c.binding.bindingData, c.nonce ++ s.nonce,
    (c.agreed s).proof⟩

def reply (c : Client) (s : Server) : List Char :=
  (c.closing s).withoutProof ++ ',' :: 'p' :: '=' :: Base64.encode (c.closing s).proof

theorem transcript_closing : s.transcript c.opening (c.closing s) = (c.agreed s).transcript := rfl

theorem readAll_first (plain : ',' ∉ c.nonce) (plainServer : ',' ∉ s.nonce)
    (fits : s.credentials.iterations < 2 ^ 32) :
    (Text.splitAll ',' (s.first c.opening)).foldlM Challenge.read ⟨none, none, none⟩ =
      .ok ⟨some (c.nonce ++ s.nonce), some s.credentials.salt,
        some s.credentials.iterations⟩ := by
  have message : s.first c.opening = ('r' :: '=' :: (c.nonce ++ s.nonce)) ++
      ',' :: (('s' :: '=' :: Base64.encode s.credentials.salt) ++
        ',' :: ('i' :: '=' :: (toString s.credentials.iterations).toList)) := by
    simp [Server.first, opening]
  have nonce : ',' ∉ 'r' :: '=' :: (c.nonce ++ s.nonce) := by simp [plain, plainServer]
  have count : ',' ∉ 'i' :: '=' :: (toString s.credentials.iterations).toList := by
    intro mem
    rcases List.mem_cons.mp mem with same | mem
    · exact absurd same (by decide)
    rcases List.mem_cons.mp mem with same | mem
    · exact absurd same (by decide)
    · exact absurd (Number.isDigit_of_mem_toString mem) (by decide)
  rw [message, Text.splitAll_append nonce,
    Text.splitAll_append (comma_not_mem_base64 (by decide) _), Text.splitAll_eq_singleton count]
  simp only [List.foldlM_cons, List.foldlM_nil, Challenge.read_nonce, Challenge.read_salt,
    Challenge.read_count _ fits]
  rfl

theorem receiveFirst_first (plain : ',' ∉ c.nonce) (plainServer : ',' ∉ s.nonce)
    (fresh : s.nonce ≠ []) (positive : 0 < s.credentials.iterations)
    (fits : s.credentials.iterations < 2 ^ 32) :
    c.receiveFirst (Utf8.encodeChars (s.first c.opening)) =
      .ok (c.reply s, { c with exchange := some (c.agreed s) }) := by
  have accepted : c.accept ⟨some (c.nonce ++ s.nonce), some s.credentials.salt,
      some s.credentials.iterations⟩ =
        .ok (c.nonce ++ s.nonce, s.credentials.salt, s.credentials.iterations) := by
    simp [accept, Nat.ne_of_gt positive, fresh]
  rw [receiveFirst, Utf8.decode_encodeChars]
  simp only [String.toList_ofList, readAll_first plain plainServer fits, bind, Except.bind,
    accepted]
  rfl

theorem ofBytes?_reply (plain : ',' ∉ c.nonce) (plainServer : ',' ∉ s.nonce) :
    ClientFinal.ofBytes? (Utf8.encodeChars (c.reply s)) = some (c.closing s) := by
  have nonce : ',' ∉ 'r' :: '=' :: (c.nonce ++ s.nonce) := by simp [plain, plainServer]
  have front : (c.closing s).withoutProof = ('c' :: '=' :: Base64.encode c.binding.bindingData) ++
      ',' :: ('r' :: '=' :: (c.nonce ++ s.nonce)) := rfl
  rw [ClientFinal.ofBytes?, Utf8.decode_encodeChars]
  dsimp only
  rw [String.toList_ofList, ClientFinal.read?, reply,
    Text.cutLast_append (comma_not_mem_base64 (by decide) _)]
  simp only [Option.bind_eq_bind, Option.bind_some]
  rw [front, Text.cutFirst_append (comma_not_mem_base64 (by decide) _)]
  simp only [Option.bind_some, Text.cutFirst_eq_none nonce]
  simp [attribute?, Base64.decode?_encode, closing, finalWithoutProof]

theorem binding_closing (sameChannel : ∀ data, c.binding = .endPoint data → channel = data) :
    (c.closing s).binding = Server.boundData channel c.opening := by
  change c.binding.bindingData = _
  rw [BindingMode.bindingData_eq, Server.boundData, opening]
  cases mode : c.binding with
  | unsupported => rfl
  | notOffered => rfl
  | endPoint data => rw [sameChannel data mode]; rfl

variable {salt : Bytes} {iterations : Nat}

theorem saltedPassword_agreed (shares : s.credentials = .ofPassword c.password salt iterations) :
    (c.agreed s).saltedPassword =
      Digest.stretchPassword (Utf8.encode c.password) salt iterations := by
  simp only [agreed, shares, Credentials.ofPassword]

/-- The server undoes the client's signature and finds the client's key. -/
theorem sha256_recoveredKey (shares : s.credentials = .ofPassword c.password salt iterations) :
    Digest.sha256 (s.recoveredKey c.opening (c.closing s)) = s.credentials.storedKey := by
  have stored : s.credentials.storedKey =
      Digest.sha256 (clientKey (c.agreed s).saltedPassword) := by
    simp only [saltedPassword_agreed shares, shares, Credentials.ofPassword]
  have hidden : (c.closing s).proof = (c.agreed s).proof := rfl
  rw [Server.recoveredKey, transcript_closing, stored, hidden, Exchange.proof]
  rw [Digest.xorBytes_xorBytes]
  rw [clientKey, Digest.length_hmac, Digest.length_hmac]

theorem final_closing (shares : s.credentials = .ofPassword c.password salt iterations) :
    s.final c.opening (c.closing s) = 'v' :: '=' :: Base64.encode (c.agreed s).signature := by
  have server : s.credentials.serverKey = serverKey (c.agreed s).saltedPassword := by
    simp only [saltedPassword_agreed shares, shares, Credentials.ofPassword]
  rw [Server.final, transcript_closing, server, Exchange.signature]

theorem verifyFinal_signature {x : Exchange} {signature : Bytes} (agreed : c.exchange = some x)
    (right : x.signature = signature) :
    c.verifyFinal (Utf8.encodeChars ('v' :: '=' :: Base64.encode signature)) = .ok () := by
  have absent : attribute? 'e' ('v' :: '=' :: Base64.encode signature) = none := rfl
  have present : attribute? 'v' ('v' :: '=' :: Base64.encode signature) =
      some (Base64.encode signature) := rfl
  have plain : ',' ∉ 'v' :: '=' :: Base64.encode signature := comma_not_mem_base64 (by decide) _
  rw [verifyFinal, Utf8.decode_encodeChars]
  simp only [String.toList_ofList, absent, Text.splitAll_eq_singleton plain, List.head?_cons,
    Option.bind_some, present, Base64.decode?_encode, agreed, right, if_true]

/-- An exchange goes through: the server reads in the first message who the client is, the last
message repeats what is bound and proves the password, and the client accepts the server's
signature. -/
def CompletesWith (c : Client) (s : Server) (channel : Bytes) : Prop :=
  ∃ first reply proven final,
    (ClientFirst.ofBytes? (Utf8.encodeChars c.first) = some first ∧
      first.user = c.user.toList ∧ first.nonce = c.nonce ∧ first.header = c.binding.header) ∧
    c.receiveFirst (Utf8.encodeChars (s.first first)) = .ok (reply, proven) ∧
    (ClientFinal.ofBytes? (Utf8.encodeChars reply) = some final ∧
      final.binding = Utf8.encodeChars first.header ++ c.binding.data ∧
      Digest.sha256 (Digest.xorBytes final.proof
        (Digest.hmac s.credentials.storedKey (s.transcript first final))) =
          s.credentials.storedKey ∧
      s.accepts channel first final = true) ∧
    proven.verifyFinal (Utf8.encodeChars (s.final first final)) = .ok ()

theorem completes_with_honest_server {serverNonce : List Char} (plain : ',' ∉ c.nonce)
    (plainServer : ',' ∉ serverNonce) (fresh : serverNonce ≠ []) (positive : 0 < iterations)
    (fits : iterations < 2 ^ 32)
    (sameChannel : ∀ data, c.binding = .endPoint data → channel = data) :
    c.CompletesWith ⟨.ofPassword c.password salt iterations, serverNonce⟩ channel := by
  generalize server : (⟨.ofPassword c.password salt iterations, serverNonce⟩ : Server) = s
  have shares : s.credentials = .ofPassword c.password salt iterations := by rw [← server]
  have count : s.credentials.iterations = iterations := by rw [shares, Credentials.ofPassword]
  have nonce : s.nonce = serverNonce := by rw [← server]
  rw [← nonce] at plainServer fresh
  rw [← count] at positive fits
  have bound : (c.closing s).binding = Server.boundData channel c.opening :=
    binding_closing sameChannel
  have proof := sha256_recoveredKey shares
  refine ⟨c.opening, c.reply s, { c with exchange := some (c.agreed s) }, c.closing s,
    ⟨ofBytes?_first plain, rfl, rfl, rfl⟩, receiveFirst_first plain plainServer fresh positive fits,
    ⟨ofBytes?_reply plain plainServer, c.binding.bindingData_eq, proof, ?_⟩, ?_⟩
  · have repeated : (c.closing s).nonce = c.opening.nonce ++ s.nonce := rfl
    simp [Server.accepts, proof, bound, repeated]
  · rw [final_closing shares]
    exact verifyFinal_signature rfl rfl

theorem completes_with_honest_server_bound :
    let c := Client.start "a=b,c" "pencil" "rOprNGfwEbeRWgbNEkqO".toList (.endPoint [1, 2, 3])
    let serverNonce := "=%hvYDpWUa2RaTCAfuxFIlj)hNlF$k0".toList
    (',' ∉ c.nonce ∧ ',' ∉ serverNonce ∧ serverNonce ≠ [] ∧ 0 < 4096 ∧ 4096 < 2 ^ 32 ∧
      ∀ data, c.binding = .endPoint data → [1, 2, 3] = data) ∧
      c.CompletesWith ⟨.ofPassword "pencil" [0, 255] 4096, serverNonce⟩ [1, 2, 3] := by
  intro c serverNonce
  have plain : ',' ∉ c.nonce := by decide
  have plainServer : ',' ∉ serverNonce := by decide
  have sameChannel : ∀ data, c.binding = .endPoint data → [1, 2, 3] = data := by
    intro data same
    cases same
    rfl
  exact ⟨⟨plain, plainServer, nofun, by decide, by decide, sameChannel⟩,
    completes_with_honest_server plain plainServer nofun (by decide) (by decide) sameChannel⟩

end Client

end Scram

end PgPipeline
