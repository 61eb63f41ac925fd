import PgPipeline.Auth.Scram

namespace PgPipeline.Scram

def unescapeName : List Char → Option (List Char)
  | [] => some []
  | '=' :: '2' :: 'C' :: rest => (unescapeName rest).map (',' :: ·)
  | '=' :: '3' :: 'D' :: rest => (unescapeName rest).map ('=' :: ·)
  | c :: rest => if c = '=' ∨ c = ',' then none else (unescapeName rest).map (c :: ·)

def isBindingFlag : List Char → Bool
  | ['n'] => true
  | ['y'] => true
  | 'p' :: '=' :: name => !name.isEmpty
  | _ => false

structure ClientFirst where
  header : List Char
  bare : List Char
  user : List Char
  nonce : List Char
  deriving DecidableEq, Repr

/-- Reads the client's first message: a head with two commas, the user name and the nonce. Whatever
follows the nonce is passed over. -/
def ClientFirst.read? (message : List Char) : Option ClientFirst := do
  let (flag, afterFlag) := Text.cutFirst ',' message
  let (identity, bare) := Text.cutFirst ',' (← afterFlag)
  if isBindingFlag flag ∧ (identity = [] ∨ (attribute? 'a' identity).isSome) then
    let (name, afterName) := Text.cutFirst ',' (← bare)
    let (nonce, _) := Text.cutFirst ',' (← afterName)
    let user ← (attribute? 'n' name).bind unescapeName
    let nonce ← attribute? 'r' nonce
    return ⟨flag ++ ',' :: identity ++ [','], ← bare, user, nonce⟩
  else none

def ClientFirst.ofBytes? (message : Bytes) : Option ClientFirst :=
  match Utf8.decode message with
  | .error _ => none
  | .ok text => read? text.toList

structure ClientFinal where
  withoutProof : List Char
  binding : Bytes
  nonce : List Char
  proof : Bytes
  deriving DecidableEq, Repr

def ClientFinal.read? (message : List Char) : Option ClientFinal := do
  let (withoutProof, proof) := Text.cutLast ',' message
  let (binding, afterBinding) := Text.cutFirst ',' (← withoutProof)
  let (nonce, _) := Text.cutFirst ',' (← afterBinding)
  let data ← (attribute? 'c' binding).bind Base64.decode?
  let value ← attribute? 'r' nonce
  let proof ← (attribute? 'p' proof).bind Base64.decode?
  return ⟨← withoutProof, data, value, proof⟩

def ClientFinal.ofBytes? (message : Bytes) : Option ClientFinal :=
  match Utf8.decode message with
  | .error _ => none
  | .ok text => read? text.toList

structure Credentials where
  salt : Bytes
  iterations : Nat
  storedKey : Bytes
  serverKey : Bytes
  deriving DecidableEq, Repr

def Credentials.ofPassword (password : String) (salt : Bytes) (iterations : Nat) : Credentials :=
  let salted := Digest.stretchPassword (Utf8.encode password) salt iterations
  ⟨salt, iterations, Digest.sha256 (clientKey salted), Scram.serverKey salted⟩

structure Server where
  credentials : Credentials
  nonce : List Char
  deriving DecidableEq, Repr

namespace Server

def first (s : Server) (client : ClientFirst) : List Char :=
  'r' :: '=' :: client.nonce ++ s.nonce ++ ',' :: 's' :: '=' :: Base64.encode s.credentials.salt
    ++ ',' :: 'i' :: '=' :: (toString s.credentials.iterations).toList

def transcript (s : Server) (client : ClientFirst) (final : ClientFinal) : Bytes :=
  Utf8.encodeChars (client.bare ++ ',' :: s.first client ++ ',' :: final.withoutProof)

/-- What the client has to repeat: its head, and behind it the data of the channel if it binds
it. -/
def boundData (channel : Bytes) (client : ClientFirst) : Bytes :=
  Utf8.encodeChars client.header ++ if client.header.head? = some 'p' then channel else []

/-- The client's key, which the proof gives away to one who can make the client's signature. -/
def recoveredKey (s : Server) (client : ClientFirst) (final : ClientFinal) : Bytes :=
  Digest.xorBytes final.proof (Digest.hmac s.credentials.storedKey (s.transcript client final))

/-- Whether the last message belongs to the first one: it repeats the nonce and the bound data, and
its proof fits the stored key. -/
def accepts (s : Server) (channel : Bytes) (client : ClientFirst) (final : ClientFinal) : Bool :=
  final.nonce = client.nonce ++ s.nonce
    && final.binding = boundData channel client
    && Digest.sha256 (s.recoveredKey client final) = s.credentials.storedKey

def final (s : Server) (client : ClientFirst) (final : ClientFinal) : List Char :=
  'v' :: '=' :: Base64.encode (Digest.hmac s.credentials.serverKey (s.transcript client final))

end Server

end PgPipeline.Scram
