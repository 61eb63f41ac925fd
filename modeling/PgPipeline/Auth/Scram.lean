import PgPipeline.Auth.Mechanism
import PgPipeline.Digest.Keyed
import PgPipeline.Number.Integer
import PgPipeline.Text.Base64
import PgPipeline.Text.Cut
import PgPipeline.Text.Utf8

namespace PgPipeline

namespace BindingMode

def header : BindingMode → List Char
  | unsupported => "n,,".toList
  | notOffered => "y,,".toList
  | endPoint _ => "p=tls-server-end-point,,".toList

def bindingData : BindingMode → Bytes
  | endPoint data => Utf8.encodeChars (header (.endPoint data)) ++ data
  | mode => Utf8.encodeChars mode.header

end BindingMode

namespace Scram

inductive Error where
  | invalidServerMessage
  | invalidSalt
  | invalidIterations
  | missingNonce
  | missingSalt
  | missingIterations
  | nonceMismatch
  | invalidSignature
  | signatureMismatch
  | server (text : String)
  | invalidState
  deriving DecidableEq, Repr

namespace Error

def message : Error → String
  | invalidServerMessage => "Invalid server message"
  | invalidSalt => "Invalid salt encoding"
  | invalidIterations => "Invalid iteration count"
  | missingNonce => "Missing nonce in server message"
  | missingSalt => "Missing salt in server message"
  | missingIterations => "Missing iterations in server message"
  | nonceMismatch => "Server nonce verification failed"
  | invalidSignature => "Invalid server signature"
  | signatureMismatch => "Server signature verification failed"
  | server text => "Server reported SCRAM error: " ++ text
  | invalidState => "Invalid SCRAM state"

def failure (e : Error) : Failure := .authentication e.message

end Error

def escapeName (cs : List Char) : List Char :=
  cs.flatMap fun c =>
    if c = '=' then ['=', '3', 'D'] else if c = ',' then ['=', '2', 'C'] else [c]

def attribute? (letter : Char) : List Char → Option (List Char)
  | c :: '=' :: value => if c = letter then some value else none
  | _ => none

structure Challenge where
  nonce : Option (List Char)
  salt : Option Bytes
  iterations : Option Nat
  deriving DecidableEq, Repr

/-- Reads one attribute; a later one takes the place of an earlier one of its letter, and letters
without a meaning are passed over. -/
def Challenge.read (c : Challenge) (part : List Char) : Except Error Challenge :=
  match attribute? 'r' part with
  | some value => .ok { c with nonce := some value }
  | none =>
    match attribute? 's' part with
    | some value =>
      match Base64.decode? value with
      | some salt => .ok { c with salt := some salt }
      | none => .error .invalidSalt
    | none =>
      match attribute? 'i' part with
      | some value =>
        match (Number.IntegerRange.unsigned 32).read value with
        | .ok n => .ok { c with iterations := some n.toNat }
        | .error _ => .error .invalidIterations
      | none =>
        match attribute? 'e' part with
        | some value => .error (.server (String.ofList value))
        | none => .ok c

structure Exchange where
  saltedPassword : Bytes
  transcript : Bytes
  deriving DecidableEq, Repr

def clientKey (saltedPassword : Bytes) : Bytes :=
  Digest.hmac saltedPassword (Utf8.encode "Client Key")

def serverKey (saltedPassword : Bytes) : Bytes :=
  Digest.hmac saltedPassword (Utf8.encode "Server Key")

namespace Exchange

def proof (x : Exchange) : Bytes :=
  let key := clientKey x.saltedPassword
  Digest.xorBytes key (Digest.hmac (Digest.sha256 key) x.transcript)

def signature (x : Exchange) : Bytes := Digest.hmac (serverKey x.saltedPassword) x.transcript

end Exchange

structure Client where
  user : String
  password : String
  nonce : List Char
  binding : BindingMode
  /-- The latest exchange in which the server's first message was accepted. -/
  exchange : Option Exchange
  deriving DecidableEq, Repr

namespace Client

def start (user password : String) (nonce : List Char) (binding : BindingMode) : Client :=
  ⟨user, password, nonce, binding, none⟩

def firstBare (c : Client) : List Char :=
  'n' :: '=' :: escapeName c.user.toList ++ ',' :: 'r' :: '=' :: c.nonce

def first (c : Client) : List Char := c.binding.header ++ c.firstBare

def finalWithoutProof (c : Client) (nonce : List Char) : List Char :=
  'c' :: '=' :: Base64.encode c.binding.bindingData ++ ',' :: 'r' :: '=' :: nonce

def transcript (c : Client) (serverFirst nonce : List Char) : List Char :=
  c.firstBare ++ ',' :: serverFirst ++ ',' :: c.finalWithoutProof nonce

def accept (c : Client) (challenge : Challenge) : Except Error (List Char × Bytes × Nat) :=
  match challenge.nonce, challenge.salt, challenge.iterations with
  | none, _, _ => .error .missingNonce
  | _, none, _ => .error .missingSalt
  | _, _, none => .error .missingIterations
  | some nonce, some salt, some iterations =>
    if iterations = 0 then .error .invalidIterations
    else if c.nonce.isPrefixOf nonce ∧ c.nonce ≠ nonce then .ok (nonce, salt, iterations)
    else .error .nonceMismatch

def receiveFirst (c : Client) (message : Bytes) : Except Error (List Char × Client) :=
  match Utf8.decode message with
  | .error _ => .error .invalidServerMessage
  | .ok text => do
    let challenge ← (Text.splitAll ',' text.toList).foldlM Challenge.read ⟨none, none, none⟩
    let (nonce, salt, iterations) ← c.accept challenge
    let salted := Digest.stretchPassword (Utf8.encode c.password) salt iterations
    let exchange : Exchange :=
      ⟨salted, Utf8.encodeChars (c.transcript text.toList nonce)⟩
    return (c.finalWithoutProof nonce ++ ',' :: 'p' :: '=' :: Base64.encode exchange.proof,
      { c with exchange := some exchange })

def verifyFinal (c : Client) (message : Bytes) : Except Error Unit :=
  match Utf8.decode message with
  | .error _ => .error .invalidServerMessage
  | .ok text =>
    match attribute? 'e' text.toList with
    | some reason => .error (.server (String.ofList reason))
    | none =>
      match ((Text.splitAll ',' text.toList).head?.bind (attribute? 'v')).bind Base64.decode? with
      | none => .error .invalidSignature
      | some signature =>
        match c.exchange with
        | none => .error .invalidState
        | some x => if signature = x.signature then .ok () else .error .signatureMismatch

end Client

end Scram

end PgPipeline
