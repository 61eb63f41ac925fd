import PgPipeline.Auth.PasswordDigest
import PgPipeline.Connection
import PgPipeline.Tls.ServerName

namespace PgPipeline

def Config.sessionOptions (c : Config) : List (String × String) :=
  (c.applicationName.map fun name => ("application_name", name)).toList ++ c.startupOptions

def Config.startupMessage (c : Config) : FrontendMessage :=
  .startup c.user (some c.database) c.sessionOptions

namespace Connection

variable {ρ : Type}

def sendStartup (c : Connection ρ) : Connection ρ :=
  (c.queue [c.config.startupMessage]).moveTo .authenticating

def onConnected (c : Connection ρ) : Connection ρ :=
  let c := { c with connected := true }
  if c.config.encryption = .disable then c.sendStartup
  else { c with awaitingEncryption := true }.queue [.sslRequest]

def encrypt (c : Connection ρ) : Turn ρ :=
  match c.transport with
  | .encrypted _ => .fail c (.tls "transport is not a plain socket")
  | .plain =>
    match ServerName.check c.config.host with
    | .error f => .fail c f
    | .ok () =>
      .done { c with transport := .encrypted none, info := { c.info with encrypted := true } }

/-- Takes the server's answer to the request for encryption. Bytes behind an agreement would have
come from outside the channel, so there must be none. -/
def onEncryptionAnswer (c : Connection ρ) (answer : UInt8) : Turn ρ :=
  let c := { c with awaitingEncryption := false }
  if answer = Bytes.ascii 'S' then
    if c.inbound.buffered.isEmpty then c.encrypt.andThen fun c => .done c.sendStartup
    else .fail c (.protocol "server sent unencrypted data after accepting SSL")
  else if answer = Bytes.ascii 'N' then
    if c.config.encryption = .require then
      .fail c (.tls "server does not support SSL but sslmode=require")
    else .done c.sendStartup
  else
    .fail c (.protocol ("unexpected SSL response byte 0x" ++ Bytes.hex [answer]))

def withPassword (c : Connection ρ) (next : String → Turn ρ) : Turn ρ :=
  match c.config.password with
  | some password => next password
  | none => .fail c (.authentication "password required")

def beginExchange (c : Connection ρ) (offered : List String) : Turn ρ :=
  match Mechanism.select offered c.config.mechanisms c.config.binding c.transport.binding? with
  | .error e => .fail c e.failure
  | .ok (mechanism, mode) =>
    c.withPassword fun password =>
      let client := Scram.Client.start c.config.user password (c.nonces c.exchanges) mode
      let c := c.queue [.saslInitial mechanism.name (Utf8.encodeChars client.first)]
      .done { c with
        exchanges := c.exchanges + 1
        info := { c.info with mechanism := some mechanism }
        auth := .challenged client }

def onChallenge (c : Connection ρ) (data : Bytes) : Turn ρ :=
  match c.auth with
  | .challenged client =>
    match client.receiveFirst data with
    | .error e => .fail { c with auth := .started } e.failure
    | .ok (final, client) =>
      .done { c.queue [.saslResponse (Utf8.encodeChars final)] with auth := .proven client }
  | _ => .fail { c with auth := .started } (.authentication "unexpected SASL continue")

def onSignature (c : Connection ρ) (data : Bytes) : Turn ρ :=
  match c.auth with
  | .proven client =>
    match client.verifyFinal data with
    | .error e => .fail { c with auth := .started } e.failure
    | .ok () => .done { c with auth := .verified }
  | _ => .fail { c with auth := .started } (.authentication "unexpected SASL final")

/-- The server is satisfied, which does not count while it has a proof of its own to give. -/
def onAuthenticationOk (c : Connection ρ) : Turn ρ :=
  match c.auth with
  | .started => .done { c with auth := .verified }
  | .verified => .done { c with auth := .verified }
  | _ =>
    .fail c (.authentication "server finished authentication before SCRAM verification")

def becomeReady (c : Connection ρ) : Connection ρ :=
  let c := c.moveTo .ready
  let waiters := match c.inbox.readiness with
    | .pending waiters => waiters
    | _ => []
  { c with inbox := { c.inbox with readiness := .ready c.info } }.enter
    (waiters.map fun w => .informed w (.ok c.info))

def onAuthMessage (c : Connection ρ) (m : BackendMessage) : Turn ρ :=
  match m with
  | .authenticationOk => c.onAuthenticationOk
  | .cleartextPassword => c.withPassword fun password => .done (c.queue [.password password])
  | .md5Password salt =>
    c.withPassword fun password =>
      .done (c.queue [.password (passwordDigest c.config.user password salt)])
  | .sasl offered => c.beginExchange offered
  | .saslContinue data => c.onChallenge data
  | .saslFinal data => c.onSignature data
  | .errorResponse fields =>
    .fail c (.authentication (Failure.server (.ofFields fields)).message)
  | .readyForQuery status =>
    if c.auth = .verified then .done { c with transaction := status }.becomeReady
    else .fail c (.protocol "ReadyForQuery before authentication completed")
  | m => .fail c (.protocol s!"unexpected {m.name} during authentication")

end Connection

end PgPipeline
