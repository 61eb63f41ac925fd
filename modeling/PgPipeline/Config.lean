import PgPipeline.Auth.Mechanism
import PgPipeline.Failure
import PgPipeline.KeyOrder
import PgPipeline.Text.Quoted

namespace PgPipeline

inductive EncryptionMode where
  | disable
  | prefer
  | require
  deriving DecidableEq, Repr

structure Config where
  host : String
  port : Nat
  user : String
  password : Option String
  database : String
  applicationName : Option String
  encryption : EncryptionMode
  binding : BindingPolicy
  /-- The allowed mechanisms in the order of preference; none stands for all. -/
  mechanisms : List String
  /-- How many prepared statements are kept; none stands for no limit. -/
  cacheCapacity : Option Nat
  connectTimeout : Option Nat
  startupOptions : List (String × String)
  /-- Whether certificates are checked in a way of the caller's own. -/
  ownTrust : Bool
  deriving DecidableEq, Repr

inductive ConfigError where
  | emptyHost
  | zeroPort
  | emptyUser
  | unknownMechanism (name : String)
  | bindingWithoutEncryption
  | zeroCapacity
  | invalidScheme
  | invalidPort (text : String)
  | invalidEscape (text : String)
  | malformedText (text : String)
  | invalidParameter (name value : String)
  | unknownProperty (name : String)
  | unknownVariant (name : String)
  | wrongType (found expected : String)
  | wrongValue (found expected : String)
  deriving DecidableEq, Repr

namespace Config

def default : Config where
  host := "localhost"
  port := 5432
  user := "postgres"
  password := none
  database := "postgres"
  applicationName := some "pgmux"
  encryption := .prefer
  binding := .prefer
  mechanisms := []
  cacheCapacity := none
  connectTimeout := none
  startupOptions := []
  ownTrust := false

def forHost (host : String) (port : Nat) : Config := { default with host, port }

def withStartupOption (c : Config) (name value : String) : Config :=
  { c with startupOptions := KeyOrder.insert name value c.startupOptions }

def validate (c : Config) : Except ConfigError Unit :=
  if c.host.isEmpty then .error .emptyHost
  else if c.port = 0 then .error .zeroPort
  else if c.user.isEmpty then .error .emptyUser
  else
    match c.mechanisms.find? fun name => (Mechanism.ofName? name).isNone with
    | some name => .error (.unknownMechanism name)
    | none =>
      if c.binding = .require ∧ c.encryption = .disable then .error .bindingWithoutEncryption
      else if c.cacheCapacity = some 0 then .error .zeroCapacity
      else .ok ()

def validated (c : Config) : Except ConfigError Config := c.validate.map fun _ => c

def propertyNames : List String :=
  ["host", "port", "user", "password", "database", "application_name", "ssl_mode",
    "channel_binding", "sasl_mechanisms", "statement_cache_capacity", "connect_timeout_ms",
    "startup_options"]

end Config

def EncryptionMode.label : EncryptionMode → String
  | .disable => "Disable"
  | .prefer => "Prefer"
  | .require => "Require"

def BindingPolicy.label : BindingPolicy → String
  | .disable => "Disable"
  | .prefer => "Prefer"
  | .require => "Require"

namespace ConfigError

def ticked (name : String) : String := "\x60" ++ name ++ "\x60"

def message : ConfigError → String
  | emptyHost => "host must not be empty"
  | zeroPort => "port must not be 0"
  | emptyUser => "user must not be empty"
  | unknownMechanism name =>
    let known := ", ".intercalate (Mechanism.all.map Mechanism.name)
    s!"Unknown SASL mechanism: {name} (supported: {known})"
  | bindingWithoutEncryption => "channel_binding=require needs TLS but ssl_mode is disable"
  | zeroCapacity => "statement_cache_capacity must be positive"
  | invalidScheme => "Invalid URL scheme"
  | invalidPort text => s!"Invalid port: {text}"
  | invalidEscape text => s!"Invalid percent escape in {text}"
  | malformedText text => s!"Invalid UTF-8 in {text}"
  | invalidParameter name value => s!"Invalid {name}: {value}"
  | unknownProperty name =>
    let known := ", ".intercalate (Config.propertyNames.map ticked)
    "unknown field " ++ ticked name ++ ", expected one of " ++ known
  | unknownVariant name =>
    let known := ", ".intercalate (["disable", "prefer", "require"].map ticked)
    "unknown variant " ++ ticked name ++ ", expected one of " ++ known
  | wrongType found expected => s!"invalid type: {found}, expected {expected}"
  | wrongValue found expected => s!"invalid value: {found}, expected {expected}"

def failure (e : ConfigError) : Failure := .configuration e.message

end ConfigError

namespace Config

def optionText (text : Option String) : String :=
  match text with
  | none => "None"
  | some t => "Some(" ++ t ++ ")"

/-- The settings in a line of a log; the password is not shown. -/
def summary (c : Config) : String :=
  let pairs := c.startupOptions.map fun p => Text.quoted p.1 ++ ": " ++ Text.quoted p.2
  let fields : List (String × String) :=
    [("host", Text.quoted c.host), ("port", toString c.port), ("user", Text.quoted c.user),
      ("password", optionText (c.password.map fun _ => Text.quoted "***")),
      ("database", Text.quoted c.database),
      ("application_name", optionText (c.applicationName.map Text.quoted)),
      ("ssl_mode", c.encryption.label), ("channel_binding", c.binding.label),
      ("sasl_mechanisms", Text.quotedList c.mechanisms),
      ("statement_cache_capacity", optionText (c.cacheCapacity.map toString)),
      ("connect_timeout_ms", optionText (c.connectTimeout.map toString)),
      ("startup_options", "\x7b" ++ ", ".intercalate pairs ++ "\x7d"),
      ("tls", if c.ownTrust then "true" else "false")]
  "ConnectConfig \x7b " ++ ", ".intercalate (fields.map fun f => f.1 ++ ": " ++ f.2) ++ " \x7d"

end Config

end PgPipeline
