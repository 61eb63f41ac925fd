import PgPipeline.Config
import PgPipeline.Json

namespace PgPipeline

namespace Json

def kindText : Json → String
  | null => "null"
  | bool b => "boolean " ++ ConfigError.ticked (if b then "true" else "false")
  | integer n => "integer " ++ ConfigError.ticked (toString n)
  | float bits => "floating point " ++ ConfigError.ticked (String.ofList (floatChars bits))
  | string s => "string " ++ Text.quoted s
  | array _ => "sequence"
  | object _ => "map"

def mistyped {α : Type} (document : Json) (expected : String) : Except ConfigError α :=
  .error (.wrongType document.kindText expected)

def asText : Json → Except ConfigError String
  | string s => .ok s
  | other => other.mistyped "a string"

def asNatural (name : String) (limit : Nat) (document : Json) : Except ConfigError Nat :=
  match document with
  | integer n =>
    if 0 ≤ n ∧ n < limit then .ok n.toNat else .error (.wrongValue document.kindText name)
  | other => other.mistyped name

def asOptional {α : Type} (read : Json → Except ConfigError α) :
    Json → Except ConfigError (Option α)
  | null => .ok none
  | document => (read document).map some

def asTexts : Json → Except ConfigError (List String)
  | array items => items.mapM asText
  | other => other.mistyped "a sequence"

def asTextMap : Json → Except ConfigError (List (String × String))
  | object members => members.mapM fun m => (asText m.2).map fun text => (m.1, text)
  | other => other.mistyped "a map"

def asVariant {α : Type} (disable prefer require : α) (document : Json) : Except ConfigError α :=
  let ofName (name : String) : Except ConfigError α :=
    match name with
    | "disable" => .ok disable
    | "prefer" => .ok prefer
    | "require" => .ok require
    | _ => .error (.unknownVariant name)
  match document with
  | string name => ofName name
  | object [(name, value)] => do
    let variant ← ofName name
    match value with
    | null => return variant
    | other => other.mistyped "unit"
  | object _ => .error (.wrongValue "map" "map with a single key")
  | other => other.mistyped "string or map"

end Json

namespace Config

def applyProperty (c : Config) (property : String × Json) : Except ConfigError Config :=
  let (name, value) := property
  match name with
  | "host" => value.asText.map fun host => { c with host }
  | "port" => (value.asNatural "u16" (2 ^ 16)).map fun port => { c with port }
  | "user" => value.asText.map fun user => { c with user }
  | "password" => (value.asOptional Json.asText).map fun password => { c with password }
  | "database" => value.asText.map fun database => { c with database }
  | "application_name" =>
    (value.asOptional Json.asText).map fun applicationName => { c with applicationName }
  | "ssl_mode" =>
    (value.asVariant EncryptionMode.disable .prefer .require).map fun encryption =>
      { c with encryption }
  | "channel_binding" =>
    (value.asVariant BindingPolicy.disable .prefer .require).map fun binding => { c with binding }
  | "sasl_mechanisms" => value.asTexts.map fun mechanisms => { c with mechanisms }
  | "statement_cache_capacity" =>
    (value.asOptional (Json.asNatural "usize" (2 ^ 64))).map fun cacheCapacity =>
      { c with cacheCapacity }
  | "connect_timeout_ms" =>
    (value.asOptional (Json.asNatural "u64" (2 ^ 64))).map fun connectTimeout =>
      { c with connectTimeout }
  | "startup_options" => value.asTextMap.map fun startupOptions => { c with startupOptions }
  | _ => .error (.unknownProperty name)

def ofProperties (properties : List (String × Json)) : Except ConfigError Config := do
  let c ← properties.foldlM applyProperty default
  c.validated

end Config

end PgPipeline
