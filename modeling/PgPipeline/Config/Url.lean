import PgPipeline.Config.Percent
import PgPipeline.Number.Integer
import PgPipeline.Text.Blank
import PgPipeline.Text.Cut

/-!
Configurations from URLs.

The parts of a URL are cut off one after the other: what stands in front of the last `@` are the
credentials; then the first `?` starts the parameters, the first `/` the database and the last `:`
the port.
-/

namespace PgPipeline

namespace Config

def readCount (name : String) (value : String) : Except ConfigError Nat :=
  match (Number.IntegerRange.unsigned 64).read value.toList with
  | .ok n => .ok n.toNat
  | .error _ => .error (.invalidParameter name value)

/-- The modes of encryption as URLs name them; the client does not tell degrees of checking
apart. -/
def encryptionOfName? (name : String) : Option EncryptionMode :=
  [("disable", .disable), ("allow", .disable), ("prefer", .prefer), ("require", .require),
    ("verify-ca", .require), ("verify-full", .require)].lookup name

def bindingOfName? (name : String) : Option BindingPolicy :=
  [("disable", .disable), ("prefer", .prefer), ("require", .require)].lookup name

def mechanismList (value : String) : List String :=
  (((Text.splitAll ',' value.toList).map Text.trim).filter fun m => !m.isEmpty).map String.ofList

/-- The milliseconds of a timeout, in a word of 64 bits; none for no seconds. -/
def timeoutOfSeconds (seconds : Nat) : Option Nat :=
  if 0 < seconds then some (seconds * 1000 % 2 ^ 64) else none

/-- Applies a parameter of a URL; a name without a meaning is a startup option. -/
def applyParameter (c : Config) (name value : String) : Except ConfigError Config :=
  match name with
  | "sslmode" =>
    match encryptionOfName? value with
    | some mode => .ok { c with encryption := mode }
    | none => .error (.invalidParameter name value)
  | "channel_binding" =>
    match bindingOfName? value with
    | some policy => .ok { c with binding := policy }
    | none => .error (.invalidParameter name value)
  | "application_name" => .ok { c with applicationName := some value }
  | "connect_timeout" =>
    (readCount name value).map fun seconds => { c with connectTimeout := timeoutOfSeconds seconds }
  | "statement_cache_capacity" =>
    (readCount name value).map fun n =>
      { c with cacheCapacity := if 0 < n then some n else none }
  | "sasl_mechanisms" => .ok { c with mechanisms := mechanismList value }
  | _ => .ok (c.withStartupOption name value)

def applyPair (c : Config) (pair : List Char) : Except ConfigError Config := do
  let (name, value) := Text.cutFirst '=' pair
  let decoded ← Percent.decode (value.getD [])
  c.applyParameter (String.ofList name) decoded

def applyQuery (c : Config) (query : List Char) : Except ConfigError Config :=
  ((Text.splitAll '&' query).filter fun pair => !pair.isEmpty).foldlM applyPair c

def applyCredentials (c : Config) (credentials : List Char) : Except ConfigError Config := do
  if credentials.isEmpty then return c
  match Text.cutFirst ':' credentials with
  | (_, none) => return { c with user := ← Percent.decode credentials }
  | (user, some password) =>
    let user ← Percent.decode user
    return { c with user, password := some (← Percent.decode password) }

def withoutBrackets (host : List Char) : List Char :=
  ((host.dropWhile (· = '[')).reverse.dropWhile (· = ']')).reverse

/-- Host and port. The colons of an address in brackets do not start a port. -/
def applyAuthority (c : Config) (authority : List Char) : Except ConfigError Config := do
  let (front, tail) :=
    if authority.getLast? = some ']' then (none, authority) else Text.cutLast ':' authority
  let c ←
    match front with
    | none => pure c
    | some _ =>
      match (Number.IntegerRange.unsigned 16).read tail with
      | .ok n => pure { c with port := n.toNat }
      | .error _ => throw (.invalidPort (String.ofList tail))
  let host := withoutBrackets (front.getD tail)
  return if host.isEmpty then c else { c with host := String.ofList host }

def afterScheme? (url : List Char) : Option (List Char) :=
  (Text.afterStart? "postgresql://".toList url).orElse fun _ =>
    Text.afterStart? "postgres://".toList url

def ofUrl (url : String) : Except ConfigError Config := do
  match afterScheme? url.toList with
  | none => throw .invalidScheme
  | some rest =>
    let (credentials, place) := Text.cutLast '@' rest
    let c ← default.applyCredentials (credentials.getD [])
    let (path, query) := Text.cutFirst '?' place
    let (authority, database) := Text.cutFirst '/' path
    let c ←
      match database with
      | some name =>
        if name.isEmpty then pure c else pure { c with database := ← Percent.decode name }
      | none => pure c
    let c ← c.applyAuthority authority
    let c ← c.applyQuery (query.getD [])
    c.validated

end Config

end PgPipeline
