import PgPipeline.Config.Properties
import PgPipeline.Config.Url
import PgPipeline.Proofs.Checked

namespace PgPipeline

namespace KeyOrder

variable {β : Type}

def Ordered (pairs : List (String × β)) : Prop := pairs.Pairwise fun p q => p.1 < q.1

theorem mem_insert {key : String} {value : β} {pairs : List (String × β)} {p : String × β}
    (mem : p ∈ insert key value pairs) : p = (key, value) ∨ p ∈ pairs := by
  induction pairs with
  | nil => exact .inl (List.mem_singleton.mp mem)
  | cons q rest ih =>
    unfold insert at mem
    split at mem
    · exact List.mem_cons.mp mem
    · split at mem
      · exact (List.mem_cons.mp mem).imp_right (List.mem_cons_of_mem _)
      · rcases List.mem_cons.mp mem with rfl | mem
        · exact .inr List.mem_cons_self
        · exact (ih mem).imp_right (List.mem_cons_of_mem _)

theorem mem_insert_self (key : String) (value : β) (pairs : List (String × β)) :
    (key, value) ∈ insert key value pairs := by
  induction pairs with
  | nil => exact List.mem_cons_self
  | cons q rest ih =>
    unfold insert
    repeat' split
    · exact List.mem_cons_self
    · exact List.mem_cons_self
    · exact List.mem_cons_of_mem _ ih

theorem Ordered.insert {pairs : List (String × β)} (ordered : Ordered pairs) (key : String)
    (value : β) : Ordered (insert key value pairs) := by
  induction pairs with
  | nil => exact List.pairwise_singleton _ _
  | cons q rest ih =>
    obtain ⟨above, others⟩ := List.pairwise_cons.mp ordered
    unfold KeyOrder.insert
    split
    · next before =>
      refine List.pairwise_cons.mpr ⟨fun p mem => ?_, ordered⟩
      rcases List.mem_cons.mp mem with rfl | mem
      · exact before
      · exact String.lt_trans before (above p mem)
    · split
      · next same => exact List.pairwise_cons.mpr ⟨fun p mem => same ▸ above p mem, others⟩
      · next notBefore other =>
        have behind : q.1 < key :=
          Std.lt_of_le_of_ne (String.not_lt.mp notBefore) fun same => other same.symm
        refine List.pairwise_cons.mpr ⟨fun p mem => ?_, ih others⟩
        rcases mem_insert mem with rfl | mem
        · exact behind
        · exact above p mem

end KeyOrder

namespace Config

open KeyOrder (Ordered)

variable {c d : Config}

theorem applyParameter_options {name value : String} (applied : c.applyParameter name value = .ok d) :
    d.startupOptions = c.startupOptions ∨
      d.startupOptions = KeyOrder.insert name value c.startupOptions := by
  unfold applyParameter at applied
  split at applied
  case h_7 =>
    cases applied
    exact .inr rfl
  all_goals refine .inl ?_
  case h_1 | h_2 =>
    split at applied <;> cases applied
    rfl
  case h_4 | h_5 =>
    obtain ⟨n, -, rfl⟩ := map_ok applied
    rfl
  all_goals
    cases applied
    rfl

theorem applyParameter_ordered (ordered : Ordered c.startupOptions) {name value : String}
    (applied : c.applyParameter name value = .ok d) : Ordered d.startupOptions := by
  rcases applyParameter_options applied with same | new
  · exact same ▸ ordered
  · exact new ▸ ordered.insert name value

theorem applyQuery_ordered (ordered : Ordered c.startupOptions) {query : List Char}
    (applied : c.applyQuery query = .ok d) : Ordered d.startupOptions := by
  refine foldlM_keeps (P := fun c => Ordered c.startupOptions) ?_ ordered applied
  intro b pair _ d ordered applied
  obtain ⟨value, -, applied⟩ := bind_ok applied
  exact applyParameter_ordered ordered applied

theorem applyCredentials_options {credentials : List Char}
    (applied : c.applyCredentials credentials = .ok d) : d.startupOptions = c.startupOptions := by
  unfold applyCredentials at applied
  split at applied
  · cases applied
    rfl
  · split at applied
    · obtain ⟨user, -, applied⟩ := bind_ok applied
      cases applied
      rfl
    · obtain ⟨user, -, applied⟩ := bind_ok applied
      obtain ⟨password, -, applied⟩ := bind_ok applied
      cases applied
      rfl

theorem applyAuthority_options {authority : List Char}
    (applied : c.applyAuthority authority = .ok d) : d.startupOptions = c.startupOptions := by
  have host {b : Config} {name : List Char}
      (applied : (.ok (if name.isEmpty then b else { b with host := String.ofList name }) :
        Except ConfigError Config) = .ok d) :
      d.startupOptions = b.startupOptions := by
    cases applied
    split <;> rfl
  unfold applyAuthority at applied
  dsimp only at applied
  split at applied
  · exact host applied
  · split at applied
    · next n _ => exact host (b := { c with port := n.toNat }) applied
    · cases applied

theorem validated_ok (checked : c.validated = .ok d) : c.validate = .ok () ∧ d = c := by
  obtain ⟨_, valid, rfl⟩ := map_ok checked
  exact ⟨valid, rfl⟩

def applyPlace (c : Config) (credentials path : List Char) : Except ConfigError Config := do
  let c ← c.applyCredentials credentials
  let (authority, database) := Text.cutFirst '/' path
  match database with
  | some name =>
    if name.isEmpty then c.applyAuthority authority
    else
      let database ← Percent.decode name
      { c with database }.applyAuthority authority
  | none => c.applyAuthority authority

theorem ofUrl_eq {url : String} {rest : List Char} (scheme : afterScheme? url.toList = some rest) :
    ofUrl url = (do
      let c ← default.applyPlace ((Text.cutLast '@' rest).1.getD [])
        (Text.cutFirst '?' (Text.cutLast '@' rest).2).1
      let c ← c.applyQuery ((Text.cutFirst '?' (Text.cutLast '@' rest).2).2.getD [])
      c.validated) := by
  rw [ofUrl, scheme]
  dsimp only [applyPlace]
  rcases default.applyCredentials ((Text.cutLast '@' rest).1.getD []) with e | c
  · rfl
  · rcases (Text.cutFirst '/' (Text.cutFirst '?' (Text.cutLast '@' rest).2).1).2 with - | name
    · rfl
    · dsimp only [bind, Except.bind]
      split
      · rfl
      · cases Percent.decode name <;> rfl

theorem applyPlace_options {credentials path : List Char}
    (applied : c.applyPlace credentials path = .ok d) : d.startupOptions = c.startupOptions := by
  obtain ⟨b, applied_, applied⟩ := bind_ok applied
  rw [← applyCredentials_options applied_]
  dsimp only at applied
  split at applied
  · split at applied
    · exact applyAuthority_options applied
    · obtain ⟨name, -, applied⟩ := bind_ok applied
      exact applyAuthority_options (c := { b with database := name }) applied
  · exact applyAuthority_options applied

theorem ofUrl_ok {url : String} (parsed : ofUrl url = .ok c) :
    ∃ rest b, afterScheme? url.toList = some rest ∧
      default.applyPlace ((Text.cutLast '@' rest).1.getD [])
        (Text.cutFirst '?' (Text.cutLast '@' rest).2).1 = .ok b ∧
      b.applyQuery ((Text.cutFirst '?' (Text.cutLast '@' rest).2).2.getD []) = .ok c ∧
      b.startupOptions = [] ∧ c.validate = .ok () := by
  rcases scheme : afterScheme? url.toList with - | rest
  · rw [ofUrl, scheme] at parsed
    cases parsed
  · rw [ofUrl_eq scheme] at parsed
    obtain ⟨b, placed, parsed⟩ := bind_ok parsed
    obtain ⟨d, queried, parsed⟩ := bind_ok parsed
    obtain ⟨valid, rfl⟩ := validated_ok parsed
    exact ⟨rest, b, rfl, placed, queried, applyPlace_options placed, valid⟩

theorem ofUrl_ordered {url : String} (parsed : ofUrl url = .ok c) : Ordered c.startupOptions := by
  obtain ⟨_, b, _, _, queried, none_, _⟩ := ofUrl_ok parsed
  refine applyQuery_ordered ?_ queried
  rw [none_]
  exact List.Pairwise.nil

/-- The members of a document that is given for the startup options are in the order of their
names, as those of every object are. -/
def HasOrderedOptions (properties : List (String × Json)) : Prop :=
  ∀ members, ("startup_options", Json.object members) ∈ properties → Ordered members

theorem mapM_keys {members : List (String × Json)} {pairs : List (String × String)}
    (read : (members.mapM fun m => m.2.asText.map fun text => (m.1, text)) = .ok pairs) :
    pairs.map Prod.fst = members.map Prod.fst := by
  induction members generalizing pairs with
  | nil =>
    cases read
    rfl
  | cons m rest ih =>
    rw [List.mapM_cons] at read
    obtain ⟨first, named, read⟩ := bind_ok read
    obtain ⟨others, more, read⟩ := bind_ok read
    obtain ⟨text, -, rfl⟩ := map_ok named
    cases read
    rw [List.map_cons, List.map_cons, ih more]

theorem ordered_iff_keys {β : Type} {pairs : List (String × β)} :
    Ordered pairs ↔ (pairs.map Prod.fst).Pairwise (· < ·) :=
  List.pairwise_map.symm

theorem applyProperty_ordered {property : String × Json} (ordered : Ordered c.startupOptions)
    (members : ∀ members, property = ("startup_options", Json.object members) → Ordered members)
    (applied : c.applyProperty property = .ok d) : Ordered d.startupOptions := by
  obtain ⟨name, value⟩ := property
  unfold applyProperty at applied
  dsimp only at applied
  split at applied
  case h_12 =>
    obtain ⟨pairs, read, rfl⟩ := map_ok applied
    unfold Json.asTextMap at read
    split at read
    · rw [ordered_iff_keys, mapM_keys read, ← ordered_iff_keys]
      exact members _ rfl
    · cases read
  case h_13 => cases applied
  -- Every other property sets a field of its own.
  all_goals
    obtain ⟨value, -, rfl⟩ := map_ok applied
    exact ordered

theorem ofProperties_ordered {properties : List (String × Json)}
    (options : HasOrderedOptions properties) (read : ofProperties properties = .ok c) :
    Ordered c.startupOptions := by
  obtain ⟨d, applied, read⟩ := bind_ok read
  obtain ⟨-, rfl⟩ := validated_ok read
  have none_ : Ordered default.startupOptions := List.Pairwise.nil
  refine foldlM_keeps (P := fun c => Ordered c.startupOptions) ?_ none_ applied
  intro b property mem e ordered applied
  exact applyProperty_ordered ordered (fun members same => options members (same ▸ mem)) applied

/-- A configuration that can be made: from a host, a URL or a property map, and from another one by
setters. -/
inductive Built : Config → Prop
  | forHost (host : String) (port : Nat) : Built (forHost host port)
  | ofUrl {url : String} {c : Config} (parsed : ofUrl url = .ok c) : Built c
  | ofProperties {properties : List (String × Json)} {c : Config}
      (options : HasOrderedOptions properties) (read : ofProperties properties = .ok c) : Built c
  | setStartupOption {c : Config} (built : Built c) (name value : String) :
    Built (c.withStartupOption name value)
  | setStartupOptions {c : Config} (built : Built c) {options : List (String × String)}
      (ordered : Ordered options) : Built { c with startupOptions := options }
  | set {c d : Config} (built : Built c) (same : d.startupOptions = c.startupOptions) : Built d

theorem Built.ordered (built : c.Built) : Ordered c.startupOptions := by
  induction built with
  | forHost host port => exact List.Pairwise.nil
  | ofUrl parsed => exact ofUrl_ordered parsed
  | ofProperties options read => exact ofProperties_ordered options read
  | setStartupOption built name value ih => exact ih.insert name value
  | setStartupOptions built ordered => exact ordered
  | set built same ih => exact same ▸ ih

end Config

end PgPipeline
