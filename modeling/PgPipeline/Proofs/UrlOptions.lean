import PgPipeline.Proofs.Configuration
import PgPipeline.Proofs.Escapes
import PgPipeline.Proofs.Reading

/-!
A startup option behind a URL.

Appending an option to a URL is meant to set that option and nothing else. It does so exactly when no
`@` stands in the value as it is written, and no `&`, which ends a value
(`Config.ofUrl_option_iff`): behind the last `@` of a URL stands its host, wherever that `@` is
(`Config.ofUrl_hostInOption`).
-/

namespace PgPipeline

namespace Percent

open Bytes (hexValue?)

variable {x : Char} {front behind cs : List Char} {meant : Bytes} {n : Nat}

theorem spells_cut (plain : x ≠ '%') (foreign : hexValue? x = none)
    (spelled : Spells (Utf8.encodeChars (front ++ x :: behind)) meant) :
    ∃ first second, meant = first ++ Utf8.encodeChar x ++ second ∧
      Spells (Utf8.encodeChars front) first ∧ Spells (Utf8.encodeChars behind) second := by
  have other {c : Char} {k : Nat} (digit : hexValue? c = some k) : c ≠ x := by
    rintro rfl
    rw [foreign] at digit
    cases digit
  induction length : front.length using Nat.strongRecOn generalizing front meant with
  | ind m ih =>
    subst length
    cases front with
    | nil =>
      obtain ⟨second, rfl, tail⟩ := (spells_char plain).mp spelled
      exact ⟨[], second, rfl, .nil, tail⟩
    | cons c front =>
      rw [List.cons_append] at spelled
      by_cases sign : c = '%'
      · subst sign
        obtain ⟨a, b, rest, high, low, others, same, digit, digit', rfl, tail⟩ :=
          spells_percent.mp spelled
        -- Both digits stand in front of the cut, since `x` is none.
        rcases front with - | ⟨a', - | ⟨b', front⟩⟩
        · cases same
          exact absurd rfl (other digit)
        · cases same
          exact absurd rfl (other digit')
        · cases same
          obtain ⟨first, second, rfl, before, after⟩ := ih _ (by simp; omega) tail rfl
          exact ⟨_, second, rfl, spells_percent.mpr
            ⟨a, b, front, high, low, first, rfl, digit, digit', rfl, before⟩, after⟩
      · obtain ⟨others, rfl, tail⟩ := (spells_char sign).mp spelled
        obtain ⟨first, second, rfl, before, after⟩ := ih _ (by simp) tail rfl
        exact ⟨Utf8.encodeChar c ++ first, second, by simp,
          (spells_char sign).mpr ⟨first, rfl, before⟩, after⟩

def Below (n : Nat) (cs : List Char) : Prop :=
  ∃ meant, Spells (Utf8.encodeChars cs) meant ∧ meant.length < n

theorem Below.nil (h : Below n cs) : Below n [] := by
  obtain ⟨_, _, short⟩ := h
  exact ⟨[], .nil, Nat.zero_lt_of_lt short⟩

theorem below_of_cut (plain : x ≠ '%') (foreign : hexValue? x = none)
    (spelled : Spells (Utf8.encodeChars (front ++ x :: behind)) meant) :
    Below meant.length front ∧ Below meant.length behind := by
  obtain ⟨first, second, rfl, before, after⟩ := spells_cut plain foreign spelled
  have bytes : 0 < (Utf8.encodeChar x).length := by
    unfold Utf8.encodeChar
    dsimp only
    repeat' split
    all_goals simp
  refine ⟨⟨first, before, ?_⟩, second, after, ?_⟩ <;> simp only [List.length_append] <;> omega

theorem Below.cut (plain : x ≠ '%') (foreign : hexValue? x = none)
    (h : Below n (front ++ x :: behind)) : Below n front ∧ Below n behind := by
  obtain ⟨meant, spelled, short⟩ := h
  obtain ⟨⟨first, before, less⟩, second, after, less'⟩ := below_of_cut plain foreign spelled
  exact ⟨⟨first, before, Nat.lt_trans less short⟩, second, after, Nat.lt_trans less' short⟩

theorem Below.splitAll (plain : x ≠ '%') (foreign : hexValue? x = none) (h : Below n cs) :
    ∀ part ∈ Text.splitAll x cs, Below n part := by
  induction length : cs.length using Nat.strongRecOn generalizing cs with
  | ind m ih =>
    subst length
    by_cases mem : x ∈ cs
    · obtain ⟨front, behind, rfl, absent⟩ := List.eq_append_cons_of_mem mem
      obtain ⟨first, rest⟩ := h.cut plain foreign
      rw [Text.splitAll_append absent, List.forall_mem_cons]
      exact ⟨first, ih _ (by simp; omega) rest rfl⟩
    · rw [Text.splitAll_eq_singleton mem]
      simpa using h

theorem Below.rest (plain : x ≠ '%') (foreign : hexValue? x = none) (h : Below n cs) :
    Below n ((Text.cutFirst x cs).2.getD []) := by
  by_cases mem : x ∈ cs
  · obtain ⟨front, behind, rfl, absent⟩ := List.eq_append_cons_of_mem mem
    rw [Text.cutFirst_append absent]
    exact (h.cut plain foreign).2
  · rw [Text.cutFirst_eq_none mem]
    exact h.nil

theorem Below.decode {text : String} (h : Below n cs) (decoded : decode cs = .ok text) :
    (Utf8.encode text).length < n := by
  obtain ⟨meant, spelled, short⟩ := h
  have same := (decode_eq_ok_iff.mp decoded).symm.trans (bytes?_of_spells spelled)
  injection same with same
  rwa [same]

end Percent

theorem Text.afterStart?_eq_some_iff {start cs rest : List Char} :
    afterStart? start cs = some rest ↔ cs = start ++ rest := by
  induction start generalizing cs with
  | nil => simp [afterStart?]
  | cons p start ih =>
    cases cs with
    | nil => simp [afterStart?]
    | cons c cs =>
      rw [afterStart?]
      split
      · next same => simp [ih, same]
      · next other => simp [Ne.symm other]

namespace Config

open Percent (Below Spells)
open Text (cutFirst cutLast splitAll)

variable {c d : Config}

def parameterNames : List String :=
  ["sslmode", "channel_binding", "application_name", "connect_timeout",
    "statement_cache_capacity", "sasl_mechanisms"]

theorem applyParameter_option {name : String} (unknown : name ∉ parameterNames) (value : String) :
    c.applyParameter name value = .ok (c.withStartupOption name value) := by
  unfold applyParameter
  split
  case h_7 => rfl
  all_goals exact absurd (by decide) unknown

/-- No option has a longer value than the parameters that set it. -/
theorem applyQuery_below {query : List Char} {n : Nat} (none_ : c.startupOptions = [])
    (values : ∀ part ∈ splitAll '&' query, Below n ((cutFirst '=' part).2.getD []))
    (applied : c.applyQuery query = .ok d) :
    ∀ option ∈ d.startupOptions, (Utf8.encode option.2).length < n := by
  refine foldlM_keeps
    (P := fun c => ∀ option ∈ c.startupOptions, (Utf8.encode option.2).length < n) ?_ ?_ applied
  · intro b part mem d short applied option new
    obtain ⟨value, decoded, applied⟩ := bind_ok applied
    rcases applyParameter_options applied with same | entered
    · exact short option (same ▸ new)
    · rcases KeyOrder.mem_insert (entered ▸ new) with rfl | old
      · exact (values part (List.mem_of_mem_filter mem)).decode decoded
      · exact short option old
  · simp [none_]

theorem afterScheme?_eq {cs rest : List Char} (scheme : afterScheme? cs = some rest) :
    ∃ start, cs = start ++ rest ∧ ∀ tail, afterScheme? (start ++ tail) = some tail := by
  unfold afterScheme? at scheme
  rcases first : Text.afterStart? "postgresql://".toList cs with - | tail
  · rw [first, Option.orElse_none] at scheme
    refine ⟨_, Text.afterStart?_eq_some_iff.mp scheme, fun tail => ?_⟩
    have other : Text.afterStart? "postgresql://".toList ("postgres://".toList ++ tail) = none := by
      simp [Text.afterStart?]
    rw [afterScheme?, other, Option.orElse_none, Text.afterStart?_eq_some_iff.mpr rfl]
  · rw [first, Option.orElse_some] at scheme
    cases scheme
    refine ⟨_, Text.afterStart?_eq_some_iff.mp first, fun tail => ?_⟩
    rw [afterScheme?, Text.afterStart?_eq_some_iff.mpr rfl, Option.orElse_some]

/-- A URL without parameters sets what its parts say, and so it does with parameters behind it as
long as no `@` comes with them. -/
theorem ofUrl_bare {url : String} (accepted : ofUrl url = .ok c) (bare : '?' ∉ url.toList) :
    c.startupOptions = [] ∧ c.validate = .ok () ∧ ∃ rest,
      (∀ more, afterScheme? (url.toList ++ more) = some (rest ++ more)) ∧
      '?' ∉ (cutLast '@' rest).2 ∧
      default.applyPlace ((cutLast '@' rest).1.getD []) (cutLast '@' rest).2 = .ok c := by
  obtain ⟨rest, b, scheme, placed, queried, none_, valid⟩ := ofUrl_ok accepted
  obtain ⟨start, parts, starts⟩ := afterScheme?_eq scheme
  have place : '?' ∉ (cutLast '@' rest).2 := fun within =>
    bare (parts ▸ List.mem_append_right _ (Text.cutLast_subset _ _ within))
  rw [Text.cutFirst_eq_none place] at placed queried
  cases queried
  refine ⟨none_, valid, rest, fun more => ?_, place, placed⟩
  rw [parts, List.append_assoc, starts]

def optionQuery (key : String) (value : List Char) : List Char := key.toList ++ '=' :: value

theorem ne_withStartupOption {key text : String} (below : ∀ option ∈ d.startupOptions,
    (Utf8.encode option.2).length < (Utf8.encode text).length) :
    d ≠ c.withStartupOption key text := by
  rintro rfl
  have less := below (key, text) (KeyOrder.mem_insert_self key text c.startupOptions)
  exact Nat.lt_irrefl _ less

section

variable {key text : String} {value : List Char}

theorem applyPair_option (noEquals : '=' ∉ key.toList) (unknown : key ∉ parameterNames)
    (decoded : Percent.decode value = .ok text) :
    c.applyPair (optionQuery key value) = .ok (c.withStartupOption key text) := by
  rw [applyPair, optionQuery, Text.cutFirst_append noEquals]
  dsimp only [Option.getD_some]
  rw [decoded, String.ofList_toList]
  exact applyParameter_option unknown text

theorem applyQuery_option_iff (none_ : c.startupOptions = [])
    (plain : ∀ x ∈ ['=', '&'], x ∉ key.toList) (unknown : key ∉ parameterNames)
    (spelled : Spells (Utf8.encodeChars value) (Utf8.encode text)) :
    c.applyQuery (optionQuery key value) = .ok (c.withStartupOption key text) ↔ '&' ∉ value := by
  simp only [List.forall_mem_cons] at plain
  obtain ⟨noEquals, noAmpersand, -⟩ := plain
  by_cases ampersand : '&' ∈ value
  · refine iff_of_false (fun applied => ?_) fun absent => absent ampersand
    obtain ⟨front, behind, rfl, first⟩ := List.eq_append_cons_of_mem ampersand
    obtain ⟨before, after⟩ := Percent.below_of_cut (by decide) rfl spelled
    have cut : optionQuery key (front ++ '&' :: behind) = optionQuery key front ++ '&' :: behind := by
      simp [optionQuery]
    refine ne_withStartupOption (applyQuery_below none_ ?_ applied) rfl
    rw [cut, Text.splitAll_append (by simp [optionQuery, noAmpersand, first]), List.forall_mem_cons]
    refine ⟨?_, fun part mem => (after.splitAll (by decide) rfl part mem).rest (by decide) rfl⟩
    rw [optionQuery, Text.cutFirst_append noEquals]
    exact before
  · refine iff_of_true ?_ ampersand
    have whole : '&' ∉ optionQuery key value := by simp [optionQuery, noAmpersand, ampersand]
    have filled : (optionQuery key value).isEmpty = false := by simp [optionQuery]
    have decoded : Percent.decode value = .ok text :=
      Percent.decode_eq_ok_iff.mpr (Percent.bytes?_of_spells spelled)
    rw [applyQuery, Text.splitAll_eq_singleton whole, List.filter_cons, filled]
    change (c.applyPair (optionQuery key value) >>= pure) = _
    rw [applyPair_option noEquals unknown decoded]
    rfl

/-- Behind an `@` in the value stand another host and other parameters, none of which has the whole
value. -/
theorem ofUrl_ne_of_at {url : String} {rest : List Char}
    (scheme : afterScheme? url.toList = some (rest ++ '?' :: optionQuery key value))
    (spelled : Spells (Utf8.encodeChars value) (Utf8.encode text)) (at_ : '@' ∈ value) :
    ofUrl url ≠ .ok (c.withStartupOption key text) := by
  intro parsed
  obtain ⟨front, behind, rfl, last⟩ := Text.exists_last at_
  obtain ⟨-, below⟩ := Percent.below_of_cut (by decide) rfl spelled
  have cut : rest ++ '?' :: optionQuery key (front ++ '@' :: behind) =
      (rest ++ '?' :: optionQuery key front) ++ '@' :: behind := by
    simp [optionQuery]
  obtain ⟨_, b, scheme', -, queried, none_, -⟩ := ofUrl_ok parsed
  cases scheme.symm.trans scheme'
  rw [cut, Text.cutLast_append last] at queried
  refine ne_withStartupOption (applyQuery_below none_ ?_ queried) rfl
  intro part mem
  exact ((below.rest (by decide) rfl).splitAll (by decide) rfl part mem).rest (by decide) rfl

/-- An option behind a URL without parameters sets that option and nothing else exactly when no `@`
stands in its value as it is written, and no `&`, with which another parameter begins. -/
theorem ofUrl_option_iff {url : String} (accepted : ofUrl url = .ok c) (bare : '?' ∉ url.toList)
    (plain : ∀ x ∈ ['=', '&', '@'], x ∉ key.toList) (unknown : key ∉ parameterNames)
    (spelled : Spells (Utf8.encodeChars value) (Utf8.encode text)) :
    ofUrl (url ++ "?" ++ key ++ "=" ++ String.ofList value) = .ok (c.withStartupOption key text) ↔
      '@' ∉ value ∧ '&' ∉ value := by
  obtain ⟨none_, valid, rest, starts, place, placed⟩ := ofUrl_bare accepted bare
  have chars : (url ++ "?" ++ key ++ "=" ++ String.ofList value).toList =
      url.toList ++ '?' :: optionQuery key value := by
    simp [optionQuery]
  have scheme := chars ▸ starts ('?' :: optionQuery key value)
  by_cases at_ : '@' ∈ value
  · exact iff_of_false (ofUrl_ne_of_at scheme spelled at_) fun absent => absent.1 at_
  · have noAt : '@' ∉ '?' :: optionQuery key value := by
      simp [optionQuery, plain '@' (by simp), at_]
    have fewer : ['=', '&'] ⊆ ['=', '&', '@'] := by decide
    have option :=
      applyQuery_option_iff none_ (fun x mem => plain x (fewer mem)) unknown spelled
    have still : (c.withStartupOption key text).validated = .ok (c.withStartupOption key text) := by
      have same : (c.withStartupOption key text).validate = .ok () := valid
      rw [validated, same]
      rfl
    rw [ofUrl_eq scheme, Text.cutLast_append_right noAt, Text.cutFirst_append place, placed]
    change (c.applyQuery (optionQuery key value) >>= validated) = _ ↔ _
    rw [and_iff_right at_, ← option]
    constructor
    · intro parsed
      obtain ⟨d, applied, parsed⟩ := bind_ok parsed
      obtain ⟨-, rfl⟩ := validated_ok parsed
      exact applied
    · intro applied
      rw [applied]
      exact still

end

theorem ofUrl_option_iff_punctuated :
    ofUrl "postgres://db" = .ok { default with host := "db" } ∧
      ofUrl "postgres://db?search_path=a:/?%40" =
        .ok { default with host := "db", startupOptions := [("search_path", "a:/?@")] } := by
  have accepted : ofUrl "postgres://db" = .ok { default with host := "db" } := by decide
  have unsigned : ¬ Percent.HasSign "a:/?%40".toList := by
    unfold Percent.HasSign
    decide +kernel
  have bytes : Percent.bytes? "a:/?%40".toList = some (Utf8.encode "a:/?@") := by decide
  have url : "postgres://db" ++ "?" ++ "search_path" ++ "=" ++ String.ofList "a:/?%40".toList =
      "postgres://db?search_path=a:/?%40" := by decide
  have unknown : "search_path" ∉ parameterNames := by simp [parameterNames]
  have option := ofUrl_option_iff accepted (by decide) (by simp) unknown
    (Percent.spells_of_bytes? unsigned bytes)
  rw [url] at option
  exact ⟨accepted, option.mpr ⟨by decide, by decide⟩⟩

/-- The last `@` of a URL is taken for the end of the credentials though it stands in a parameter:
what stands behind it becomes the host, and the rest the name of the user. -/
theorem ofUrl_hostInOption :
    ofUrl "postgres://db" = .ok { default with host := "db" } ∧
      ofUrl "postgres://db?search_path=a@b" =
        .ok { default with host := "b", user := "db?search_path=a" } := by
  refine ⟨by decide, ?_⟩
  have user : Percent.decode "db?search_path=a".toList = .ok "db?search_path=a" :=
    Percent.decode_eq_ok_iff.mpr (by decide)
  have credentials : default.applyCredentials "db?search_path=a".toList =
      .ok { default with user := "db?search_path=a" } := by
    have filled : ¬ "db?search_path=a".toList.isEmpty := by decide
    rw [applyCredentials, if_neg filled, Text.cutFirst_eq_none (by decide)]
    dsimp only
    rw [user]
    rfl
  have scheme : afterScheme? "postgres://db?search_path=a@b".toList =
      some ("db?search_path=a".toList ++ '@' :: ['b']) := by decide
  rw [ofUrl_eq scheme, Text.cutLast_append (by decide)]
  dsimp only [Option.getD_some, applyPlace]
  rw [credentials]
  rfl

end Config

end PgPipeline
