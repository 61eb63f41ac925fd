import PgPipeline.Auth.Scram.History
import PgPipeline.Proofs.Checked
import PgPipeline.Proofs.Reading
import PgPipeline.Proofs.Utf8
import Mathlib.Data.List.Induction

namespace PgPipeline.Scram

variable {letter : Char} {part value : List Char} {parts : List (List Char)}

theorem attribute?_eq_some_iff :
    attribute? letter part = some value ↔ part = letter :: '=' :: value := by
  unfold attribute?
  split
  · next c found =>
    rw [Option.ite_none_right_eq_some]
    simp
  · next other =>
    simp only [reduceCtorEq, false_iff]
    exact other letter value

theorem attribute?_eq_none_iff : attribute? letter part = none ↔ ¬ [letter, '='] <+: part := by
  rw [Option.eq_none_iff_forall_ne_some]
  refine ⟨?_, ?_⟩
  · rintro absent ⟨value, rfl⟩
    exact absent value (attribute?_eq_some_iff.mpr rfl)
  · rintro absent value found
    exact absent ⟨value, (attribute?_eq_some_iff.mp found).symm⟩

def lastValue? (letter : Char) (parts : List (List Char)) : Option (List Char) :=
  parts.reverse.findSome? (attribute? letter)

theorem lastValue?_concat :
    lastValue? letter (parts ++ [part]) = (attribute? letter part).or (lastValue? letter parts) := by
  rw [lastValue?, List.reverse_concat, List.findSome?_cons]
  cases attribute? letter part <;> rfl

def count? (value : List Char) : Option Nat :=
  ((Number.IntegerRange.unsigned 32).read value).toOption.map Int.toNat

theorem count?_eq_some_iff {n : Nat} :
    count? value = some n ↔ Number.Spells value n ∧ n < 2 ^ 32 := by
  rw [count?, Option.map_eq_some_iff]
  constructor
  · rintro ⟨m, found, rfl⟩
    cases read : (Number.IntegerRange.unsigned 32).read value with
    | error e =>
      rw [read] at found
      cases found
    | ok m =>
      rw [read] at found
      cases found
      obtain ⟨n, rfl, spells⟩ := Number.IntegerRange.read_unsigned_eq_ok_iff.mp read
      exact spells
  · intro spells
    have read := Number.IntegerRange.read_unsigned_eq_ok_iff.mpr ⟨n, rfl, spells⟩
    exact ⟨n, by rw [read]; rfl, Int.toNat_natCast n⟩

/-- What the server's first message can contain: every salt is in Base64, every count is a number
that a word holds, and there is no report of an error. -/
def Legible (part : List Char) : Prop :=
  (∀ value, attribute? 's' part = some value → ∃ salt, value = Base64.encode salt) ∧
    (∀ value, attribute? 'i' part = some value → ∃ n, Number.Spells value n ∧ n < 2 ^ 32) ∧
    attribute? 'e' part = none

namespace Challenge

variable {c d : Challenge}

theorem read_eq_ok_iff :
    c.read part = .ok d ↔ Legible part ∧
      d = ⟨(attribute? 'r' part).or c.nonce,
        ((attribute? 's' part).bind Base64.decode?).or c.salt,
        ((attribute? 'i' part).bind count?).or c.iterations⟩ := by
  simp only [Legible, ← Base64.decode?_eq_some_iff, ← count?_eq_some_iff]
  -- The letters differ, so a part is at most one of the attributes.
  cases nonce : attribute? 'r' part with
  | some value =>
    cases attribute?_eq_some_iff.mp nonce
    simp [Challenge.read, attribute?, eq_comm]
  | none =>
  cases salt : attribute? 's' part with
  | some value =>
    cases attribute?_eq_some_iff.mp salt
    cases read : Base64.decode? value <;> simp [Challenge.read, attribute?, read, eq_comm]
  | none =>
  cases iterations : attribute? 'i' part with
  | some value =>
    cases attribute?_eq_some_iff.mp iterations
    cases read : (Number.IntegerRange.unsigned 32).read value <;>
      simp [Challenge.read, attribute?, count?, Except.toOption, read, eq_comm]
  | none =>
    cases report : attribute? 'e' part with
    | some reason => simp [Challenge.read, nonce, salt, iterations, report]
    | none =>
      simp only [Challenge.read, nonce, salt, iterations, report, Except.ok.injEq]
      simpa using eq_comm

def gather (parts : List (List Char)) : Challenge :=
  ⟨lastValue? 'r' parts, (lastValue? 's' parts).bind Base64.decode?,
    (lastValue? 'i' parts).bind count?⟩

theorem gather_concat (legible : Legible part) :
    gather (parts ++ [part]) = ⟨(attribute? 'r' part).or (gather parts).nonce,
      ((attribute? 's' part).bind Base64.decode?).or (gather parts).salt,
      ((attribute? 'i' part).bind count?).or (gather parts).iterations⟩ := by
  obtain ⟨salts, counts, -⟩ := legible
  simp only [gather, lastValue?_concat, mk.injEq, true_and]
  constructor
  · cases found : attribute? 's' part with
    | none => rfl
    | some value =>
      obtain ⟨salt, written⟩ := salts value found
      have read := Base64.decode?_eq_some_iff.mpr written
      simp [read]
  · cases found : attribute? 'i' part with
    | none => rfl
    | some value =>
      obtain ⟨n, spells⟩ := counts value found
      have read := count?_eq_some_iff.mpr spells
      simp [read]

theorem readAll_eq_ok_iff :
    parts.foldlM Challenge.read ⟨none, none, none⟩ = .ok d ↔
      (∀ part ∈ parts, Legible part) ∧ d = gather parts := by
  induction parts using List.reverseRecOn generalizing d with
  | nil => simp [gather, lastValue?, pure, Except.pure, eq_comm]
  | append_singleton parts part ih =>
    simp only [List.foldlM_append, List.foldlM_cons, List.foldlM_nil, bind_pure, bind_eq_ok_iff, ih,
      read_eq_ok_iff, List.forall_mem_append, List.forall_mem_singleton]
    constructor
    · rintro ⟨c, ⟨others, rfl⟩, legible, rfl⟩
      exact ⟨⟨others, legible⟩, (gather_concat legible).symm⟩
    · rintro ⟨⟨others, legible⟩, rfl⟩
      exact ⟨_, ⟨others, rfl⟩, legible, gather_concat legible⟩

end Challenge

namespace Client

variable {c : Client} {message : Bytes} {x : Exchange}

theorem accept_eq_ok_iff {challenge : Challenge} {nonce : List Char} {salt : Bytes} {count : Nat} :
    c.accept challenge = .ok (nonce, salt, count) ↔
      challenge = ⟨some nonce, some salt, some count⟩ ∧ 0 < count ∧
        ∃ more, more ≠ [] ∧ nonce = c.nonce ++ more := by
  have longer (nonce : List Char) : (c.nonce.isPrefixOf nonce ∧ c.nonce ≠ nonce) ↔
      ∃ more, more ≠ [] ∧ nonce = c.nonce ++ more := by
    rw [List.isPrefixOf_iff_prefix]
    constructor
    · rintro ⟨⟨more, rfl⟩, other⟩
      exact ⟨more, by rintro rfl; exact other (List.append_nil _).symm, rfl⟩
    · rintro ⟨more, some, rfl⟩
      exact ⟨List.prefix_append _ _, by simpa using some⟩
  obtain ⟨nonce?, salt?, count?⟩ := challenge
  simp only [accept, Challenge.mk.injEq, ← longer]
  split
  · simp
  · simp
  · simp
  · next nonce' salt' count' =>
    split
    · next none =>
      simp only [reduceCtorEq, Option.some.injEq, false_iff]
      omega
    next some =>
    split
    · next grown =>
      constructor
      · rintro ⟨⟩
        exact ⟨⟨rfl, rfl, rfl⟩, by omega, grown⟩
      · rintro ⟨⟨⟨⟩, ⟨⟩, ⟨⟩⟩, -⟩
        rfl
    · next other =>
      refine ⟨nofun, ?_⟩
      rintro ⟨⟨⟨⟩, -⟩, -, grown⟩
      exact absurd grown other

/-- What the client and the sender of a first message agree on: the sender has made the client's
nonce longer, and says a salt and a count; all that was said is kept for the signatures. -/
def AgreesOn (c : Client) (message : Bytes) (x : Exchange) : Prop :=
  ∃ text more salt value count, message = Utf8.encode text ∧
    (∀ part ∈ Text.splitAll ',' text.toList, Legible part) ∧
    lastValue? 'r' (Text.splitAll ',' text.toList) = some (c.nonce ++ more) ∧ more ≠ [] ∧
    lastValue? 's' (Text.splitAll ',' text.toList) = some (Base64.encode salt) ∧
    lastValue? 'i' (Text.splitAll ',' text.toList) = some value ∧
    Number.Spells value count ∧ 0 < count ∧ count < 2 ^ 32 ∧
    x = ⟨Digest.stretchPassword (Utf8.encode c.password) salt count,
      Utf8.encodeChars (c.transcript text.toList (c.nonce ++ more))⟩

theorem receiveFirst_eq_ok_iff {next : Client} :
    (∃ reply, c.receiveFirst message = .ok (reply, next)) ↔
      ∃ x, c.AgreesOn message x ∧ next = { c with exchange := some x } := by
  constructor
  · rintro ⟨reply, taken⟩
    rw [receiveFirst] at taken
    split at taken
    · cases taken
    next text decoded =>
    obtain ⟨challenge, read, taken⟩ := bind_ok taken
    obtain ⟨⟨nonce, salt, count⟩, accepted, taken⟩ := bind_ok taken
    obtain ⟨legible, rfl⟩ := Challenge.readAll_eq_ok_iff.mp read
    obtain ⟨found, positive, more, grown, rfl⟩ := accept_eq_ok_iff.mp accepted
    simp only [Challenge.gather, Challenge.mk.injEq, Option.bind_eq_some_iff,
      Base64.decode?_eq_some_iff, count?_eq_some_iff] at found
    obtain ⟨nonce, ⟨_, salt, rfl⟩, value, iterations, spells, small⟩ := found
    cases taken
    exact ⟨_, ⟨text, more, _, value, count, (Utf8.decode_eq_ok_iff.mp decoded).symm, legible, nonce,
      grown, salt, iterations, spells, positive, small, rfl⟩, rfl⟩
  · rintro ⟨x, ⟨text, more, salt, value, count, rfl, legible, nonce, grown, salted, iterations,
      spells, positive, small, rfl⟩, rfl⟩
    have found : Challenge.gather (Text.splitAll ',' text.toList) =
        ⟨some (c.nonce ++ more), some salt, some count⟩ := by
      simp only [Challenge.gather, nonce, salted, iterations, Option.bind_some,
        Base64.decode?_encode, count?_eq_some_iff.mpr ⟨spells, small⟩]
    have read := Challenge.readAll_eq_ok_iff.mpr ⟨legible, rfl⟩
    have accepted := accept_eq_ok_iff.mpr ⟨found, positive, more, grown, rfl⟩
    rw [receiveFirst, Utf8.decode_encode]
    simp only [read, bind, Except.bind, accepted]
    exact ⟨_, rfl⟩

theorem verifyFinal_eq_ok_iff :
    c.verifyFinal message = .ok () ↔ ∃ x text, c.exchange = some x ∧ message = Utf8.encode text ∧
      ¬ ['e', '='] <+: text.toList ∧
      text.toList.takeWhile (· ≠ ',') = 'v' :: '=' :: Base64.encode x.signature := by
  constructor
  · intro verified
    rw [verifyFinal] at verified
    split at verified
    · cases verified
    next text decoded =>
    split at verified
    · cases verified
    next noReport =>
    split at verified
    · cases verified
    next signature found =>
    rw [Text.head?_splitAll, Option.bind_some, Option.bind_eq_some_iff] at found
    obtain ⟨value, first, read⟩ := found
    split at verified
    · cases verified
    next x noted =>
    split at verified
    · next right =>
      rw [right, Base64.decode?_eq_some_iff] at read
      rw [attribute?_eq_some_iff, read] at first
      exact ⟨x, text, noted, (Utf8.decode_eq_ok_iff.mp decoded).symm,
        attribute?_eq_none_iff.mp noReport, first⟩
    · cases verified
  · rintro ⟨x, text, noted, rfl, noReport, first⟩
    have found : (((Text.splitAll ',' text.toList).head?.bind (attribute? 'v')).bind
        Base64.decode?) = some x.signature := by
      rw [Text.head?_splitAll, Option.bind_some, attribute?_eq_some_iff.mpr first, Option.bind_some,
        Base64.decode?_encode]
    rw [verifyFinal, Utf8.decode_encode]
    dsimp only
    rw [attribute?_eq_none_iff.mpr noReport]
    dsimp only
    rw [found]
    dsimp only
    rw [noted]
    exact if_pos rfl

theorem AgreesOn.unique {y : Exchange} (first : c.AgreesOn message x)
    (second : c.AgreesOn message y) : x = y := by
  -- Both are what the client holds after taking the message.
  obtain ⟨reply, taken⟩ := receiveFirst_eq_ok_iff.mpr ⟨x, first, rfl⟩
  obtain ⟨reply', taken'⟩ := receiveFirst_eq_ok_iff.mpr ⟨y, second, rfl⟩
  rw [taken] at taken'
  cases taken'
  rfl

theorem process_result (c : Client) (message : Bytes) :
    match process message c with
    | .ok _ next => ∃ x, c.AgreesOn message x ∧ next = { c with exchange := some x }
    | .error _ next => (∀ x, ¬ c.AgreesOn message x) ∧ next = c := by
  rw [process_eq]
  cases taken : c.receiveFirst message with
  | ok pair => exact receiveFirst_eq_ok_iff.mp ⟨pair.1, taken⟩
  | error e =>
    refine ⟨fun x agreed => ?_, rfl⟩
    obtain ⟨reply, accepted⟩ := receiveFirst_eq_ok_iff.mpr ⟨x, agreed, rfl⟩
    rw [taken] at accepted
    cases accepted

variable {call : Call} {calls : List Call}

def Accepts (c : Client) (call : Call) (x : Exchange) : Prop :=
  ∃ message, call = .first message ∧ c.AgreesOn message x

theorem Accepts.unique {y : Exchange} (first : c.Accepts call x) (second : c.Accepts call y) :
    x = y := by
  obtain ⟨message, rfl, agreed⟩ := first
  obtain ⟨_, ⟨⟩, same⟩ := second
  exact agreed.unique same

/-- This was agreed on in the latest call that was accepted. -/
def Latest (c : Client) (calls : List Call) (x : Exchange) : Prop :=
  ∃ earlier call later, calls = earlier ++ call :: later ∧ c.Accepts call x ∧
    ∀ late ∈ later, ∀ y, ¬ c.Accepts late y

theorem latest_concat : c.Latest (calls ++ [call]) x ↔
    c.Accepts call x ∨ c.Latest calls x ∧ ∀ y, ¬ c.Accepts call y := by
  constructor
  · rintro ⟨earlier, last, later, split, accepted, refused⟩
    rcases List.eq_nil_or_concat' later with rfl | ⟨front, other, rfl⟩
    · obtain ⟨-, same⟩ := List.append_inj' split rfl
      cases same
      exact .inl accepted
    · rw [← List.cons_append, ← List.append_assoc] at split
      obtain ⟨rfl, same⟩ := List.append_inj' split rfl
      cases same
      refine .inr ⟨⟨earlier, last, front, rfl, accepted, fun late mem => refused late ?_⟩,
        refused call ?_⟩
      · exact List.mem_append_left _ mem
      · exact List.mem_append_right _ List.mem_cons_self
  · rintro (accepted | ⟨⟨earlier, last, later, rfl, accepted, refused⟩, never⟩)
    · exact ⟨calls, call, [], rfl, accepted, nofun⟩
    · refine ⟨earlier, last, later ++ [call], by simp, accepted, ?_⟩
      rw [List.forall_mem_append, List.forall_mem_singleton]
      exact ⟨refused, never⟩

theorem perform_cases (c : Client) (call : Call) :
    (∃ x, c.Accepts call x ∧ c.perform call = { c with exchange := some x }) ∨
      (∀ x, ¬ c.Accepts call x) ∧ c.perform call = c := by
  cases call with
  | final message => exact .inr ⟨nofun, rfl⟩
  | first message =>
    have result := process_result c message
    cases taken : process message c with
    | ok _ next =>
      rw [taken] at result
      obtain ⟨x, agreed, moved⟩ := result
      exact .inl ⟨x, ⟨message, rfl, agreed⟩, by rw [perform, taken, ← moved]⟩
    | error _ next =>
      rw [taken] at result
      obtain ⟨refused, kept⟩ := result
      refine .inr ⟨?_, by rw [perform, taken, ← kept]⟩
      rintro x ⟨_, ⟨⟩, agreed⟩
      exact refused x agreed

theorem run_eq (fresh : c.exchange = none) (calls : List Call) :
    ∃ noted, c.run calls = { c with exchange := noted } ∧ ∀ x, noted = some x ↔ c.Latest calls x := by
  -- The last call decides if it is accepted; otherwise those in front of it do.
  induction calls using List.reverseRecOn with
  | nil =>
    refine ⟨none, by rw [← fresh]; rfl, fun x => ⟨nofun, ?_⟩⟩
    rintro ⟨earlier, call, later, split, -⟩
    exact absurd split.symm (by simp)
  | append_singleton calls call ih =>
    obtain ⟨noted, ran, latest⟩ := ih
    have step : c.run (calls ++ [call]) = (c.run calls).perform call := by
      rw [run, List.foldl_append]
      rfl
    rw [step, ran]
    -- Whom the client agrees with does not depend on what it has noted.
    rcases perform_cases { c with exchange := noted } call with ⟨x, accepted, moved⟩ | ⟨refused, kept⟩
    · refine ⟨some x, moved, fun y => ?_⟩
      have agreed : c.Accepts call x := accepted
      rw [latest_concat]
      constructor
      · rintro ⟨⟩
        exact .inl agreed
      · rintro (same | ⟨-, refused⟩)
        · exact congrArg some (agreed.unique same)
        · exact absurd agreed (refused x)
    · refine ⟨noted, kept, fun x => ?_⟩
      have never : ∀ y, ¬ c.Accepts call y := refused
      rw [latest_concat, latest]
      constructor
      · exact fun agreed => .inr ⟨agreed, never⟩
      · rintro (agreed | ⟨agreed, -⟩)
        · exact absurd agreed (never x)
        · exact agreed

/-- A client takes the server's first message only if the server extends the client's nonce and says
a salt and a count, and is left as it was otherwise; and it takes the last one exactly if that begins
with the signature over the latest exchange, in its one form. -/
theorem accepts_only_right_signature :
    (∀ c message,
      match process message c with
      | .ok _ next => ∃ x, c.AgreesOn message x ∧ next = { c with exchange := some x }
      | .error _ next => (∀ x, ¬ c.AgreesOn message x) ∧ next = c) ∧
    ∀ user password nonce binding calls message,
      ((start user password nonce binding).run calls).verifyFinal message = .ok () ↔
        ∃ x text, (start user password nonce binding).Latest calls x ∧
          message = Utf8.encode text ∧ ¬ ['e', '='] <+: text.toList ∧
          ∃ signature, signature.length = 32 ∧
            signature = Digest.hmac (Digest.hmac x.saltedPassword (Utf8.encode "Server Key"))
              x.transcript ∧
            text.toList.takeWhile (· ≠ ',') = 'v' :: '=' :: Base64.encode signature := by
  refine ⟨process_result, ?_⟩
  intro user password nonce binding calls message
  obtain ⟨noted, ran, latest⟩ := run_eq (c := start user password nonce binding) rfl calls
  rw [ran, verifyFinal_eq_ok_iff]
  simp only [latest]
  constructor
  · rintro ⟨x, text, agreed, written, noReport, first⟩
    exact ⟨x, text, agreed, written, noReport, x.signature, Digest.length_hmac _ _, rfl, first⟩
  · rintro ⟨x, text, agreed, written, noReport, signature, -, rfl, first⟩
    exact ⟨x, text, agreed, written, noReport, first⟩

end Client

end PgPipeline.Scram
