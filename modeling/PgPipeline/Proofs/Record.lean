import PgPipeline.Connection

namespace PgPipeline

variable {ρ : Type}

def FrontendMessage.isCredential : FrontendMessage → Bool
  | .password _ => true
  | .saslInitial .. => true
  | .saslResponse _ => true
  | _ => false

def BackendMessage.asksPassword : BackendMessage → Bool
  | .cleartextPassword => true
  | .md5Password _ => true
  | _ => false

def BackendMessage.asksCredential : BackendMessage → Bool
  | .sasl _ => true
  | m => m.asksPassword

def BackendMessage.isPlain : BackendMessage → Bool
  | .dataRow _ => false
  | .commandComplete _ => false
  | .readyForQuery _ => false
  | _ => true

def FrontendMessage.isQuery : FrontendMessage → Bool
  | .parse .. => true
  | .bind .. => true
  | .execute .. => true
  | .describe .. => true
  | .close .. => true
  | .sync => true
  | _ => false

def FrontendMessage.isPassword : FrontendMessage → Bool
  | .password _ => true
  | _ => false

def FrontendMessage.isInitial : FrontendMessage → Bool
  | .saslInitial .. => true
  | _ => false

namespace Entry

def number? : Entry ρ → Option Nat
  | .resolved r => some r.number
  | _ => none

def sentNumber? : Entry ρ → Option Nat
  | .sent number _ => some number
  | _ => none

def finishedNumber? : Entry ρ → Option Nat
  | .finished number => some number
  | _ => none

def resolution? : Entry ρ → Option (Resolution ρ)
  | .resolved r => some r
  | _ => none

def subject? : Entry ρ → Option Nat
  | .sent number _ => some number
  | .finished number => some number
  | .offered number _ => some number
  | .concluded number _ => some number
  | _ => none

def queuedMessages : Entry ρ → List FrontendMessage
  | .queued messages => messages
  | _ => []

def stageAfter (s : Stage) : Entry ρ → Stage
  | .moved next => next
  | _ => s

def ofWork : Entry ρ → Bool
  | .received _ => true
  | .queued messages => messages.any FrontendMessage.isQuery
  | .sent .. => true
  | .finished _ => true
  | .offered .. => true
  | .concluded .. => true
  | .resolved _ => true
  | .moved _ => false
  | .wrote _ => false
  | .endedChannel => false
  | .informed .. => false

def ofPipeline : Entry ρ → Bool
  | .resolved _ => false
  | e => e.ofWork

theorem ofPipeline_eq_false {e : Entry ρ} (h : e.ofWork = false) : e.ofPipeline = false := by
  cases e <;> first | rfl | exact h

def ofLogin : Entry ρ → Bool
  | .received message => message.asksCredential
  | .moved stage => stage == .ready
  | .queued messages => messages.any FrontendMessage.isCredential
  | _ => false

def discloses : Entry ρ → Bool
  | .queued messages => messages.any FrontendMessage.isPassword
  | _ => false

theorem discloses_eq_false {e : Entry ρ} (h : e.ofLogin = false) : e.discloses = false := by
  cases e with
  | queued messages =>
    refine List.any_eq_false.mpr fun m hm => ?_
    have quiet := List.any_eq_false.mp h m hm
    cases m <;> first | exact Bool.false_ne_true | exact absurd rfl quiet
  | _ => rfl

end Entry

namespace Record

def resolved (es : List (Entry ρ)) : List Nat := es.filterMap Entry.number?

def resolutions (es : List (Entry ρ)) : List (Resolution ρ) := es.filterMap Entry.resolution?

def sent (es : List (Entry ρ)) : List Nat := es.filterMap Entry.sentNumber?

def finished (es : List (Entry ρ)) : List Nat := es.filterMap Entry.finishedNumber?

def queued (es : List (Entry ρ)) : List FrontendMessage := es.flatMap Entry.queuedMessages

def exchanges (es : List (Entry ρ)) : Nat := (queued es).countP FrontendMessage.isInitial

def stageFrom (s : Stage) (es : List (Entry ρ)) : Stage := es.foldl Entry.stageAfter s

def stage (es : List (Entry ρ)) : Stage := stageFrom .disconnected es

variable (as bs : List (Entry ρ))

@[simp] theorem resolved_append : resolved (as ++ bs) = resolved as ++ resolved bs :=
  List.filterMap_append

@[simp] theorem resolutions_append : resolutions (as ++ bs) = resolutions as ++ resolutions bs :=
  List.filterMap_append

@[simp] theorem sent_append : sent (as ++ bs) = sent as ++ sent bs := List.filterMap_append

@[simp] theorem finished_append : finished (as ++ bs) = finished as ++ finished bs :=
  List.filterMap_append

@[simp] theorem queued_append : queued (as ++ bs) = queued as ++ queued bs := List.flatMap_append

@[simp] theorem exchanges_append : exchanges (as ++ bs) = exchanges as + exchanges bs := by
  rw [exchanges, queued_append, List.countP_append]
  rfl

theorem isQuery_of_still {es : List (Entry ρ)} (h : ∀ e ∈ es, e.ofPipeline = false) :
    ∀ m ∈ queued es, m.isQuery = false := by
  intro m hm
  obtain ⟨e, he, hq⟩ := List.mem_flatMap.mp hm
  cases e with
  | queued messages => simpa using List.any_eq_false.mp (h _ he) m hq
  | _ => exact absurd hq List.not_mem_nil

theorem still_eq {es : List (Entry ρ)} (h : ∀ e ∈ es, e.ofPipeline = false) :
    sent es = [] ∧ finished es = [] ∧ (queued es).count .sync = 0 := by
  refine ⟨?_, ?_, ?_⟩
  · refine List.filterMap_eq_nil_iff.mpr fun e he => ?_
    have still := h e he
    cases e <;> first | rfl | cases still
  · refine List.filterMap_eq_nil_iff.mpr fun e he => ?_
    have still := h e he
    cases e <;> first | rfl | cases still
  · exact List.count_eq_zero.mpr fun sync => absurd (isQuery_of_still h _ sync) (by decide)

theorem exchanges_eq_zero {es : List (Entry ρ)} (h : ∀ e ∈ es, e.ofLogin = false) :
    exchanges es = 0 := by
  refine List.countP_eq_zero.mpr fun m hm => ?_
  obtain ⟨e, he, hq⟩ := List.mem_flatMap.mp hm
  cases e with
  | queued ms =>
    have quiet : ms.any FrontendMessage.isCredential = false := h _ he
    have hm : m.isCredential = false := by simpa using List.any_eq_false.mp quiet m hq
    cases m <;> first | exact Bool.false_ne_true | cases hm
  | _ => exact absurd hq List.not_mem_nil

theorem forall_isPassword_iff {es : List (Entry ρ)} :
    (∀ m ∈ queued es, m.isPassword = false) ↔ ∀ e ∈ es, e.discloses = false := by
  constructor
  · intro h e he
    cases e with
    | queued messages =>
      refine List.any_eq_false.mpr fun m hm => ?_
      simp [h m (List.mem_flatMap.mpr ⟨_, he, hm⟩)]
    | _ => rfl
  · intro h m hm
    obtain ⟨e, he, hq⟩ := List.mem_flatMap.mp hm
    cases e with
    | queued messages => simpa using List.any_eq_false.mp (h _ he) m hq
    | _ => exact absurd hq List.not_mem_nil

theorem stageFrom_append (s : Stage) : stageFrom s (as ++ bs) = stageFrom (stageFrom s as) bs :=
  List.foldl_append

theorem stage_append : stage (as ++ bs) = stageFrom (stage as) bs := stageFrom_append as bs _

theorem stageFrom_eq_self {s : Stage} {es : List (Entry ρ)}
    (h : ∀ e ∈ es, e.stageAfter s = s) : stageFrom s es = s := by
  induction es with
  | nil => rfl
  | cons e rest ih =>
    rw [stageFrom, List.foldl_cons, h e List.mem_cons_self]
    exact ih fun f hf => h f (List.mem_cons_of_mem _ hf)

theorem mem_of_stageFrom {s stage : Stage} {es : List (Entry ρ)} (h : stageFrom s es = stage)
    (new : s ≠ stage) : .moved stage ∈ es := by
  induction es generalizing s with
  | nil => exact absurd h new
  | cons e rest ih =>
    rcases Classical.em (e.stageAfter s = stage) with now | not_yet
    · cases e with
      | moved next => exact now ▸ List.mem_cons_self
      | _ => exact absurd now new
    · exact List.mem_cons_of_mem _ (ih h not_yet)

theorem resolved_map (rs : List (Resolution ρ)) :
    resolved (rs.map .resolved) = rs.map (·.number) := by
  induction rs with
  | nil => rfl
  | cons r rest ih => exact congrArg (r.number :: ·) ih

theorem resolutions_map (rs : List (Resolution ρ)) : resolutions (rs.map .resolved) = rs := by
  rw [resolutions, List.filterMap_map]
  exact List.filterMap_some

theorem mem_resolutions {es : List (Entry ρ)} {r : Resolution ρ} :
    r ∈ resolutions es ↔ .resolved r ∈ es := by
  unfold resolutions
  rw [List.mem_filterMap]
  constructor
  · rintro ⟨e, he, h⟩
    cases e with
    | resolved s => exact Option.some_inj.mp h ▸ he
    | _ => cases h
  · exact fun h => ⟨_, h, rfl⟩

theorem resolved_eq (es : List (Entry ρ)) : resolved es = (resolutions es).map (·.number) := by
  have number (e : Entry ρ) : e.number? = e.resolution?.map (·.number) := by cases e <;> rfl
  unfold resolved resolutions
  rw [List.map_filterMap, funext number]

theorem resolved_eq_nil {es : List (Entry ρ)} (h : ∀ e ∈ es, e.ofWork = false) :
    resolved es = [] := by
  refine List.filterMap_eq_nil_iff.mpr fun e he => ?_
  cases e <;> first | rfl | cases h _ he

/-- Every entry stands in a relation to the entries before it. -/
def Each (Q : List (Entry ρ) → Entry ρ → Prop) (es : List (Entry ρ)) : Prop :=
  ∀ before e after, es = before ++ e :: after → Q before e

variable {as bs} {Q : List (Entry ρ) → Entry ρ → Prop}

theorem each_nil : Each Q [] := by
  intro before e after h
  simp at h

theorem each_append (ha : Each Q as)
    (hb : ∀ before e after, bs = before ++ e :: after → Q (as ++ before) e) :
    Each Q (as ++ bs) := by
  intro before e after h
  rcases List.append_eq_append_iff.mp h with ⟨mid, hbefore, hbs⟩ | ⟨mid, has, hrest⟩
  · exact hbefore ▸ hb mid e after hbs
  · cases mid with
    | nil =>
      have hbs : bs = [] ++ e :: after := by simpa using hrest.symm
      simpa [has] using hb [] e after hbs
    | cons x mid =>
      obtain ⟨rfl, -⟩ := List.cons.inj hrest
      exact ha before _ mid has

theorem each_snoc {e : Entry ρ} (ha : Each Q as) (he : Q as e) : Each Q (as ++ [e]) := by
  refine each_append ha ?_
  intro before f after h
  cases before with
  | nil =>
    obtain ⟨rfl, -⟩ := List.cons.inj h
    simpa using he
  | cons x before => simp at h

theorem each_append_of_forall (ha : Each Q as) (hb : ∀ e ∈ bs, ∀ before, Q before e) :
    Each Q (as ++ bs) :=
  each_append ha fun before e after h => hb e (by simp [h]) _

end Record

end PgPipeline
