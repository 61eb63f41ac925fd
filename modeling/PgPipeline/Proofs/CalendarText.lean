import PgPipeline.Proofs.DayNumbers
import PgPipeline.Proofs.Digits
import PgPipeline.Value

namespace PgPipeline

namespace Date

variable {d : Date} {cs : List Char}

/-- A year of four digits, or behind its sign a year before 0 or after 9999, of four digits or as
many more as it takes. -/
inductive IsYearText : Int → List Char → Prop
  | plain {n : Nat} {cs : List Char} (means : Means cs n) (four : cs.length = 4) : IsYearText n cs
  | signed {year : Int} {cs : List Char} (beyond : year < 0 ∨ 9999 < year)
    (means : Means cs year.natAbs) (four : 4 ≤ cs.length)
    (tight : 4 < cs.length → cs.head? ≠ some '0') :
    IsYearText year ((if year < 0 then '-' else '+') :: cs)

def IsText (d : Date) (cs : List Char) : Prop :=
  ∃ year month day, cs = year ++ '-' :: month ++ '-' :: day ∧ IsYearText d.year year ∧
    (Means month d.month ∧ month.length = 2) ∧ Means day d.day ∧ day.length = 2

theorem isText_text (h : d.Exists) : d.IsText d.text := by
  obtain ⟨length, listed, fits⟩ := h.fits
  have month : d.month - 1 < 12 := (List.getElem?_eq_some_iff.mp listed).1
  have day : length ≤ 31 := le_of_mem_monthLengths (List.mem_of_getElem? listed)
  refine ⟨_, padded 2 d.month, padded 2 d.day, by rw [text, List.append_assoc], ?_, ?_, ?_⟩
  · have wide : 4 ≤ (padded 4 d.year.natAbs).length := le_length_padded
    have tight : 4 < (padded 4 d.year.natAbs).length →
        (padded 4 d.year.natAbs).head? ≠ some '0' := head?_padded_ne (by decide)
    split
    · next before =>
      have signed := IsYearText.signed (.inl before) means_padded wide tight
      rwa [if_pos before] at signed
    · split
      · next before after =>
        have signed := IsYearText.signed (.inr after) means_padded wide tight
        rwa [if_neg before] at signed
      · next before after =>
        have digits : Means (padded 4 d.year.natAbs) d.year.natAbs ∧ _ :=
          padded_fits (by decide) (by omega)
        have plain := IsYearText.plain digits.1 digits.2
        rwa [Int.natAbs_of_nonneg (by omega)] at plain
  · exact padded_fits (by decide) (by omega)
  · exact padded_fits (by decide) (by omega)

end Date

namespace Clock

variable {t u : Clock} {hour minute second nanos : Nat}

instance : LE Clock where
  le t u := t.seconds < u.seconds ∨ t.seconds = u.seconds ∧ t.nanos ≤ u.nanos

theorem micros_eq (t : Clock) : t.micros = (t.seconds * 1000000 + t.nanos / 1000 : Nat) := rfl

theorem ofParts?_eq_some_iff : ofParts? hour minute second nanos = some t ↔
    (hour < 24 ∧ minute < 60 ∧ second < 60 ∧
      (nanos < 1000000000 ∨ second = 59 ∧ nanos < 2000000000)) ∧
    t = ⟨hour * 3600 + minute * 60 + second, nanos⟩ := by
  rw [ofParts?, Option.ite_none_right_eq_some, Option.some.injEq, eq_comm (a := t)]

end Clock

def IsClockText (hour minute second micros : Nat) (cs : List Char) : Prop :=
  ∃ h m s places, cs = h ++ ':' :: m ++ ':' :: s ++ '.' :: places ∧
    (Means h hour ∧ h.length = 2) ∧ (Means m minute ∧ m.length = 2) ∧
    (Means s second ∧ s.length = 2) ∧ Means places micros ∧ places.length = 6

theorem isClockText_clockText {hour minute second micros total : Nat} (hours : hour < 24)
    (minutes : minute < 60) (seconds : second < 60) (places : micros < 1000000)
    (sum : total = hour * 3600 + minute * 60 + second) :
    IsClockText hour minute second micros (clockText (total * 1000000 + micros)) := by
  have first : total / 3600 = hour := by omega
  have middle : total / 60 % 60 = minute := by omega
  have last : total % 60 = second := by omega
  have whole : (total * 1000000 + micros) / 1000000 = total := by omega
  have part : (total * 1000000 + micros) % 1000000 = micros := by omega
  refine ⟨padded 2 hour, padded 2 minute, padded 2 second, padded 6 micros, ?_,
    padded_fits (by decide) (by omega), padded_fits (by decide) (by omega),
    padded_fits (by decide) (by omega), padded_fits (by decide) places⟩
  rw [clockText, whole, part, first, middle, last]

namespace Value

variable {d e : Date} {t u : Clock}

theorem dayNumber_epoch : Date.dayNumber ⟨2000, 1, 1⟩ = epochDay := by
  decide

theorem dayNumber_bounds (h : d.Exists) : -95746129 ≤ d.dayNumber ∧ d.dayNumber ≤ 95745399 := by
  have first : Date.dayNumber ⟨Date.minYear, 1, 1⟩ = -95746129 := by decide
  have last : Date.dayNumber ⟨Date.maxYear, 12, 31⟩ = 95745399 := by decide
  rw [← first, ← last]
  exact h.dayNumber_bounds

theorem dateOfDays?_dayNumber (h : d.Exists) : dateOfDays? (d.dayNumber - epochDay) = some d := by
  rw [dateOfDays?, Int.sub_add_cancel, Date.ofDayNumber?_dayNumber h]

theorem timestampChars?_instantMicros (h : d.Exists) (t : Clock) (seconds : t.seconds < 86400)
    (nanos : t.nanos < 1000000000) : timestampChars? (instantMicros d t) =
      some (d.text ++ ' ' :: clockText (t.seconds * 1000000 + t.nanos / 1000)) := by
  have day : (instantMicros d t).fdiv dayMicros = d.dayNumber - epochDay := by
    rw [instantMicros, dayMicros, Int.fdiv_eq_ediv_of_nonneg _ (by decide), t.micros_eq]
    omega
  have rest : (instantMicros d t).fmod dayMicros = t.micros := by
    rw [instantMicros, dayMicros, Int.fmod_eq_emod_of_nonneg _ (by decide), t.micros_eq]
    omega
  rw [timestampChars?, day, rest, dateOfDays?_dayNumber h, t.micros_eq]
  rfl

def unixDay : Int := 719163

theorem dayNumber_unix : Date.dayNumber ⟨1970, 1, 1⟩ = unixDay := by
  decide

/-- The numbers on the way to an instant and back: its seconds since 1970, these in microseconds,
all its microseconds since 1970, and those since 2000. -/
def instantSteps (d : Date) (t : Clock) : List Int :=
  let seconds := (d.dayNumber - unixDay) * 86400 + t.seconds
  let micros := seconds * 1000000 + t.nanos / 1000
  [seconds, seconds * 1000000, micros, micros - (epochDay - unixDay) * dayMicros]

theorem getLast?_instantSteps (d : Date) (t : Clock) :
    (instantSteps d t).getLast? = some (instantMicros d t) := by
  simp only [instantSteps, List.getLast?_cons_cons, List.getLast?_singleton, instantMicros,
    t.micros_eq, dayMicros]
  congr 1
  omega

theorem instantSteps_fit (h : d.Exists) (t : Clock) (seconds : t.seconds < 86400)
    (nanos : t.nanos < 1000000000) : ∀ n ∈ instantSteps d t, -2 ^ 63 ≤ n ∧ n < 2 ^ 63 := by
  have bounds := dayNumber_bounds h
  simp only [instantSteps, unixDay, epochDay, dayMicros, List.forall_mem_cons, List.not_mem_nil]
  refine ⟨?_, ?_, ?_, ?_, nofun⟩ <;> omega

theorem instantMicros_mono (t_seconds : t.seconds < 86400) (t_nanos : t.nanos < 1000000000)
    (d_exists : d.Exists) (e_exists : e.Exists) (before : d < e ∨ d = e ∧ t ≤ u) :
    instantMicros d t ≤ instantMicros e u := by
  rw [instantMicros, instantMicros, dayMicros, t.micros_eq, u.micros_eq]
  rcases before with days | ⟨rfl, seconds | ⟨seconds, nanos⟩⟩
  · have later := Date.dayNumber_lt d_exists e_exists days
    omega
  · omega
  · omega

/-- Every date is printed as itself, and so is every instant but for the nanoseconds below a
microsecond; no number on the way leaves its word. The days are numbered one by one, and later
instants have no fewer microseconds. -/
theorem calendar_forms_exact :
    (∀ d : Date, d.isValid → ∃ days : Int32, ofDate d = .date days ∧
      days.toInt = d.dayNumber - epochDay ∧
      (-2 ^ 31 ≤ d.dayNumber ∧ d.dayNumber < 2 ^ 31) ∧ d.IsText (ofDate d).toText.toList) ∧
    (∀ (d : Date) (hour minute second nanos : Nat) (t : Clock), d.isValid →
      Clock.ofParts? hour minute second nanos = some t → nanos < 1000000000 →
      ∃ (micros : Int64) (date clock : List Char),
        ofDateTime d t = .timestamp micros ∧ ofUniversalTime d t = .timestamptz micros ∧
        micros.toInt = instantMicros d t ∧
        (instantSteps d t).getLast? = some (instantMicros d t) ∧
        (∀ n ∈ instantSteps d t, -2 ^ 63 ≤ n ∧ n < 2 ^ 63) ∧
        d.IsText date ∧ IsClockText hour minute second (nanos / 1000) clock ∧
        (ofDateTime d t).toText = String.ofList (date ++ ' ' :: clock) ∧
        (ofUniversalTime d t).toText = String.ofList (date ++ ' ' :: clock) ++ "+00") ∧
    (Date.dayNumber ⟨2000, 1, 1⟩ = epochDay ∧ Date.dayNumber ⟨1970, 1, 1⟩ = unixDay ∧
      (∀ d e : Date, d.isValid → e.isValid → d.Follows e → e.dayNumber = d.dayNumber + 1) ∧
      ∀ d : Date, d.isValid → d ≠ ⟨Date.maxYear, 12, 31⟩ → ∃ e : Date, e.isValid ∧ d.Follows e) ∧
    ∀ (d e : Date) (t u : Clock), d.isValid → e.isValid → t.seconds < 86400 →
      t.nanos < 1000000000 → (d < e ∨ d = e ∧ t ≤ u) →
      instantMicros d t ≤ instantMicros e u := by
  refine ⟨fun d valid => ?_, fun d hour minute second nanos t valid made ordinary => ?_,
    ⟨dayNumber_epoch, dayNumber_unix, fun d e valid _ next => ?_, fun d valid another => ?_⟩, ?_⟩
  · have h := Date.isValid_iff.mp valid
    have bounds := dayNumber_bounds h
    have word : (Int32.ofInt (d.dayNumber - epochDay)).toInt = d.dayNumber - epochDay :=
      Int32.toInt_ofInt_of_le (by rw [epochDay]; omega) (by rw [epochDay]; omega)
    have text : (ofDate d).toText = String.ofList d.text ++ "" := by
      rw [ofDate, toText, word, dateOfDays?_dayNumber h]
      rfl
    refine ⟨_, rfl, word, ⟨by omega, by omega⟩, ?_⟩
    rw [text, String.append_empty, String.toList_ofList]
    exact Date.isText_text h
  · have h := Date.isValid_iff.mp valid
    obtain ⟨⟨hours, minutes, seconds, -⟩, same⟩ := Clock.ofParts?_eq_some_iff.mp made
    have total : t.seconds = hour * 3600 + minute * 60 + second := congrArg Clock.seconds same
    have rest : t.nanos = nanos := congrArg Clock.nanos same
    have below : t.seconds < 86400 := by omega
    rw [← rest] at ordinary ⊢
    have fits := instantSteps_fit h t below ordinary
    have last := getLast?_instantSteps d t
    have bounds := fits _ (List.mem_of_getLast? last)
    have word := Int64.toInt_ofInt_of_le bounds.1 bounds.2
    have chars := timestampChars?_instantMicros h t below ordinary
    have clock := isClockText_clockText hours minutes seconds
      (show t.nanos / 1000 < 1000000 by omega) total
    refine ⟨_, d.text, _, rfl, rfl, word, last, fits, Date.isText_text h, clock, ?_, ?_⟩
    · rw [ofDateTime, toText, word, chars, calendarText, String.append_empty]
    · rw [ofUniversalTime, toText, word, chars, calendarText]
  · exact next.dayNumber_eq (Date.isValid_iff.mp valid).month
  · obtain ⟨e, e_exists, next⟩ := (Date.isValid_iff.mp valid).exists_next another
    exact ⟨e, Date.isValid_iff.mpr e_exists, next⟩
  · intro d e t u d_valid e_valid seconds nanos before
    exact instantMicros_mono seconds nanos (Date.isValid_iff.mp d_valid)
      (Date.isValid_iff.mp e_valid) before

theorem calendar_forms_exact_leapDay :
    Date.isValid ⟨-4, 2, 29⟩ ∧ Clock.ofParts? 23 59 59 999999999 = some ⟨86399, 999999999⟩ ∧
    ∃ (micros : Int64) (date clock : List Char),
      ofDateTime ⟨-4, 2, 29⟩ ⟨86399, 999999999⟩ = .timestamp micros ∧
      Date.IsText ⟨-4, 2, 29⟩ date ∧ IsClockText 23 59 59 999999 clock ∧
      (ofDateTime ⟨-4, 2, 29⟩ ⟨86399, 999999999⟩).toText = String.ofList (date ++ ' ' :: clock) := by
  have valid : Date.isValid ⟨-4, 2, 29⟩ := by decide
  have made : Clock.ofParts? 23 59 59 999999999 = some ⟨86399, 999999999⟩ := by decide
  obtain ⟨micros, date, clock, value, -, -, -, -, day, time, text, -⟩ :=
    calendar_forms_exact.2.1 _ _ _ _ _ _ valid made (by decide)
  exact ⟨valid, made, micros, date, clock, value, day, time, text⟩

example : (ofUniversalTime ⟨-4, 2, 29⟩ ⟨86399, 999999999⟩).toText =
    "-0004-02-29 23:59:59.999999+00" := by
  decide

end Value

end PgPipeline
