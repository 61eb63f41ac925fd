import PgPipeline.Proofs.CalendarText

namespace PgPipeline

namespace Clock

variable {t u : Clock}

def IsTime (t : Clock) : Prop :=
  ∃ hour minute second nanos, ofParts? hour minute second nanos = some t

theorem IsTime.bounds (h : t.IsTime) : t.seconds < 86400 ∧ t.nanos < 2000000000 := by
  obtain ⟨hour, minute, second, nanos, made⟩ := h
  obtain ⟨⟨hours, minutes, seconds, within⟩, rfl⟩ := ofParts?_eq_some_iff.mp made
  dsimp only
  omega

/-- The later time has fewer microseconds only in the second behind one that was put in. -/
theorem micros_le_iff (t_time : t.IsTime) (before : t ≤ u) : t.micros ≤ u.micros ↔
    ¬ (u.seconds = t.seconds + 1 ∧ 1000000 + u.nanos / 1000 < t.nanos / 1000) := by
  have within := t_time.bounds
  rw [micros_eq, micros_eq]
  rcases before with seconds | ⟨seconds, nanos⟩ <;> omega

end Clock

def IsClockLiteral (text : String) : Prop :=
  ∃ hour minute second micros, hour < 24 ∧ minute < 60 ∧ second < 60 ∧
    IsClockText hour minute second micros text.toList

namespace Value

variable {t : Clock} {micros : Nat}

theorem isClockLiteral_time (below : micros < 86400000000) :
    IsClockLiteral (calendarText (timeChars? micros) "" micros) := by
  have chars : timeChars? micros = some (clockText micros) :=
    if_pos ⟨Int.natCast_nonneg _, by rw [dayMicros]; omega⟩
  obtain ⟨total, places, small, rfl⟩ :
      ∃ total places, places < 1000000 ∧ micros = total * 1000000 + places :=
    ⟨micros / 1000000, micros % 1000000, Nat.mod_lt _ (by decide), by omega⟩
  have hours : total / 3600 < 24 := by omega
  have minutes : total / 60 % 60 < 60 := Nat.mod_lt _ (by decide)
  have seconds : total % 60 < 60 := Nat.mod_lt _ (by decide)
  refine ⟨_, _, _, places, hours, minutes, seconds, ?_⟩
  rw [chars, calendarText, String.append_empty, String.toList_ofList]
  exact isClockText_clockText hours minutes seconds small (by omega)

theorem not_isClockLiteral_time (beyond : 86400000000 ≤ micros) :
    ¬ IsClockLiteral (calendarText (timeChars? micros) "" micros) := by
  have chars : timeChars? micros = none := if_neg fun within => by
    have below := within.2
    rw [dayMicros] at below
    omega
  rintro ⟨hour, minute, second, rest, -, -, -, h, m, s, places, text, -⟩
  rw [chars, calendarText] at text
  have colon : ':' ∈ (toString (micros : Int)).toList := by
    rw [text]
    simp
  exact absurd (Number.isDigit_of_mem_toString colon) (by decide)

theorem toInt_micros (h : t.IsTime) : (Int64.ofInt t.micros).toInt = t.micros := by
  have bounds := h.bounds
  rw [t.micros_eq]
  exact Int64.toInt_ofInt_of_le (by omega) (by omega)

theorem isClockLiteral_ofClock_iff (h : t.IsTime) : IsClockLiteral (ofClock t).toText ↔
    ¬ (t.seconds = 86399 ∧ 1000000000 ≤ t.nanos) := by
  have bounds := h.bounds
  rw [ofClock, toText, toInt_micros h, t.micros_eq]
  by_cases below : t.seconds * 1000000 + t.nanos / 1000 < 86400000000
  · exact iff_of_true (isClockLiteral_time below) (by omega)
  · exact iff_of_false (not_isClockLiteral_time (by omega)) (not_not_intro (by omega))

/-- A time of day has a number of microseconds of the day unless it is in a second that was put in at
the very end and more than a microsecond of it has passed, and it is printed as a time of day unless
it is in such a second at all. A later time of day has no fewer microseconds, unless it comes within
a second behind one that was put in. -/
theorem clock_stays_in_day_iff (h : t.IsTime) :
    ∃ micros : Int64, ofClock t = .time micros ∧
      ((0 ≤ micros.toInt ∧ micros.toInt ≤ 86400000000) ↔
        ¬ (t.seconds = 86399 ∧ 1000001000 ≤ t.nanos)) ∧
      (IsClockLiteral (ofClock t).toText ↔ ¬ (t.seconds = 86399 ∧ 1000000000 ≤ t.nanos)) ∧
      ∀ u : Clock, u.IsTime → t ≤ u → ∃ later : Int64, ofClock u = .time later ∧
        (micros.toInt ≤ later.toInt ↔
          ¬ (u.seconds = t.seconds + 1 ∧ 1000000 + u.nanos / 1000 < t.nanos / 1000)) := by
  refine ⟨_, rfl, ?_, isClockLiteral_ofClock_iff h, fun u u_time before => ⟨_, rfl, ?_⟩⟩
  · have bounds := h.bounds
    rw [toInt_micros h, t.micros_eq]
    omega
  · rw [toInt_micros h, toInt_micros u_time]
    exact Clock.micros_le_iff h before

theorem clock_stays_in_day_iff_noon :
    Clock.IsTime ⟨43199, 1999999999⟩ ∧ IsClockLiteral (ofClock ⟨43199, 1999999999⟩).toText ∧
    Clock.IsTime ⟨43201, 0⟩ ∧ (⟨43199, 1999999999⟩ : Clock) ≤ ⟨43201, 0⟩ ∧
    ∃ m n : Int64, ofClock ⟨43199, 1999999999⟩ = .time m ∧ ofClock ⟨43201, 0⟩ = .time n ∧
      m.toInt ≤ n.toInt := by
  have first : Clock.IsTime ⟨43199, 1999999999⟩ := ⟨11, 59, 59, 1999999999, by decide⟩
  have second : Clock.IsTime ⟨43201, 0⟩ := ⟨12, 0, 1, 0, by decide⟩
  have before : (⟨43199, 1999999999⟩ : Clock) ≤ ⟨43201, 0⟩ := .inl (by decide)
  obtain ⟨m, one, -, literal, ordered⟩ := clock_stays_in_day_iff first
  obtain ⟨n, other, ordered⟩ := ordered _ second before
  exact ⟨first, literal.mpr (by decide), second, before, m, n, one, other, ordered.mpr (by decide)⟩

/-- The middle of a second that was put in at the end of the day is no time of day any more; at the
end of any other minute it overtakes the beginning of the next one. -/
theorem clock_passes_midnight :
    Clock.ofParts? 23 59 59 1500000000 = some ⟨86399, 1500000000⟩ ∧
    ofClock ⟨86399, 1500000000⟩ = .time 86400500000 ∧
    (ofClock ⟨86399, 1500000000⟩).toText = "86400500000" ∧
    ¬ IsClockLiteral (ofClock ⟨86399, 1500000000⟩).toText ∧
    Clock.ofParts? 0 0 59 1500000000 = some ⟨59, 1500000000⟩ ∧
    Clock.ofParts? 0 1 0 0 = some ⟨60, 0⟩ ∧ (⟨59, 1500000000⟩ : Clock) ≤ ⟨60, 0⟩ ∧
    ofClock ⟨59, 1500000000⟩ = .time 60500000 ∧ ofClock ⟨60, 0⟩ = .time 60000000 := by
  have made : Clock.ofParts? 23 59 59 1500000000 = some ⟨86399, 1500000000⟩ := by decide
  refine ⟨made, rfl, by decide, fun literal => ?_, by decide, by decide, .inl (by decide), rfl, rfl⟩
  exact (isClockLiteral_ofClock_iff ⟨_, _, _, _, made⟩).mp literal (by decide)

end Value

end PgPipeline
