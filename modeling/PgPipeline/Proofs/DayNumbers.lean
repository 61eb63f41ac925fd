import PgPipeline.Calendar

namespace PgPipeline.Date

variable {d e : Date} {year : Int} {leap : Bool} {month length i k : Nat} {lengths : List Nat}

section Months

def total (lengths : List Nat) (months : Nat) : Nat := (lengths.take months).foldr (· + ·) 0

theorem total_succ (last : lengths[i]? = some length) :
    total lengths (i + 1) = total lengths i + length := by
  induction lengths generalizing i with
  | nil => cases last
  | cons first rest ih =>
    cases i with
    | zero =>
      cases last
      simp [total]
    | succ i =>
      have others := ih (i := i) last
      simp only [total, List.take_succ_cons, List.foldr_cons] at others ⊢
      omega

theorem total_mono (before : i ≤ k) : total lengths i ≤ total lengths k := by
  induction before with
  | refl => exact Nat.le_refl _
  | @step k before ih =>
    cases last : lengths[k]? with
    | none =>
      have all := List.getElem?_eq_none_iff.mp last
      have same : total lengths (k + 1) = total lengths k := by
        rw [total, total, List.take_of_length_le all,
          List.take_of_length_le (Nat.le_succ_of_le all)]
      rwa [same]
    | some length =>
      rw [total_succ last]
      omega

theorem monthAndDay_total {start day : Nat} (listed : lengths[i]? = some length)
    (within : day < length) :
    monthAndDay start lengths (total lengths i + day) = (start + i, day + 1) := by
  induction lengths generalizing start i with
  | nil => cases listed
  | cons first rest ih =>
    cases i with
    | zero =>
      cases listed
      simp [total, monthAndDay, within]
    | succ i =>
      have others : monthAndDay (start + 1) rest (total rest i + day) = (start + 1 + i, day + 1) :=
        ih listed
      have sum : total (first :: rest) (i + 1) = first + total rest i := rfl
      rw [monthAndDay, if_neg (by omega), sum]
      rw [show first + total rest i + day - first = total rest i + day by omega, others]
      simp only [Prod.mk.injEq, and_true]
      omega

def yearLength (leap : Bool) : Nat := if leap then 366 else 365

theorem total_monthLengths : total (monthLengths leap) 12 = yearLength leap := by
  cases leap <;> rfl

end Months

theorem le_of_mem_monthLengths (mem : length ∈ monthLengths leap) : length ≤ 31 := by
  revert length
  cases leap <;> decide

theorem isLeap_iff : isLeap year ↔ year % 4 = 0 ∧ (year % 100 ≠ 0 ∨ year % 400 = 0) := by
  simp [isLeap]

theorem daysBeforeYear_eq (year : Int) : daysBeforeYear year =
    365 * (year - 1) + (year - 1) / 4 - (year - 1) / 100 + (year - 1) / 400 := by
  simp only [daysBeforeYear]
  rw [Int.fdiv_eq_ediv_of_nonneg _ (by decide), Int.fdiv_eq_ediv_of_nonneg _ (by decide),
    Int.fdiv_eq_ediv_of_nonneg _ (by decide)]

theorem daysBeforeYear_succ (year : Int) :
    daysBeforeYear (year + 1) = daysBeforeYear year + yearLength (isLeap year) := by
  have rule : isLeap year ↔ _ := isLeap_iff
  rw [daysBeforeYear_eq, daysBeforeYear_eq, yearLength]
  cases leap : isLeap year
  · have common : ¬ (year % 4 = 0 ∧ (year % 100 ≠ 0 ∨ year % 400 = 0)) := by
      rw [← rule, leap]
      decide
    simp only [Bool.false_eq_true, if_false]
    omega
  · have fourth := rule.mp leap
    simp only [if_true]
    omega

theorem daysBeforeYear_mono {later : Int} (before : year ≤ later) :
    daysBeforeYear year ≤ daysBeforeYear later := by
  rw [daysBeforeYear_eq, daysBeforeYear_eq]
  omega

structure Exists (d : Date) : Prop where
  year : minYear ≤ d.year ∧ d.year ≤ maxYear
  month : 1 ≤ d.month
  day : 1 ≤ d.day
  fits : ∃ length, (monthLengths (isLeap d.year))[d.month - 1]? = some length ∧ d.day ≤ length

theorem isValid_iff : d.isValid ↔ d.Exists := by
  simp only [isValid, Bool.and_eq_true, decide_eq_true_eq]
  constructor
  · rintro ⟨⟨⟨year, month⟩, day⟩, fits⟩
    split at fits
    · next length listed => exact ⟨year, month, day, length, listed, of_decide_eq_true fits⟩
    · cases fits
  · rintro ⟨year, month, day, length, listed, fits⟩
    rw [listed]
    exact ⟨⟨⟨year, month⟩, day⟩, decide_eq_true fits⟩

def dayOfYear (d : Date) : Nat := total (monthLengths (isLeap d.year)) (d.month - 1) + d.day

theorem dayNumber_eq (d : Date) : d.dayNumber = daysBeforeYear d.year + d.dayOfYear := by
  rw [dayOfYear, Int.natCast_add, ← Int.add_assoc]
  rfl

theorem Exists.dayOfYear_le (h : d.Exists) : d.dayOfYear ≤ yearLength (isLeap d.year) := by
  obtain ⟨length, listed, fits⟩ := h.fits
  have months : d.month - 1 < 12 := by
    have within := List.getElem?_eq_some_iff.mp listed
    exact within.1
  calc d.dayOfYear ≤ total (monthLengths (isLeap d.year)) (d.month - 1) + length := by
        rw [dayOfYear]
        omega
    _ = total (monthLengths (isLeap d.year)) (d.month - 1 + 1) := (total_succ listed).symm
    _ ≤ total (monthLengths (isLeap d.year)) 12 := total_mono months
    _ = yearLength (isLeap d.year) := total_monthLengths

/-- The places of a year are found again: whole cycles, then centuries, groups of four and single
years. Only the last one of each may have a day more than its share. -/
theorem ofDayNumber_places {cycle : Int} {century quad single inYear : Nat}
    (centuries : century ≤ 3) (quads : quad ≤ 24) (singles : single ≤ 3) (days : inYear ≤ 365)
    (longest : inYear = 365 → single = 3 ∧ (quad = 24 → century = 3))
    (place : year = cycle * 400 + century * 100 + quad * 4 + single + 1) :
    ofDayNumber (cycle * 146097 + century * 36524 + quad * 1461 + single * 365 + inYear + 1) =
      let (month, day) := monthAndDay 1 (monthLengths (isLeap year)) inYear
      ⟨year, month, day⟩ := by
  subst place
  have whole :
      (cycle * 146097 + century * 36524 + quad * 1461 + single * 365 + inYear + 1 - 1 : Int) =
        cycle * 146097 + (century * 36524 + quad * 1461 + single * 365 + inYear : Nat) := by
    omega
  generalize inCycle : century * 36524 + quad * 1461 + single * 365 + inYear = rest at whole
  have cycleFound : (cycle * 146097 + rest : Int).fdiv 146097 = cycle := by
    rw [Int.fdiv_eq_ediv_of_nonneg _ (by decide)]
    omega
  have remaining : (cycle * 146097 + rest - cycle * 146097 : Int).toNat = rest := by omega
  -- On the last day of a cycle the quotient is 4, and so it is on that of four years.
  have centuryFound : min (rest / 36524) 3 = century := by omega
  have inCentury : rest - century * 36524 = quad * 1461 + (single * 365 + inYear) := by omega
  have quadFound : (quad * 1461 + (single * 365 + inYear)) / 1461 = quad := by omega
  have singleFound : min ((single * 365 + inYear) / 365) 3 = single := by omega
  simp only [ofDayNumber, whole, cycleFound, remaining, centuryFound, inCentury, quadFound,
    singleFound, Nat.add_sub_cancel_left]

theorem ofDayNumber_eq {inYear : Nat} (within : inYear < yearLength (isLeap year)) :
    ofDayNumber (daysBeforeYear year + inYear + 1) =
      let (month, day) := monthAndDay 1 (monthLengths (isLeap year)) inYear
      ⟨year, month, day⟩ := by
  obtain ⟨cycle, century, quad, single, place, centuries, quads, singles⟩ :
      ∃ (cycle : Int) (century quad single : Nat),
        year = cycle * 400 + century * 100 + quad * 4 + single + 1 ∧
        century ≤ 3 ∧ quad ≤ 24 ∧ single ≤ 3 :=
    ⟨(year - 1) / 400, ((year - 1) % 400 / 100).toNat, ((year - 1) % 100 / 4).toNat,
      ((year - 1) % 4).toNat, by omega, by omega, by omega, by omega⟩
  have before : daysBeforeYear year =
      cycle * 146097 + century * 36524 + quad * 1461 + single * 365 := by
    rw [daysBeforeYear_eq]
    omega
  have days : inYear ≤ 365 ∧ (inYear = 365 → isLeap year) := by
    rw [yearLength] at within
    split at within
    · next leap => exact ⟨by omega, fun _ => leap⟩
    · exact ⟨by omega, by omega⟩
  have longest (full : inYear = 365) : single = 3 ∧ (quad = 24 → century = 3) := by
    have leap := isLeap_iff.mp (days.2 full)
    omega
  rw [before]
  exact ofDayNumber_places centuries quads singles days.1 longest place

theorem ofDayNumber_dayNumber (h : d.Exists) : ofDayNumber d.dayNumber = d := by
  obtain ⟨length, listed, fits⟩ := h.fits
  have day := h.day
  have month := h.month
  have within := h.dayOfYear_le
  have positive : 1 ≤ d.dayOfYear := Nat.le_trans day (Nat.le_add_left _ _)
  have number : d.dayNumber = daysBeforeYear d.year + (d.dayOfYear - 1 : Nat) + 1 := by
    rw [dayNumber_eq]
    omega
  have place :
      d.dayOfYear - 1 = total (monthLengths (isLeap d.year)) (d.month - 1) + (d.day - 1) := by
    rw [dayOfYear]
    omega
  rw [number, ofDayNumber_eq (by omega), place, monthAndDay_total listed (by omega)]
  simp only [Nat.add_sub_cancel' month, Nat.sub_add_cancel day]

instance : LT Date where
  lt d e := d.year < e.year ∨
    d.year = e.year ∧ (d.month < e.month ∨ d.month = e.month ∧ d.day < e.day)

theorem dayOfYear_lt (d_exists : d.Exists) (e_exists : e.Exists) (same : d.year = e.year)
    (before : d.month < e.month ∨ d.month = e.month ∧ d.day < e.day) :
    d.dayOfYear < e.dayOfYear := by
  rcases before with month | ⟨month, day⟩
  · obtain ⟨length, listed, fits⟩ := d_exists.fits
    have first := d_exists.month
    have day := e_exists.day
    calc d.dayOfYear ≤ total (monthLengths (isLeap d.year)) (d.month - 1) + length := by
          rw [dayOfYear]
          omega
      _ = total (monthLengths (isLeap d.year)) (d.month - 1 + 1) := (total_succ listed).symm
      _ ≤ total (monthLengths (isLeap d.year)) (e.month - 1) := total_mono (by omega)
      _ < e.dayOfYear := by
        rw [dayOfYear, same]
        omega
  · rw [dayOfYear, dayOfYear, same, month]
    omega

theorem dayNumber_lt (d_exists : d.Exists) (e_exists : e.Exists) (before : d < e) :
    d.dayNumber < e.dayNumber := by
  rw [dayNumber_eq, dayNumber_eq]
  rcases before with year | ⟨year, rest⟩
  · have within := d_exists.dayOfYear_le
    have day := e_exists.day
    have next := daysBeforeYear_succ d.year
    have later : daysBeforeYear (d.year + 1) ≤ daysBeforeYear e.year := daysBeforeYear_mono year
    have positive : 1 ≤ e.dayOfYear := Nat.le_trans day (Nat.le_add_left _ _)
    omega
  · have days := dayOfYear_lt d_exists e_exists year rest
    rw [year]
    omega

/-- The next day of the calendar: the next one of the month, or the first one of the next month or
year behind the last one. -/
inductive Follows : Date → Date → Prop
  | day {year : Int} {month day : Nat} : Follows ⟨year, month, day⟩ ⟨year, month, day + 1⟩
  | month {year : Int} {month day : Nat}
    (last : (monthLengths (isLeap year))[month - 1]? = some day) :
    Follows ⟨year, month, day⟩ ⟨year, month + 1, 1⟩
  | year {year : Int} : Follows ⟨year, 12, 31⟩ ⟨year + 1, 1, 1⟩

theorem Follows.dayNumber_eq (h : d.Follows e) (month : 1 ≤ d.month) :
    e.dayNumber = d.dayNumber + 1 := by
  rw [Date.dayNumber_eq, Date.dayNumber_eq]
  cases h with
  | day =>
    simp only [dayOfYear]
    omega
  | month last =>
    have next := total_succ last
    rw [Nat.sub_add_cancel month] at next
    simp only [dayOfYear, Nat.add_sub_cancel, next]
    omega
  | @year year =>
    have last : dayOfYear ⟨year, 12, 31⟩ = yearLength (isLeap year) := by
      rw [dayOfYear]
      cases isLeap year <;> rfl
    have first : dayOfYear ⟨year + 1, 1, 1⟩ = 1 := rfl
    dsimp only
    rw [first, last, daysBeforeYear_succ]
    omega

theorem pos_of_mem_monthLengths (mem : length ∈ monthLengths leap) : 1 ≤ length := by
  revert length
  cases leap <;> decide

theorem Exists.exists_next (h : d.Exists) (another : d ≠ ⟨maxYear, 12, 31⟩) :
    ∃ e : Date, e.Exists ∧ d.Follows e := by
  obtain ⟨year, month, day⟩ := d
  obtain ⟨years, first, -, length, listed, fits⟩ := h
  dsimp only at years first listed fits
  have within : month - 1 < 12 := (List.getElem?_eq_some_iff.mp listed).1
  rcases Nat.lt_or_eq_of_le fits with inside | rfl
  · have next : Exists ⟨year, month, day + 1⟩ :=
      ⟨years, first, Nat.le_add_left _ _, length, listed, inside⟩
    exact ⟨_, next, .day⟩
  by_cases last : month = 12
  · subst last
    obtain rfl : 31 = day := Option.some.inj listed
    have later : year ≠ maxYear := fun same => another (same ▸ rfl)
    have still : minYear ≤ year + 1 ∧ year + 1 ≤ maxYear := by omega
    have next : Exists ⟨year + 1, 1, 1⟩ :=
      ⟨still, Nat.le_refl _, Nat.le_refl _, 31, rfl, show 1 ≤ 31 by decide⟩
    exact ⟨_, next, .year⟩
  · have behind : month < (monthLengths (isLeap year)).length := show month < 12 by omega
    have following := List.getElem?_eq_getElem behind
    have positive := pos_of_mem_monthLengths (List.mem_of_getElem? following)
    have next : Exists ⟨year, month + 1, 1⟩ :=
      ⟨years, Nat.le_add_left _ _, Nat.le_refl _, _, following, positive⟩
    exact ⟨_, next, .month listed⟩

theorem Exists.dayNumber_bounds (h : d.Exists) :
    dayNumber ⟨minYear, 1, 1⟩ ≤ d.dayNumber ∧ d.dayNumber ≤ dayNumber ⟨maxYear, 12, 31⟩ := by
  have day := h.day
  have within := h.dayOfYear_le
  have positive : 1 ≤ d.dayOfYear := Nat.le_trans day (Nat.le_add_left _ _)
  have first : daysBeforeYear minYear ≤ daysBeforeYear d.year := daysBeforeYear_mono h.year.1
  have next := daysBeforeYear_succ d.year
  have last : daysBeforeYear (d.year + 1) ≤ daysBeforeYear (maxYear + 1) :=
    daysBeforeYear_mono (Int.add_le_add_right h.year.2 1)
  have start : dayNumber ⟨minYear, 1, 1⟩ = daysBeforeYear minYear + 1 := rfl
  have finish : dayNumber ⟨maxYear, 12, 31⟩ = daysBeforeYear (maxYear + 1) := by decide
  rw [start, finish, Date.dayNumber_eq]
  omega

theorem ofDayNumber?_dayNumber (h : d.Exists) : ofDayNumber? d.dayNumber = some d := by
  rw [ofDayNumber?, if_pos h.dayNumber_bounds, ofDayNumber_dayNumber h]

end PgPipeline.Date
