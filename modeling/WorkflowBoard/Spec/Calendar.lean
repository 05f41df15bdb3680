import Mathlib.Tactic.Ring
import WorkflowBoard.Native.JsDate

/-!
# The calendar of `Date`

Days and dates are two names of one thing: `civilFromDays` and `daysFromCivil` are inverse to each
other on the dates of the Gregorian calendar. A year is counted from March, in eras of 400 years.
-/

namespace WorkflowBoard

namespace Date

/-- The Gregorian rule. -/
def IsLeap (y : Int) : Prop := y % 4 = 0 ∧ (y % 100 ≠ 0 ∨ y % 400 = 0)

instance (y : Int) : Decidable (IsLeap y) :=
  inferInstanceAs (Decidable (y % 4 = 0 ∧ (y % 100 ≠ 0 ∨ y % 400 = 0)))

theorem ediv_eq {n d q r : Int} (h : n = d * q + r) (hr : 0 ≤ r) (hrd : r < d) : n / d = q := by
  have hd : 0 < d := by omega
  exact ((Int.ediv_emod_unique hd).mpr ⟨by omega, hr, hrd⟩).1

/-- The year of an era, of `a` centuries, `b` times four years and `c` years, from its day. -/
theorem yearOfEra {a b c doy : Int} (ha : 0 ≤ a ∧ a ≤ 3) (hb : 0 ≤ b ∧ b ≤ 24) (hc : 0 ≤ c ∧ c ≤ 3)
    (hdoy : 0 ≤ doy) (hleap : doy ≤ 364 ∨ doy = 365 ∧ c = 3 ∧ (b ≠ 24 ∨ a = 3)) {doe : Int}
    (hdoe : doe = 36524 * a + 1461 * b + 365 * c + doy) :
    (doe - doe / 1460 + doe / 36524 - doe / 146096) / 365 = 100 * a + 4 * b + c := by
  have hcentury : doe / 36524 - doe / 146096 = a := by
    have hbig : doe / 146096 = if doe = 146096 then 1 else 0 := by
      split
      · exact ediv_eq (r := 0) (by omega) (by omega) (by omega)
      · exact ediv_eq (r := doe) (by omega) (by omega) (by omega)
    have hsmall : doe / 36524 = if doe = 146096 then 4 else a := by
      split
      · exact ediv_eq (r := 0) (by omega) (by omega) (by omega)
      · exact ediv_eq (r := 1461 * b + 365 * c + doy) (by omega) (by omega) (by omega)
    rw [hbig, hsmall]
    split <;> omega
  have hfour : doe / 1460 =
      25 * a + b + if 1460 ≤ 24 * a + b + 365 * c + doy then 1 else 0 := by
    split
    · exact ediv_eq (r := 24 * a + b + 365 * c + doy - 1460) (by omega) (by omega) (by omega)
    · exact ediv_eq (r := 24 * a + b + 365 * c + doy) (by omega) (by omega) (by omega)
  have hyear : doe - doe / 1460 + doe / 36524 - doe / 146096 =
      36500 * a + 1460 * b + 365 * c + doy -
        if 1460 ≤ 24 * a + b + 365 * c + doy then 1 else 0 := by
    omega
  rw [hyear]
  split
  · exact ediv_eq (r := doy - 1) (by omega) (by omega) (by omega)
  · exact ediv_eq (r := doy) (by omega) (by omega) (by omega)


/-- Years in eras, centuries and fours. -/
structure YearParts (y era a b c : Int) : Prop where
  century : 0 ≤ a ∧ a ≤ 3
  four : 0 ≤ b ∧ b ≤ 24
  year : 0 ≤ c ∧ c ≤ 3
  eq : y = 400 * era + (100 * a + 4 * b + c)

theorem exists_yearParts (y : Int) : ∃ era a b c, YearParts y era a b c := by
  refine ⟨y / 400, y % 400 / 100, y % 100 / 4, y % 4, ?_, ?_, ?_, ?_⟩ <;> omega

theorem YearParts.era_eq {y era a b c : Int} (h : YearParts y era a b c) : y / 400 = era := by
  obtain ⟨ha, hb, hc, rfl⟩ := h
  exact ediv_eq (r := 100 * a + 4 * b + c) rfl (by omega) (by omega)

theorem YearParts.days {y era a b c : Int} (h : YearParts y era a b c) (doy : Int) :
    (100 * a + 4 * b + c) * 365 + (100 * a + 4 * b + c) / 4 - (100 * a + 4 * b + c) / 100 + doy =
      36524 * a + 1461 * b + 365 * c + doy := by
  obtain ⟨ha, hb, hc, -⟩ := h
  have hfour : (100 * a + 4 * b + c) / 4 = 25 * a + b := ediv_eq (r := c) (by omega) hc.1 (by omega)
  have hcentury : (100 * a + 4 * b + c) / 100 = a :=
    ediv_eq (r := 4 * b + c) (by omega) (by omega) (by omega)
  rw [hfour, hcentury]
  omega

/-- The days of a month. -/
def monthLength (y m : Int) : Int :=
  if m = 2 then (if IsLeap y then 29 else 28)
  else if m = 4 ∨ m = 6 ∨ m = 9 ∨ m = 11 then 30 else 31

/-- A day of the calendar. -/
def IsDate (y m d : Int) : Prop := 1 ≤ m ∧ m ≤ 12 ∧ 1 ≤ d ∧ d ≤ monthLength y m

theorem monthLength_common (y m : Int) :
    monthLength 1 m ≤ monthLength y m ∧ (monthLength 1 m < monthLength y m → m = 2 ∧
      monthLength y m = 29 ∧ monthLength 1 m = 28) := by
  have hcommon : ¬IsLeap 1 := by decide
  unfold monthLength
  rw [if_neg hcommon]
  split
  · split <;> simp [*]
  · simp

theorem monthLength_ge (m : Int) : 28 ≤ monthLength 1 m := by
  have hcommon : ¬IsLeap 1 := by decide
  unfold monthLength
  rw [if_neg hcommon]
  split
  · decide
  · split <;> decide

variable {y m d : Int}

/-- A date that a common year does not have is a leap day. -/
theorem IsDate.eq_leap (h : IsDate y m d) (hlength : monthLength 1 m < d) :
    m = 2 ∧ d = 29 := by
  obtain ⟨-, -, -, hd⟩ := h
  obtain ⟨hm, h29, h28⟩ := (monthLength_common y m).2 (by omega)
  exact ⟨hm, by omega⟩

/-- The year that starts in March, the month from there and the day of that year. -/
theorem month_of_day (h : IsDate y m d) :
    let mp := if m > 2 then m - 3 else m + 9
    let doy := (153 * mp + 2) / 5 + d - 1
    0 ≤ mp ∧ mp ≤ 11 ∧ 0 ≤ doy ∧ (doy ≤ 364 ∨ doy = 365 ∧ m = 2 ∧ d = 29 ∧ IsLeap y) ∧
      (5 * doy + 2) / 153 = mp ∧ (m ≤ 2 ↔ 306 ≤ doy) := by
  obtain ⟨hm₁, hm₁₂, hd, hlength⟩ := h
  unfold monthLength at hlength
  simp only [IsLeap] at hlength ⊢
  obtain rfl | rfl | rfl | rfl | rfl | rfl | rfl | rfl | rfl | rfl | rfl | rfl : m = 1 ∨ m = 2 ∨
      m = 3 ∨ m = 4 ∨ m = 5 ∨ m = 6 ∨ m = 7 ∨ m = 8 ∨ m = 9 ∨ m = 10 ∨ m = 11 ∨ m = 12 := by
    omega
  all_goals
    simp at hlength ⊢
    omega


theorem daysFromCivil_eq {y m d era a b c : Int}
    (h : YearParts (if m ≤ 2 then y - 1 else y) era a b c) :
    daysFromCivil y m d = era * 146097 + (36524 * a + 1461 * b + 365 * c +
      ((153 * (if m > 2 then m - 3 else m + 9) + 2) / 5 + d - 1)) - 719468 := by
  unfold daysFromCivil
  dsimp only
  rw [h.era_eq, ← h.days]
  have hyoe : (if m ≤ 2 then y - 1 else y) - era * 400 = 100 * a + 4 * b + c := by
    rw [h.eq]
    omega
  rw [hyoe]

/-- The way back from the day number of a date. -/
theorem civilFromDays_daysFromCivil (h : IsDate y m d) :
    civilFromDays (daysFromCivil y m d) = (y, m, d) := by
  obtain ⟨hmp₀, hmp₁₁, hdoy, hleap, hmonth, -⟩ := month_of_day h
  obtain ⟨hm₁, hm₁₂, -, -⟩ := h
  obtain ⟨era, a, b, c, hparts⟩ := exists_yearParts (if m ≤ 2 then y - 1 else y)
  rw [daysFromCivil_eq hparts]
  generalize hmp : (if m > 2 then m - 3 else m + 9) = mp at *
  generalize hdoy' : (153 * mp + 2) / 5 + d - 1 = doy at *
  have hlast : doy ≤ 364 ∨ doy = 365 ∧ c = 3 ∧ (b ≠ 24 ∨ a = 3) := by
    refine hleap.imp_right fun ⟨hdoy, hm, _, hleap⟩ => ⟨hdoy, ?_⟩
    have heq := hparts.eq
    have ha := hparts.century
    have hb := hparts.four
    have hc := hparts.year
    rw [if_pos (by omega)] at heq
    unfold IsLeap at hleap
    clear hparts hmonth hmp hdoy'
    omega
  -- The day of the era and back.
  have hyear := yearOfEra hparts.century hparts.four hparts.year hdoy hlast rfl
  have hdays := hparts.days 0
  have heq := hparts.eq
  have hera : (era * 146097 + (36524 * a + 1461 * b + 365 * c + doy) - 719468 + 719468) / 146097 =
      era := by
    have ha := hparts.century
    have hb := hparts.four
    have hc := hparts.year
    refine ediv_eq (r := 36524 * a + 1461 * b + 365 * c + doy) ?_ ?_ ?_
    · clear hyear hdays heq
      omega
    · clear hyear hdays heq
      omega
    · clear hyear hdays heq
      omega
  have hrest : era * 146097 + (36524 * a + 1461 * b + 365 * c + doy) - 719468 + 719468 -
      era * 146097 = 36524 * a + 1461 * b + 365 * c + doy := by
    clear hyear hdays heq hera
    omega
  have hrest' : 36524 * a + 1461 * b + 365 * c + doy - (365 * (100 * a + 4 * b + c) +
      (100 * a + 4 * b + c) / 4 - (100 * a + 4 * b + c) / 100) = doy := by
    clear hyear heq hera
    omega
  unfold civilFromDays
  dsimp only
  rw [hera, hrest, hyear, hrest', hmonth]
  have hm : (if mp < 10 then mp + 3 else mp - 9) = m := by
    subst hmp
    clear hyear hdays heq hera hrest hrest'
    split <;> split <;> omega
  rw [hm]
  refine Prod.ext ?_ (Prod.ext rfl ?_)
  · dsimp only
    clear hyear hdays hera hrest hrest'
    split at heq <;> omega
  · dsimp only
    clear hyear hdays hera hrest hrest'
    omega

/-- The year, in its parts, and the day of that year of a day of an era. -/
theorem exists_dayParts (doe : Int) (h₀ : 0 ≤ doe) (h : doe < 146097) :
    ∃ a b c doy : Int, (0 ≤ a ∧ a ≤ 3) ∧ (0 ≤ b ∧ b ≤ 24) ∧ (0 ≤ c ∧ c ≤ 3) ∧ 0 ≤ doy ∧
      (doy ≤ 364 ∨ doy = 365 ∧ c = 3 ∧ (b ≠ 24 ∨ a = 3)) ∧
      doe = 36524 * a + 1461 * b + 365 * c + doy := by
  obtain ⟨a, r, ha, hr, hcentury⟩ : ∃ a r : Int, (0 ≤ a ∧ a ≤ 3) ∧
      (0 ≤ r ∧ r < 36524 ∨ a = 3 ∧ r = 36524) ∧ doe = 36524 * a + r := by
    by_cases hlast : doe = 146096
    · exact ⟨3, 36524, by omega, by omega, by omega⟩
    · exact ⟨doe / 36524, doe % 36524, by omega, by omega, by omega⟩
  obtain ⟨b, r', hb, hr', hfour⟩ : ∃ b r' : Int, (0 ≤ b ∧ b ≤ 24) ∧
      (0 ≤ r' ∧ r' < 1461 ∧ (b = 24 → r' < 1460 ∨ a = 3)) ∧ r = 1461 * b + r' :=
    ⟨r / 1461, r % 1461, by omega, by omega, by omega⟩
  by_cases hlast : r' = 1460
  · exact ⟨a, b, 3, 365, ha, hb, by omega, by omega, by omega, by omega⟩
  · exact ⟨a, b, r' / 365, r' % 365, ha, hb, by omega, by omega, by omega, by omega⟩

theorem exists_date (z : Int) : ∃ y m d, IsDate y m d ∧ daysFromCivil y m d = z := by
  obtain ⟨a, b, c, doy, ha, hb, hc, hdoy, hlast, hdoe⟩ :=
    exists_dayParts ((z + 719468) % 146097) (by omega) (by omega)
  obtain ⟨mp, d, hmp₀, hmp₁₁, hd, hdoy', hnext⟩ : ∃ mp d : Int, 0 ≤ mp ∧ mp ≤ 11 ∧ 1 ≤ d ∧
      (153 * mp + 2) / 5 + d - 1 = doy ∧ 5 * doy + 2 < 153 * (mp + 1) :=
    ⟨(5 * doy + 2) / 153, doy - (153 * ((5 * doy + 2) / 153) + 2) / 5 + 1, by omega, by omega,
      by omega, by omega, by omega⟩
  obtain ⟨year, hyear⟩ : ∃ year, year = 400 * ((z + 719468) / 146097) + (100 * a + 4 * b + c) :=
    ⟨_, rfl⟩
  have hleap : doy ≤ 364 ∨ doy = 365 ∧ IsLeap (year + 1) := by
    refine hlast.imp_right fun ⟨hdoy, hlast⟩ => ⟨hdoy, ?_⟩
    unfold IsLeap
    omega
  have hparts : YearParts year ((z + 719468) / 146097) a b c := ⟨ha, hb, hc, hyear⟩
  obtain ⟨m, hm⟩ : ∃ m, m = if mp < 10 then mp + 3 else mp - 9 := ⟨_, rfl⟩
  have hmonth : (if m > 2 then m - 3 else m + 9) = mp := by
    subst hm
    clear hdoe hparts hyear
    split <;> split <;> omega
  refine ⟨if m ≤ 2 then year + 1 else year, m, d, ?_, ?_⟩
  · clear hdoe hparts hyear hmonth ha hb hc hlast
    unfold IsDate monthLength
    simp only [IsLeap] at hleap ⊢
    obtain rfl | rfl | rfl | rfl | rfl | rfl | rfl | rfl | rfl | rfl | rfl | rfl : mp = 0 ∨
        mp = 1 ∨ mp = 2 ∨ mp = 3 ∨ mp = 4 ∨ mp = 5 ∨ mp = 6 ∨ mp = 7 ∨ mp = 8 ∨ mp = 9 ∨
        mp = 10 ∨ mp = 11 := by
      omega
    all_goals
      simp at hm hnext hdoy'
      subst hm
      simp
      omega
  · have hback : (if m ≤ 2 then (if m ≤ 2 then year + 1 else year) - 1
        else if m ≤ 2 then year + 1 else year) = year := by
      split <;> omega
    rw [daysFromCivil_eq (hback ▸ hparts), hmonth, hdoy']
    clear hparts hyear hm hmonth
    omega

/-! ## Distances -/

theorem daysFromCivil_closed {y m d Y : Int} (hY : (if m ≤ 2 then y - 1 else y) = Y) :
    daysFromCivil y m d = 365 * Y + Y / 4 - Y / 100 + Y / 400 +
      ((153 * (if m > 2 then m - 3 else m + 9) + 2) / 5 + d - 1) - 719468 := by
  subst hY
  obtain ⟨era, a, b, c, hparts⟩ := exists_yearParts (if m ≤ 2 then y - 1 else y)
  rw [daysFromCivil_eq hparts]
  obtain ⟨ha, hb, hc, heq⟩ := hparts
  rw [heq]
  generalize (153 * (if m > 2 then m - 3 else m + 9) + 2) / 5 + d - 1 = doy
  have hfour : (400 * era + (100 * a + 4 * b + c)) / 4 = 100 * era + 25 * a + b :=
    ediv_eq (r := c) (by omega) hc.1 (by omega)
  have hcentury : (400 * era + (100 * a + 4 * b + c)) / 100 = 4 * era + a :=
    ediv_eq (r := 4 * b + c) (by omega) (by omega) (by omega)
  have hera : (400 * era + (100 * a + 4 * b + c)) / 400 = era :=
    ediv_eq (r := 100 * a + 4 * b + c) (by omega) (by omega) (by omega)
  rw [hfour, hcentury, hera]
  omega

/-- A date of the next year is later, by at most some three years. -/
theorem next_year {y m d m' d' : Int} (h : IsDate y m d) (h' : IsDate (y + 1) m' d') :
    daysFromCivil y m d < daysFromCivil (y + 1) m' d' ∧
      daysFromCivil (y + 1) m' d' ≤ daysFromCivil y m d + 1100 := by
  obtain ⟨-, -, hdoy, hleap, -, hlate⟩ := month_of_day h
  obtain ⟨-, -, hdoy', hleap', -, hlate'⟩ := month_of_day h'
  rw [daysFromCivil_closed rfl, daysFromCivil_closed rfl]
  generalize (153 * (if m > 2 then m - 3 else m + 9) + 2) / 5 + d - 1 = doy at *
  generalize (153 * (if m' > 2 then m' - 3 else m' + 9) + 2) / 5 + d' - 1 = doy' at *
  replace hleap : doy ≤ 365 := by omega
  replace hleap' : doy' ≤ 365 := by omega
  split <;> split <;> omega

/-- The leap day of a year. -/
def leapDay (y : Int) : Int := daysFromCivil y 2 29

/-- The leap days in closed form. -/
theorem leapDay_eq (y : Int) : leapDay y =
    365 * (y - 1) + (y - 1) / 4 - (y - 1) / 100 + (y - 1) / 400 + 365 - 719468 :=
  daysFromCivil_closed (if_pos (Int.le_refl 2))

theorem isDate_leapDay {y : Int} : IsDate y 2 29 ↔ IsLeap y := by
  unfold IsDate monthLength
  rw [if_pos rfl]
  split
  · rename_i hleap
    exact ⟨fun _ => hleap, fun _ => ⟨by decide, by decide, by decide, by decide⟩⟩
  · rename_i hleap
    exact ⟨fun h => absurd h.2.2.2 (by decide), fun h => absurd h hleap⟩

theorem civil_leapDay {z : Int} :
    (civilFromDays z).2 = (2, 29) ↔ ∃ y, IsLeap y ∧ z = leapDay y := by
  constructor
  · intro h
    obtain ⟨y, m, d, hdate, rfl⟩ := exists_date z
    rw [civilFromDays_daysFromCivil hdate] at h
    cases h
    exact ⟨y, isDate_leapDay.mp hdate, rfl⟩
  · rintro ⟨y, hleap, rfl⟩
    rw [leapDay, civilFromDays_daysFromCivil (isDate_leapDay.mpr hleap)]

theorem leapDay_lt {y y' : Int} : leapDay y < leapDay y' ↔ y < y' := by
  rw [leapDay_eq, leapDay_eq]
  omega

/-- From leap year to leap year, also past a century that is none. -/
theorem leapDay_next {y : Int} (h : IsLeap y) :
    (IsLeap (y - 4) ∧ leapDay y = leapDay (y - 4) + 1461) ∨
      (y - 4) % 100 = 0 ∧ (y - 4) % 400 ≠ 0 ∧ IsLeap (y - 8) ∧
        leapDay y = leapDay (y - 8) + 2921 := by
  rw [leapDay_eq, leapDay_eq, leapDay_eq]
  unfold IsLeap at *
  omega

/-! ## The first days of months and years -/

theorem daysFromCivil_day (y m d : Int) : daysFromCivil y m d = daysFromCivil y m 1 + (d - 1) := by
  unfold daysFromCivil
  ring

theorem makeDay_next (h : IsDate y m d) :
    makeDay y m 1 = daysFromCivil y m 1 + monthLength y m := by
  obtain ⟨hm₁, hm₁₂, -, -⟩ := h
  unfold makeDay monthLength
  rw [daysFromCivil_closed rfl, daysFromCivil_closed rfl]
  simp only [IsLeap]
  obtain rfl | rfl | rfl | rfl | rfl | rfl | rfl | rfl | rfl | rfl | rfl | rfl : m = 1 ∨ m = 2 ∨
      m = 3 ∨ m = 4 ∨ m = 5 ∨ m = 6 ∨ m = 7 ∨ m = 8 ∨ m = 9 ∨ m = 10 ∨ m = 11 ∨ m = 12 := by
    omega
  all_goals
    simp
    try split
    all_goals omega

theorem dayOfYear (h : IsDate y m d) :
    daysFromCivil y 1 1 ≤ daysFromCivil y m d ∧
      daysFromCivil y m d ≤ daysFromCivil y 1 1 + 365 := by
  obtain ⟨-, -, hdoy, hleap, -, hlate⟩ := month_of_day h
  rw [daysFromCivil_closed rfl, daysFromCivil_closed rfl]
  unfold IsLeap at hleap
  generalize (153 * (if m > 2 then m - 3 else m + 9) + 2) / 5 + d - 1 = doy at *
  simp only [Int.reduceLE, Int.reduceGT, if_true, if_false]
  split <;> omega

theorem firstDay_le (h : IsDate y m d) (hy : 100 ≤ y) :
    daysFromCivil 100 1 1 ≤ daysFromCivil y m d := by
  have hfirst : daysFromCivil 100 1 1 = -683003 := by decide
  have hyear := (dayOfYear h).1
  have hclosed := daysFromCivil_closed (y := y) (m := 1) (d := 1) rfl
  simp only [Int.reduceLE, Int.reduceGT, if_true, if_false] at hclosed
  omega

theorem year_ge (h : IsDate y m d)
    (hday : daysFromCivil 100 1 1 ≤ daysFromCivil y m d) : 100 ≤ y := by
  have hfirst : daysFromCivil 100 1 1 = -683003 := by decide
  obtain ⟨-, -, hdoy, hleap, -, hlate⟩ := month_of_day h
  have hclosed := daysFromCivil_closed (y := y) (m := m) (d := d) rfl
  generalize (153 * (if m > 2 then m - 3 else m + 9) + 2) / 5 + d - 1 = doy at *
  split at hclosed <;> omega

/-! ## The fields of an instant -/

theorem exists_fields (t : Date) : ∃ y m d, IsDate y m d ∧ day t = daysFromCivil y m d ∧
    civilFromDays (day t) = (y, m, d) ∧ getUTCFullYear t = y ∧ getUTCMonth t = m - 1 ∧
      getUTCDate t = d := by
  obtain ⟨y, m, d, hdate, hday⟩ := exists_date (day t)
  have hcivil := civilFromDays_daysFromCivil hdate
  rw [hday] at hcivil
  refine ⟨y, m, d, hdate, hday.symm, hcivil, ?_, ?_, ?_⟩
  · simp [getUTCFullYear, hcivil]
  · simp [getUTCMonth, hcivil]
  · simp [getUTCDate, hcivil]

theorem makeDay_month (h : IsDate y m d) (k : Int) :
    makeDay y (m - 1) k = daysFromCivil y m 1 + k - 1 := by
  have hm₁ := h.1
  have hm₁₂ := h.2.1
  have hcarry : (m - 1) / 12 = 0 := by omega
  have hrest : (m - 1) % 12 + 1 = m := by omega
  rw [makeDay, hcarry, hrest, Int.add_zero]

theorem utc_eq {year : Int} (h : 100 ≤ year) (month date : Int) :
    Date.utc year month date = makeDay year month date * msPerDay := by
  unfold Date.utc
  rw [if_neg (by omega)]

theorem day_mul (z : Int) : day (z * msPerDay) = z :=
  Int.mul_ediv_cancel z (by decide)

end Date

end WorkflowBoard
