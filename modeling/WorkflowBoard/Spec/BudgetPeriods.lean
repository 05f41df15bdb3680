import WorkflowBoard.ForStd.Words
import WorkflowBoard.ForStd.Slots
import WorkflowBoard.Native.Budget
import WorkflowBoard.Spec.Calendar

/-!
# Period keys and period bounds agree

`periodKey` names the month or the ISO week of an instant by its year and number, `periodBounds`
computes where it begins and ends. From the year 100 on both cut the days into the same slots
(`periodKey_eq_iff`). The end of the last month and of the last week is beyond the range of `Date`,
so these have no end (`last_instant_outside`).
-/

namespace WorkflowBoard.Marketing

open Date

/-! ## Days -/

/-- The number of days from the epoch to the last `Date`. -/
def lastDay : Int := 100000000

def monthFirst (z : Int) : Int := daysFromCivil (civilFromDays z).1 (civilFromDays z).2.1 1

def monthNext (z : Int) : Int := makeDay (civilFromDays z).1 (civilFromDays z).2.1 1

def weekFirst (z : Int) : Int := z - (z + 3) % 7

def weekNext (z : Int) : Int := weekFirst z + 7

theorem slots_week : Slots weekFirst weekNext where
  le z := by
    unfold weekFirst
    omega
  lt z := by
    unfold weekNext weekFirst
    omega
  same z w hle hlt := by
    unfold weekNext weekFirst at *
    omega

theorem slots_month : Slots monthFirst monthNext where
  le z := by
    obtain ⟨y, m, d, hdate, rfl⟩ := exists_date z
    have hd := hdate.2.2.1
    rw [monthFirst, civilFromDays_daysFromCivil hdate, daysFromCivil_day y m d]
    dsimp only
    omega
  lt z := by
    obtain ⟨y, m, d, hdate, rfl⟩ := exists_date z
    have hd := hdate.2.2.2
    rw [monthNext, civilFromDays_daysFromCivil hdate, makeDay_next hdate, daysFromCivil_day y m d]
    omega
  same z w hle hlt := by
    obtain ⟨y, m, d, hdate, rfl⟩ := exists_date z
    rw [monthFirst, civilFromDays_daysFromCivil hdate] at hle
    rw [monthNext, civilFromDays_daysFromCivil hdate, makeDay_next hdate] at hlt
    dsimp only at hle hlt
    -- the day has a date in the same month
    have hdate' : IsDate y m (1 + (w - daysFromCivil y m 1)) :=
      ⟨hdate.1, hdate.2.1, by omega, by omega⟩
    have hw : w = daysFromCivil y m (1 + (w - daysFromCivil y m 1)) := by
      rw [daysFromCivil_day y m (1 + _)]
      omega
    have hcivil := civilFromDays_daysFromCivil hdate'
    rw [← hw] at hcivil
    simp only [monthFirst, monthNext, hcivil, civilFromDays_daysFromCivil hdate, and_self]

theorem newDate_day {z : Int} : newDate (z * msPerDay) =
    if -lastDay ≤ z ∧ z ≤ lastDay then some (z * msPerDay) else none := by
  have hvalid : isValid (z * msPerDay) = decide (-lastDay ≤ z ∧ z ≤ lastDay) := by
    unfold isValid
    rw [← Bool.decide_and]
    apply decide_eq_decide.mpr
    show -(8640000000000000 : Int) ≤ z * 86400000 ∧ z * 86400000 ≤ (8640000000000000 : Int) ↔
      -(100000000 : Int) ≤ z ∧ z ≤ (100000000 : Int)
    omega
  unfold newDate
  rw [hvalid]
  simp only [decide_eq_true_eq]

/-! ## Bounds -/

/-- The first day of a period, and the day behind its last one. -/
def periodFirst : BudgetPeriod → Int → Int
  | .month => monthFirst
  | .week => weekFirst
  | .none => id

def periodNext : BudgetPeriod → Int → Int
  | .month => monthNext
  | .week => weekNext
  | .none => (· + 1)

theorem slots_period (period : BudgetPeriod) : Slots (periodFirst period) (periodNext period) := by
  cases period with
  | month => exact slots_month
  | week => exact slots_week
  | none =>
    constructor
    · exact fun z => Int.le_refl z
    · exact fun z => Int.lt_add_one_iff.mpr (Int.le_refl z)
    · intro z w hle hlt
      have heq : w = z := by
        simp only [periodFirst, periodNext, id_eq] at hle hlt
        omega
      rw [heq]
      exact ⟨rfl, rfl⟩

/-- What is asked of an instant: it is one, and its year is not one that `Date.UTC` moves. -/
def IsInstant (t : Date) : Prop := isValid t = true ∧ 100 ≤ getUTCFullYear t

instance (t : Date) : Decidable (IsInstant t) := inferInstanceAs (Decidable (_ ∧ _))

variable {t u : Date} {period : BudgetPeriod}

theorem IsInstant.day_le (h : IsInstant t) :
    daysFromCivil 100 1 1 ≤ day t ∧ day t ≤ lastDay := by
  obtain ⟨hvalid, hyear⟩ := h
  obtain ⟨y, m, d, hdate, hday, -, hy, -, -⟩ := exists_fields t
  refine ⟨?_, ?_⟩
  · rw [hday]
    exact firstDay_le hdate (hy ▸ hyear)
  · simp only [isValid, Bool.and_eq_true, decide_eq_true_eq] at hvalid
    exact Int.ediv_le_ediv (by decide) hvalid.2

theorem periodBounds_eq (hperiod : period ≠ .none) (ht : IsInstant t) :
    periodBounds period t = some {
      start := some (periodFirst period (day t) * msPerDay)
      stop := newDate (periodNext period (day t) * msPerDay) } := by
  obtain ⟨hlow, hhigh⟩ := ht.day_le
  have hfirst : daysFromCivil 100 1 1 = -683003 := by decide
  have hslots := slots_period period
  have hle := hslots.le (day t)
  have hyear := ht.2
  obtain ⟨y, m, d, hdate, hday, hcivil, hy, hm, hd⟩ := exists_fields t
  rw [hy] at hyear
  have hmonth : daysFromCivil y m d = daysFromCivil y m 1 + (d - 1) := daysFromCivil_day y m d
  have hd₁ := hdate.2.2.1
  have hd₃₁ : d ≤ 31 := by
    have hlength := hdate.2.2.2
    unfold monthLength at hlength
    split at hlength
    · split at hlength <;> omega
    · split at hlength <;> omega
  have hnew : ∀ z, day t - 31 ≤ z → z ≤ day t → newDate (z * msPerDay) = some (z * msPerDay) := by
    intro z hz hz'
    unfold lastDay at hhigh
    rw [newDate_day, if_pos]
    unfold lastDay
    omega
  cases period with
  | none => exact absurd rfl hperiod
  | month =>
    have hstart : Date.utc y (m - 1) 1 = monthFirst (day t) * msPerDay := by
      rw [utc_eq hyear, makeDay_month hdate, monthFirst, hcivil]
      simp
    have hstop : Date.utc y (m - 1 + 1) 1 = monthNext (day t) * msPerDay := by
      rw [utc_eq hyear, monthNext, hcivil, Int.sub_add_cancel]
    have hbelow : day t - 31 ≤ monthFirst (day t) := by
      simp only [monthFirst, hcivil]
      omega
    rw [periodBounds, hy, hm, hstart, hstop, hnew _ hbelow hle]
    rfl
  | week =>
    have hweek : (getUTCDay t + 6) % 7 = (day t + 3) % 7 := by
      unfold getUTCDay
      omega
    have hstart : Date.utc y (m - 1) (d - (day t + 3) % 7) = weekFirst (day t) * msPerDay := by
      rw [utc_eq hyear, makeDay_month hdate, weekFirst]
      congr 1
      omega
    have hbelow : day t - 31 ≤ weekFirst (day t) := by
      unfold weekFirst
      omega
    have hstop : weekFirst (day t) * msPerDay + 7 * 24 * 60 * 60000 =
        weekNext (day t) * msPerDay := by
      unfold weekNext
      show weekFirst (day t) * (86400000 : Int) + _ = (weekFirst (day t) + 7) * (86400000 : Int)
      omega
    simp only [periodBounds, hweek, hy, hm, hd, hstart, hnew _ hbelow hle, Option.bind_some, hstop]
    rfl

/-! ## Keys -/

/-- The digits of a number have no dash and give the number back. -/
theorem toString_digits {n : Int} (hn : 0 ≤ n) :
    '-' ∉ (toString n).toList ∧ (Nat.ofDigitChars 10 (toString n).toList 0 : Int) = n := by
  obtain ⟨k, rfl⟩ := Int.eq_ofNat_of_zero_le hn
  have hchars : (toString (k : Int)).toList = Nat.toDigits 10 k := by
    show (Nat.repr k).toList = _
    rw [Nat.repr, String.toList_ofList]
  rw [hchars]
  constructor
  · intro hmem
    have hdigit := Nat.isDigit_of_mem_toDigits (by omega) (by omega) hmem
    exact absurd hdigit (by decide)
  · exact_mod_cast Nat.ofDigitChars_ten_toDigits

theorem padStart_inj {m n : Int} (hm : 0 ≤ m) (hn : 0 ≤ n) {k : Nat}
    (h : padStart (toString m) k = padStart (toString n) k) : m = n := by
  have hvalue : ∀ {n : Int}, 0 ≤ n →
      (Nat.ofDigitChars 10 (padStart (toString n) k).toList 0 : Int) = n := by
    intro n hn
    rw [padStart, String.toList_append, String.toList_ofList, Nat.ofDigitChars_append,
      Nat.ofDigitChars_replicate_zero, Nat.mul_zero]
    exact (toString_digits hn).2
  rw [← hvalue hm, ← hvalue hn, h]

/-- A key tells its year, and what stands behind the dash. -/
theorem key_inj {m n : Int} (hm : 0 ≤ m) (hn : 0 ≤ n) {a b : String} {r r' : List Char}
    (ha : a.toList = '-' :: r) (hb : b.toList = '-' :: r')
    (h : toString m ++ a = toString n ++ b) : m = n ∧ r = r' := by
  have hlist := congrArg String.toList h
  rw [String.toList_append, String.toList_append, ha, hb] at hlist
  obtain ⟨hyear, hrest⟩ := eq_of_cut (toString_digits hm).1 (toString_digits hn).1 hlist
  refine ⟨?_, hrest⟩
  rw [← (toString_digits hm).2, hyear, (toString_digits hn).2]

theorem monthKey_eq_iff (ht : IsInstant t) (hu : IsInstant u) :
    periodKey .month t = periodKey .month u ↔ monthFirst (day t) = monthFirst (day u) := by
  have hyear := ht.2
  have hyear' := hu.2
  obtain ⟨y, m, d, hdate, hday, hcivil, hy, hm, -⟩ := exists_fields t
  obtain ⟨y', m', d', hdate', hday', hcivil', hy', hm', -⟩ := exists_fields u
  have hfirst : IsDate y m 1 := by
    refine ⟨hdate.1, hdate.2.1, Int.le_refl 1, ?_⟩
    have hlength := hdate.2.2
    omega
  have hfirst' : IsDate y' m' 1 := by
    refine ⟨hdate'.1, hdate'.2.1, Int.le_refl 1, ?_⟩
    have hlength := hdate'.2.2
    omega
  have hm₁ := hdate.1
  have hm₁' := hdate'.1
  simp only [periodKey, monthFirst, hcivil, hcivil', hy, hm, hy', hm', Int.sub_add_cancel]
  constructor
  · intro h
    rw [String.append_assoc, String.append_assoc] at h
    obtain ⟨rfl, hrest⟩ := key_inj (by omega) (by omega)
      (by rw [String.toList_append]; rfl) (by rw [String.toList_append]; rfl) h
    have hmonth : m = m' := by
      apply padStart_inj (by omega) (by omega) (k := 2)
      exact String.toList_inj.mp hrest
    rw [hmonth]
  · intro h
    have hback := congrArg civilFromDays h
    rw [civilFromDays_daysFromCivil hfirst, civilFromDays_daysFromCivil hfirst'] at hback
    obtain ⟨rfl, hmonth⟩ := Prod.mk.inj hback
    obtain ⟨rfl, -⟩ := Prod.mk.inj hmonth
    rfl

/-- The Thursday of a week decides its year. -/
def weekThursday (z : Int) : Int := weekFirst z + 3

def weekOf (thursday : Int) : Int × Int :=
  let year := (civilFromDays thursday).1
  (year, ((thursday * msPerDay - Date.utc year 0 1) / msPerDay + 1 + 6) / 7)

theorem isoWeek_eq (ht : IsInstant t) : isoWeek t = weekOf (weekThursday (day t)) := by
  have hyear := ht.2
  obtain ⟨y, m, d, hdate, hday, hcivil, hy, hm, hd⟩ := exists_fields t
  rw [hy] at hyear
  have hmidnight : Date.utc y (m - 1) d = day t * msPerDay := by
    rw [utc_eq hyear, makeDay_month hdate, hday, daysFromCivil_day y m d]
    congr 1
    omega
  -- the fields at midnight are those of the day
  obtain ⟨y₀, m₀, d₀, hdate₀, hday₀, hcivil₀, hy₀, hm₀, hd₀⟩ := exists_fields (day t * msPerDay)
  rw [day_mul] at hday₀ hcivil₀
  have hthursday : setUTCDate (day t * msPerDay)
      (d₀ + 4 - if getUTCDay (day t * msPerDay) = 0 then 7 else getUTCDay (day t * msPerDay)) =
        weekThursday (day t) * msPerDay := by
    have hrest : day t * msPerDay % msPerDay = 0 := Int.mul_emod_left _ _
    rw [setUTCDate, hy₀, hm₀, makeDay_month hdate₀, hrest, Int.add_zero]
    congr 1
    rw [daysFromCivil_day y₀ m₀ d₀] at hday₀
    simp only [getUTCDay, day_mul, weekThursday, weekFirst]
    split <;> omega
  simp only [isoWeek, hy, hm, hd, hmidnight, hd₀, hthursday]
  simp only [weekOf, getUTCFullYear, day_mul]

/-- A Thursday of a week from the year 100 on is of that year or later, or it is the last day of the
    year 99. -/
theorem thursday_cases (ht : IsInstant t) :
    ∃ y m d, IsDate y m d ∧ daysFromCivil y m d = weekThursday (day t) ∧
      (100 ≤ y ∨ y = 99 ∧ weekThursday (day t) = -683004) := by
  obtain ⟨hlow, -⟩ := ht.day_le
  have hfirst : daysFromCivil 100 1 1 = -683003 := by decide
  obtain ⟨y, m, d, hdate, hday⟩ := exists_date (weekThursday (day t))
  refine ⟨y, m, d, hdate, hday, ?_⟩
  obtain ⟨-, -, hdoy, hleap, -, hlate⟩ := month_of_day hdate
  have hclosed := daysFromCivil_closed (y := y) (m := m) (d := d) rfl
  rw [hday] at hclosed
  unfold IsLeap at hleap
  unfold weekThursday weekFirst at *
  generalize (153 * (if m > 2 then m - 3 else m + 9) + 2) / 5 + d - 1 = doy at *
  split at hclosed <;> omega

theorem weekKey_eq_iff (ht : IsInstant t) (hu : IsInstant u) :
    periodKey .week t = periodKey .week u ↔ weekFirst (day t) = weekFirst (day u) := by
  simp only [periodKey, isoWeek_eq ht, isoWeek_eq hu]
  constructor
  · intro h
    obtain ⟨y, m, d, hdate, hday, hy⟩ := thursday_cases ht
    obtain ⟨y', m', d', hdate', hday', hy'⟩ := thursday_cases hu
    simp only [weekOf, ← hday, ← hday', civilFromDays_daysFromCivil hdate,
      civilFromDays_daysFromCivil hdate'] at h
    rw [String.append_assoc, String.append_assoc] at h
    obtain ⟨rfl, hrest⟩ := key_inj (by omega) (by omega)
      (by rw [String.toList_append]; rfl) (by rw [String.toList_append]; rfl) h
    have hthursday : weekThursday (day t) = weekThursday (day u) := by
      obtain hy | ⟨hy, hlast⟩ := hy
      · -- the weeks of one year are counted from its first day
        have hnumber : ∀ z, (z * msPerDay - Date.utc y 0 1) / msPerDay + 1 + 6 =
            z - daysFromCivil y 1 1 + 7 := by
          intro z
          have hjanuary : Date.utc y 0 1 = daysFromCivil y 1 1 * msPerDay := by
            rw [utc_eq hy, makeDay]
            simp
          rw [hjanuary, ← Int.sub_mul, Int.mul_ediv_cancel _ (by decide)]
          omega
        have hweek := String.toList_inj.mp (List.cons.inj hrest).2
        rw [hnumber, hnumber, hday, hday'] at hweek
        have hbounds := dayOfYear hdate
        have hbounds' := dayOfYear hdate'
        have heq := padStart_inj (by omega) (by omega) hweek
        unfold weekThursday weekFirst at *
        omega
      · obtain hy' | ⟨-, hlast'⟩ := hy'
        · omega
        · rw [hlast, hlast']
    unfold weekThursday at hthursday
    omega
  · intro h
    have hthursday : weekThursday (day t) = weekThursday (day u) := by
      unfold weekThursday
      rw [h]
    rw [hthursday]

/-! ## Keys and bounds -/

/-- The instant lies in `[start, stop)`; in bounds that are no dates lies nothing. -/
def PeriodBounds.Contains (b : PeriodBounds) (u : Date) : Prop :=
  ∃ start stop, b.start = some start ∧ b.stop = some stop ∧ start ≤ u ∧ u < stop

/-- When the last period begins that `Date` can hold: 1 or 8 September of the year 275760. -/
def lastStart : BudgetPeriod → Date
  | .month => Date.utc 275760 8 1
  | .week => Date.utc 275760 8 8
  | .none => 0

theorem periodKey_iff (hperiod : period ≠ .none) (ht : IsInstant t) (hu : IsInstant u) :
    periodKey period t = periodKey period u ↔
      periodFirst period (day t) = periodFirst period (day u) := by
  cases period with
  | month => exact monthKey_eq_iff ht hu
  | week => exact weekKey_eq_iff ht hu
  | none => exact absurd rfl hperiod

theorem lastStart_eq (hperiod : period ≠ .none) :
    lastStart period = periodFirst period lastDay * msPerDay := by
  cases period with
  | month => decide
  | week => decide
  | none => exact absurd rfl hperiod

theorem isInstant_day {z : Int} (hz : daysFromCivil 100 1 1 ≤ z) (hz' : z ≤ lastDay) :
    IsInstant (z * msPerDay) := by
  have hfirst : daysFromCivil 100 1 1 = -683003 := by decide
  constructor
  · have hnew := newDate_day (z := z)
    rw [if_pos (by unfold lastDay at *; omega)] at hnew
    unfold newDate at hnew
    split at hnew
    · assumption
    · cases hnew
  · obtain ⟨y, m, d, hdate, hday, -, hy, -, -⟩ := exists_fields (z * msPerDay)
    rw [hy]
    rw [day_mul] at hday
    exact year_ge hdate (hday ▸ hz)

theorem periodBounds_eq_iff (hperiod : period ≠ .none) (ht : IsInstant t) (hu : IsInstant u) :
    periodBounds period t = periodBounds period u ↔
      periodFirst period (day t) = periodFirst period (day u) := by
  rw [periodBounds_eq hperiod ht, periodBounds_eq hperiod hu]
  constructor
  · intro h
    simp only [Option.some.injEq, PeriodBounds.mk.injEq] at h
    exact Int.eq_of_mul_eq_mul_right (by decide) h.1
  · intro h
    rw [h, (slots_period period).next_eq h]

/-- The bounds of a period hold the instants of its days. -/
theorem contains_iff {first next : Int} :
    PeriodBounds.Contains ⟨some (first * msPerDay), some (next * msPerDay)⟩ u ↔
      first ≤ day u ∧ day u < next := by
  have hms : (0 : Int) < msPerDay := by decide
  constructor
  · rintro ⟨_, _, ⟨⟩, ⟨⟩, hle, hlt⟩
    exact ⟨(Int.le_ediv_iff_mul_le hms).mpr hle, (Int.ediv_lt_iff_lt_mul hms).mpr hlt⟩
  · rintro ⟨hle, hlt⟩
    exact ⟨_, _, rfl, rfl, (Int.le_ediv_iff_mul_le hms).mp hle,
      (Int.ediv_lt_iff_lt_mul hms).mp hlt⟩

/-- From the year 100 on, two instants have the same key exactly if they have the same bounds. Only
    the last month and the last week have no end. Of the others each instant lies in its own bounds,
    another has the same key exactly if it lies there too, and where they end the next begin. -/
theorem periodKey_eq_iff (hperiod : period ≠ .none) (ht : IsInstant t) (hu : IsInstant u) :
    (periodKey period t = periodKey period u ↔ periodBounds period t = periodBounds period u) ∧
    ∃ b, periodBounds period t = some b ∧ (b.stop = none ↔ lastStart period ≤ t) ∧
      ∀ stop, b.stop = some stop →
        (periodKey period t = periodKey period u ↔ b.Contains u) ∧ b.Contains t ∧
          ∃ next, periodBounds period stop = some next ∧ next.start = some stop := by
  have hslots := slots_period period
  have hfirst : daysFromCivil 100 1 1 = -683003 := by decide
  obtain ⟨hlow, hhigh⟩ := ht.day_le
  have hlt := hslots.lt (day t)
  have hend := hslots.next_le_iff hhigh
  refine ⟨(periodKey_iff hperiod ht hu).trans (periodBounds_eq_iff hperiod ht hu).symm, _,
    periodBounds_eq hperiod ht, ?_, ?_⟩
  · have hlast : lastStart period ≤ t ↔ periodFirst period lastDay ≤ day t := by
      rw [lastStart_eq hperiod]
      exact (Int.le_ediv_iff_mul_le (by decide)).symm
    rw [hlast, newDate_day]
    unfold lastDay at *
    split
    · simp
      omega
    · simp
      omega
  · intro stop hstop
    simp only [newDate_day] at hstop
    split at hstop
    · rename_i hin
      cases hstop
      have hbounds : newDate (periodNext period (day t) * msPerDay) =
          some (periodNext period (day t) * msPerDay) := by
        rw [newDate_day, if_pos hin]
      rw [hbounds, periodKey_iff hperiod ht hu, hslots.first_eq_iff]
      refine ⟨contains_iff.symm, contains_iff.mpr ⟨hslots.le _, hlt⟩, ?_⟩
      have hnext : IsInstant (periodNext period (day t) * msPerDay) :=
        isInstant_day (by omega) hin.2
      refine ⟨_, periodBounds_eq hperiod hnext, ?_⟩
      rw [day_mul, hslots.first_next]
    · cases hstop

/-- The weeks at the turn of a year with 53 of them: a Sunday in January and the Thursday before it
    share a key, and the Monday behind them does not. -/
theorem periodKey_eq_iff_turn :
    periodKey .week (Date.utc 2027 0 3) = periodKey .week (Date.utc 2026 11 31) ∧
      periodKey .week (Date.utc 2027 0 3) ≠ periodKey .week (Date.utc 2027 0 4) := by
  have hsunday : IsInstant (Date.utc 2027 0 3) := by decide
  have hthursday : IsInstant (Date.utc 2026 11 31) := by decide
  have hmonday : IsInstant (Date.utc 2027 0 4) := by decide
  have hweek : BudgetPeriod.week ≠ .none := by decide
  have hsame :
      periodBounds .week (Date.utc 2027 0 3) = periodBounds .week (Date.utc 2026 11 31) := by
    decide +kernel
  have hother :
      periodBounds .week (Date.utc 2027 0 3) ≠ periodBounds .week (Date.utc 2027 0 4) := by
    decide +kernel
  refine ⟨(periodKey_eq_iff hweek hsunday hthursday).1.mpr hsame, fun h => ?_⟩
  exact hother ((periodKey_eq_iff hweek hsunday hmonday).1.mp h)

/-- The last instant of `Date` is in no bounds: its month has no end. -/
theorem last_instant_outside :
    IsInstant maxTime ∧ ∃ b, periodBounds .month maxTime = some b ∧ ¬ b.Contains maxTime := by
  refine ⟨by decide, ⟨some (Date.utc 275760 8 1), none⟩, by decide, ?_⟩
  rintro ⟨start, stop, -, hstop, -⟩
  cases hstop

end WorkflowBoard.Marketing
