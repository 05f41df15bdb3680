import Mathlib.Data.Int.LeastGreatest
import WorkflowBoard.Spec.Calendar
import WorkflowBoard.Spec.CronAccepts

/-!
# The next firing of a cron expression

`nextCronAfter` walks the minutes of five years. An expression that fires at all fires within less
from any instant on, but for one that fires on leap days only: from the leap day before a century
that is no leap year to the one behind it are eight years.
-/

namespace WorkflowBoard.Qa

open Date

variable {f : CronFields} {start k z t : Int}

/-! ## Days and minutes -/

/-- The expression fires on this day. -/
def DayMatches (f : CronFields) (z : Int) : Prop :=
  (civilFromDays z).2.1 ∈ f.month ∧
    if f.domRestricted ∧ f.dowRestricted then
      (civilFromDays z).2.2 ∈ f.dom ∨ (z + 4) % 7 ∈ f.dow
    else if f.domRestricted then (civilFromDays z).2.2 ∈ f.dom
    else if f.dowRestricted then (z + 4) % 7 ∈ f.dow
    else True

/-- The expression fires at this minute of a day. -/
def TimeMatches (f : CronFields) (t : Int) : Prop :=
  0 ≤ t ∧ t < 1440 ∧ t % 60 ∈ f.minute ∧ t / 60 ∈ f.hour

theorem cronMatches_iff (f : CronFields) (k : Int) :
    cronMatches f (60000 * k) = true ↔
      isValid (60000 * k) = true ∧ TimeMatches f (k % 1440) ∧ DayMatches f (k / 1440) := by
  have hminute : 60000 * k / 60000 % 60 = k % 1440 % 60 := by omega
  have hhour : 60000 * k / 3600000 % 24 = k % 1440 / 60 := by omega
  have hday : day (60000 * k) = k / 1440 := by
    unfold day msPerDay
    omega
  have ht : 0 ≤ k % 1440 ∧ k % 1440 < 1440 := by omega
  unfold cronMatches DayMatches TimeMatches getUTCMonth getUTCDate getUTCDay
  rw [hminute, hhour, hday]
  simp only [Int.sub_add_cancel, Bool.and_eq_true, decide_eq_true_eq, and_assoc, ht, true_and]
  -- The day is compared by which of its two fields are restricted.
  cases f.domRestricted <;> cases f.dowRestricted <;> simp

/-- What the parser makes of an expression: each field names some values, within its bounds. -/
structure CronFields.Ok (f : CronFields) : Prop where
  minute : f.minute ≠ [] ∧ ∀ v ∈ f.minute, 0 ≤ v ∧ v ≤ 59
  hour : f.hour ≠ [] ∧ ∀ v ∈ f.hour, 0 ≤ v ∧ v ≤ 23
  dom : f.dom ≠ [] ∧ ∀ v ∈ f.dom, 1 ≤ v ∧ v ≤ 31
  month : f.month ≠ [] ∧ ∀ v ∈ f.month, 1 ≤ v ∧ v ≤ 12
  dow : f.dow ≠ [] ∧ ∀ v ∈ f.dow, 0 ≤ v ∧ v ≤ 6

theorem field_bounds {Step : Nat → Prop} {min max : Int} {segs : List (List Char)} {vs : List Int}
    (hle : min ≤ max) (h : Field Step min max segs {v | v ∈ vs}) :
    vs ≠ [] ∧ ∀ v ∈ vs, min ≤ v ∧ v ≤ max := by
  obtain ⟨v, hv⟩ := h.nonempty hle
  exact ⟨List.ne_nil_of_mem hv, fun v hv => h.bounds v hv⟩

theorem ok_of_parseCron {expr : String} (h : parseCron expr = .ok f) : f.Ok := by
  obtain ⟨_, _, _, _, _, -, hm, hh, hdom, hmon, hdow⟩ := parseCron_ok.mpr ⟨f, h, rfl⟩
  exact ⟨field_bounds (by decide) hm, field_bounds (by decide) hh, field_bounds (by decide) hdom,
    field_bounds (by decide) hmon, field_bounds (by decide) hdow⟩

theorem CronFields.Ok.exists_time (hok : f.Ok) : ∃ t, TimeMatches f t := by
  obtain ⟨m, hm⟩ := List.exists_mem_of_ne_nil _ hok.minute.1
  obtain ⟨h, hh⟩ := List.exists_mem_of_ne_nil _ hok.hour.1
  have hmb := hok.minute.2 m hm
  have hhb := hok.hour.2 h hh
  have hminute : (60 * h + m) % 60 = m := by omega
  have hhour : (60 * h + m) / 60 = h := by omega
  refine ⟨60 * h + m, by omega, by omega, ?_, ?_⟩
  · rw [hminute]
    exact hm
  · rw [hhour]
    exact hh

/-! ## Which days -/

/-- Of the days that the expression names only the leap days exist. -/
structure OnlyLeapDays (f : CronFields) : Prop where
  dom : f.domRestricted = true
  dow : f.dowRestricted = false
  leap : 2 ∈ f.month ∧ 29 ∈ f.dom
  common : ∀ m ∈ f.month, ∀ d ∈ f.dom, monthLength 1 m < d

/-- A schedule that fires on leap days only fires on all of them. -/
theorem fires_on_leapDay (h : OnlyLeapDays f) :
    DayMatches f z ↔ ∃ y, IsLeap y ∧ z = leapDay y := by
  unfold DayMatches
  rw [← civil_leapDay, h.dom, h.dow]
  simp only [Bool.false_eq_true, and_false, if_false, if_true]
  constructor
  · rintro ⟨hm, hd⟩
    obtain ⟨y, m, d, hdate, rfl⟩ := exists_date z
    rw [civilFromDays_daysFromCivil hdate] at hm hd ⊢
    obtain ⟨rfl, rfl⟩ := hdate.eq_leap (h.common m hm d hd)
    rfl
  · intro hcivil
    rw [hcivil]
    exact h.leap

/-- A date of the year behind the day: one that exists in every year. -/
theorem exists_next_date (z : Int) {m d : Int} (hm : 1 ≤ m ∧ m ≤ 12)
    (hd : 1 ≤ d ∧ d ≤ monthLength 1 m) :
    ∃ y, IsDate y m d ∧ z < daysFromCivil y m d ∧ daysFromCivil y m d ≤ z + 1100 := by
  obtain ⟨y, m', d', hdate, rfl⟩ := exists_date z
  have hnext : IsDate (y + 1) m d :=
    ⟨hm.1, hm.2, hd.1, Int.le_trans hd.2 (monthLength_common (y + 1) m).1⟩
  exact ⟨y + 1, hnext, next_year hdate hnext⟩

/-- An expression that fires on a day and not on leap days only fires within three years from any
    day on. -/
theorem fires_within (hok : f.Ok) (hday : ∃ z, DayMatches f z) (hleap : ¬OnlyLeapDays f)
    (z : Int) : ∃ z', z < z' ∧ z' ≤ z + 1106 ∧ DayMatches f z' := by
  obtain ⟨m, hm⟩ := List.exists_mem_of_ne_nil _ hok.month.1
  have hmb := hok.month.2 m hm
  have hlength := monthLength_ge m
  cases hdow : f.dowRestricted with
  | true =>
    -- The first days of the month are each some day of the week.
    obtain ⟨w, hw⟩ := List.exists_mem_of_ne_nil _ hok.dow.1
    have hwb := hok.dow.2 w hw
    obtain ⟨y, hdate, hlt, hle⟩ := exists_next_date z hmb (d := 1) ⟨by omega, by omega⟩
    generalize hfirst : daysFromCivil y m 1 = first at hlt hle
    obtain ⟨k, hk₀, hk₆, hweekday⟩ : ∃ k, 0 ≤ k ∧ k ≤ 6 ∧ (first + k + 4) % 7 = w :=
      ⟨(w - (first + 4)) % 7, by omega, by omega, by omega⟩
    have hday : daysFromCivil y m (1 + k) = first + k := by
      rw [← hfirst, daysFromCivil_closed rfl, daysFromCivil_closed rfl]
      omega
    have hdate' : IsDate y m (1 + k) := by
      have hmonth := (monthLength_common y m).1
      exact ⟨hdate.1, hdate.2.1, by omega, by omega⟩
    refine ⟨first + k, by omega, by omega, ?_⟩
    unfold DayMatches
    rw [hweekday, ← hday, civilFromDays_daysFromCivil hdate', hdow]
    cases f.domRestricted <;> simp [hm, hw]
  | false =>
    cases hdom : f.domRestricted with
    | false =>
      obtain ⟨y, hdate, hlt, hle⟩ := exists_next_date z hmb (d := 1) ⟨by omega, by omega⟩
      refine ⟨daysFromCivil y m 1, hlt, by omega, ?_⟩
      unfold DayMatches
      rw [civilFromDays_daysFromCivil hdate]
      simp [hdow, hdom, hm]
    | true =>
      obtain ⟨m, hm, d, hd, hlength⟩ : ∃ m ∈ f.month, ∃ d ∈ f.dom, d ≤ monthLength 1 m := by
        by_contra hnone
        have hcommon : ∀ m ∈ f.month, ∀ d ∈ f.dom, monthLength 1 m < d := by
          intro m hm d hd
          by_contra hle
          exact hnone ⟨m, hm, d, hd, Int.not_lt.mp hle⟩
        -- The day that it fires on is a leap day then.
        obtain ⟨z, hz⟩ := hday
        obtain ⟨y, m, d, hdate, rfl⟩ := exists_date z
        unfold DayMatches at hz
        rw [civilFromDays_daysFromCivil hdate, hdom, hdow] at hz
        obtain ⟨hm, hd⟩ : m ∈ f.month ∧ d ∈ f.dom := by simpa using hz
        obtain ⟨rfl, rfl⟩ := hdate.eq_leap (hcommon m hm d hd)
        exact hleap ⟨hdom, hdow, ⟨hm, hd⟩, hcommon⟩
      obtain ⟨y, hdate, hlt, hle⟩ := exists_next_date z (hok.month.2 m hm)
        ⟨(hok.dom.2 d hd).1, hlength⟩
      refine ⟨daysFromCivil y m d, hlt, by omega, ?_⟩
      unfold DayMatches
      rw [civilFromDays_daysFromCivil hdate]
      simp [hdow, hdom, hm, hd]

/-! ## The walk -/

/-- The expression fires at this minute since the epoch. -/
def Fires (f : CronFields) (k : Int) : Prop := cronMatches f (60000 * k) = true

/-- The minutes of the range of `Date`. -/
def InRange (k : Int) : Prop := -144000000000 ≤ k ∧ k ≤ 144000000000

theorem isValid_iff : isValid (60000 * k) = true ↔ InRange k := by
  unfold isValid maxTime InRange
  simp only [Bool.and_eq_true, decide_eq_true_eq]
  unfold Date
  omega

theorem Fires.inRange (h : Fires f k) : InRange k :=
  isValid_iff.mp ((cronMatches_iff f k).mp h).1

theorem fires_iff (ht : TimeMatches f t) (hrange : InRange (1440 * z + t)) :
    Fires f (1440 * z + t) ↔ DayMatches f z := by
  have ht₀ := ht.1
  have ht₁ := ht.2.1
  have hminute : (1440 * z + t) % 1440 = t := by omega
  have hday : (1440 * z + t) / 1440 = z := by omega
  unfold Fires
  rw [cronMatches_iff, hminute, hday, isValid_iff]
  exact ⟨fun h => h.2.2, fun h => ⟨hrange, ht, h⟩⟩

theorem Fires.exists_day (h : Fires f k) :
    ∃ z t, k = 1440 * z + t ∧ TimeMatches f t ∧ DayMatches f z := by
  obtain ⟨-, ht, hz⟩ := (cronMatches_iff f k).mp h
  exact ⟨k / 1440, k % 1440, by omega, ht, hz⟩

/-- The minutes that are walked. -/
def Walked (k₀ k : Int) : Prop := k₀ < k ∧ k ≤ k₀ + 2635200

/-- Behind the last firing before a century that is no leap year, and more than the walk before the
    next one. -/
def CenturyGap (f : CronFields) (k₀ : Int) : Prop :=
  ∃ c, c % 100 = 0 ∧ c % 400 ≠ 0 ∧ ∀ t, TimeMatches f t →
    1440 * leapDay (c - 4) + t ≤ k₀ ∧ k₀ + 2635200 < 1440 * leapDay (c + 4) + t

variable {k₀ : Int}

/-- If the walk finds nothing although there is a firing later on, it is one on leap days only. -/
theorem onlyLeapDays_of_missed (hok : f.Ok) (h₀ : InRange k₀)
    (hnone : ∀ k, Walked k₀ k → ¬Fires f k) (hk : k₀ < k) (hfires : Fires f k) :
    OnlyLeapDays f := by
  by_contra hleap
  obtain ⟨z, t, rfl, ht, hz⟩ := hfires.exists_day
  obtain ⟨z', hlt, hle, hz'⟩ := fires_within hok ⟨z, hz⟩ hleap (k₀ / 1440)
  have hrange := hfires.inRange
  have ht₀ := ht.1
  have ht₁ := ht.2.1
  have hlate : k₀ + 2635200 < 1440 * z + t := by
    by_contra hle
    exact hnone _ ⟨hk, by omega⟩ hfires
  have hwalked : Walked k₀ (1440 * z' + t) := by
    unfold Walked
    omega
  -- What is walked is in the range of `Date`, as what fires behind it is.
  have hrange' : InRange (1440 * z' + t) := by
    unfold InRange Walked at *
    omega
  exact hnone _ hwalked ((fires_iff ht hrange').mpr hz')

/-- And the walk starts in the gap around a century. -/
theorem centuryGap_of_missed (h₀ : InRange k₀) (hleap : OnlyLeapDays f)
    (hnone : ∀ k, Walked k₀ k → ¬Fires f k) (hk : k₀ < k) (hfires : Fires f k) :
    CenturyGap f k₀ := by
  -- The first firing is behind the walk.
  obtain ⟨k, ⟨hk, hfires⟩, hfirst⟩ : ∃ k, (k₀ < k ∧ Fires f k) ∧
      ∀ k', k₀ < k' ∧ Fires f k' → k ≤ k' :=
    Int.exists_least_of_bdd ⟨k₀, fun k h => Int.le_of_lt h.1⟩ ⟨k, hk, hfires⟩
  obtain ⟨z, t, rfl, ht, hz⟩ := hfires.exists_day
  have hrange := hfires.inRange
  have hlate : k₀ + 2635200 < 1440 * z + t := by
    by_contra hle
    exact hnone _ ⟨hk, by omega⟩ hfires
  obtain ⟨y, hy, rfl⟩ := (fires_on_leapDay hleap).mp hz
  have ht₁ := ht.2.1
  have ht₀ := ht.1
  -- A time of another leap day is before the start or behind the first firing.
  have hother : ∀ {y' t'}, IsLeap y' → TimeMatches f t' → 1440 * leapDay y' + t' ≤ k₀ ∨
      1440 * leapDay y + t ≤ 1440 * leapDay y' + t' := by
    intro y' t' hy' ht'
    by_contra hbetween
    rw [not_or, Int.not_le, Int.not_le] at hbetween
    have hrange' : InRange (1440 * leapDay y' + t') := by
      unfold InRange at *
      omega
    have hfires' := (fires_iff ht' hrange').mpr ((fires_on_leapDay hleap).mpr ⟨y', hy', rfl⟩)
    have hle := hfirst _ ⟨hbetween.1, hfires'⟩
    omega
  obtain ⟨hprev, hgap⟩ | ⟨hc, hc', hprev, hgap⟩ := leapDay_next hy
  · obtain hbefore | hafter := hother hprev ht
    · omega
    · omega
  · refine ⟨y - 4, hc, hc', fun t' ht' => ⟨?_, ?_⟩⟩
    · have height : y - 4 - 4 = y - 8 := by omega
      rw [height]
      have ht₁' := ht'.2.1
      obtain hbefore | hafter := hother hprev ht'
      · exact hbefore
      · omega
    · have hself : y - 4 + 4 = y := by omega
      rw [hself]
      have ht₀' := ht'.1
      obtain hbefore | hafter := hother hy ht'
      · omega
      · omega

/-- In the gap nothing that is walked fires, and the leap day behind it does. -/
theorem missed_of_centuryGap (hok : f.Ok) (h₀ : InRange k₀) (hleap : OnlyLeapDays f)
    (hgap : CenturyGap f k₀) :
    (∀ k, Walked k₀ k → ¬Fires f k) ∧ ∃ k, k₀ < k ∧ Fires f k := by
  obtain ⟨c, hc, hc', htimes⟩ := hgap
  constructor
  · rintro k ⟨hlt, hle⟩ hfires
    obtain ⟨z, t, rfl, ht, hz⟩ := hfires.exists_day
    obtain ⟨y, hy, rfl⟩ := (fires_on_leapDay hleap).mp hz
    obtain ⟨hbefore, hbehind⟩ := htimes t ht
    have hlow : c - 4 < y := leapDay_lt.mp (by omega)
    have hhigh : y < c + 4 := leapDay_lt.mp (by omega)
    unfold IsLeap at hy
    omega
  · obtain ⟨t, ht⟩ := hok.exists_time
    obtain ⟨hbefore, hbehind⟩ := htimes t ht
    have hy : IsLeap (c + 4) := by
      unfold IsLeap
      omega
    -- The range of `Date` does not end within eight years of such a century.
    have hrange : InRange (1440 * leapDay (c + 4) + t) := by
      have ht₀ := ht.1
      have ht₁ := ht.2.1
      rw [leapDay_eq] at hbefore hbehind ⊢
      unfold InRange at *
      omega
    exact ⟨_, by omega, (fires_iff ht hrange).mpr ((fires_on_leapDay hleap).mpr ⟨_, hy, rfl⟩)⟩

/-! ## The promise -/

/-- The least whole minute behind the start at which the expression fires, or nothing if there is
    none. -/
structure NextFiring (f : CronFields) (start : Int) (r : Option Int) : Prop where
  least : ∀ d, r = some d → start < d ∧ d % 60000 = 0 ∧ cronMatches f d = true ∧
    ∀ e, start < e → e < d → e % 60000 = 0 → cronMatches f e = false
  never : r = none → ∀ e, start < e → e % 60000 = 0 → cronMatches f e = false

theorem firstMatch_some {n : Nat} {cursor d : Int} (h : firstMatch f n cursor = some d) :
    ∃ i : Nat, i < n ∧ d = cursor + 60000 * i ∧ cronMatches f d = true ∧
      ∀ j : Nat, j < i → cronMatches f (cursor + 60000 * j) = false := by
  induction n generalizing cursor with
  | zero => cases h
  | succ n ih =>
    unfold firstMatch at h
    split at h
    · rename_i hmatch
      cases h
      exact ⟨0, Nat.zero_lt_succ n, by simp, hmatch, by simp⟩
    · rename_i hmatch
      obtain ⟨i, hi, rfl, hd, hbefore⟩ := ih h
      refine ⟨i + 1, Nat.succ_lt_succ hi, by omega, hd, fun j hj => ?_⟩
      cases j with
      | zero => simpa using hmatch
      | succ j =>
        have hstep : cursor + 60000 * ((j + 1 : Nat) : Int) = cursor + 60000 + 60000 * j := by omega
        rw [hstep]
        exact hbefore j (Nat.lt_of_succ_lt_succ hj)

theorem firstMatch_none {n : Nat} {cursor : Int} :
    firstMatch f n cursor = none ↔
      ∀ i : Nat, i < n → cronMatches f (cursor + 60000 * i) = false := by
  induction n generalizing cursor with
  | zero => exact ⟨fun _ => by simp, fun _ => rfl⟩
  | succ n ih =>
    unfold firstMatch
    have hstep : ∀ i : Nat, cursor + 60000 * ((i + 1 : Nat) : Int) =
        cursor + 60000 + 60000 * i := by
      omega
    split
    · rename_i hmatch
      refine ⟨by simp, fun h => ?_⟩
      have hfirst := h 0 (Nat.zero_lt_succ n)
      simp [hmatch] at hfirst
    · rename_i hmatch
      rw [ih]
      constructor
      · intro h i hi
        cases i with
        | zero => simpa using hmatch
        | succ i =>
          rw [hstep]
          exact h i (Nat.lt_of_succ_lt_succ hi)
      · intro h i hi
        rw [← hstep]
        exact h (i + 1) (Nat.succ_lt_succ hi)

/-- The walk finds nothing if nothing that is walked fires. -/
theorem walk_none : firstMatch f maxMinutesLookahead (start / 60000 * 60000 + 60000) = none ↔
    ∀ k, Walked (start / 60000) k → ¬Fires f k := by
  rw [firstMatch_none]
  unfold Walked Fires maxMinutesLookahead
  constructor
  · rintro h k ⟨hlt, hle⟩
    have hmatch := h (k - start / 60000 - 1).toNat (by omega)
    have hk : start / 60000 * 60000 + 60000 + 60000 * ((k - start / 60000 - 1).toNat : Int) =
        60000 * k := by
      omega
    rw [hk] at hmatch
    simp [hmatch]
  · intro h i hi
    have hmatch := h (start / 60000 + 1 + i) ⟨by omega, by omega⟩
    have hk : 60000 * (start / 60000 + 1 + i) = start / 60000 * 60000 + 60000 + 60000 * i := by
      omega
    rw [hk] at hmatch
    exact Bool.eq_false_iff.mpr hmatch

/-- What the walk finds is the next firing exactly if it does not start in the gap around a century
    with an expression for leap days only. -/
theorem walk_iff (hok : f.Ok) (hstart : isValid start = true) :
    NextFiring f start (firstMatch f maxMinutesLookahead (start / 60000 * 60000 + 60000)) ↔
      ¬(OnlyLeapDays f ∧ CenturyGap f (start / 60000)) := by
  have h₀ : InRange (start / 60000) := by
    unfold isValid maxTime at hstart
    unfold InRange
    simp only [Bool.and_eq_true, decide_eq_true_eq] at hstart
    unfold Date at hstart
    omega
  constructor
  · rintro ⟨-, hnever⟩ ⟨hleap, hgap⟩
    obtain ⟨hnone, k, hk, hfires⟩ := missed_of_centuryGap hok h₀ hleap hgap
    have hmatch := hnever (walk_none.mpr hnone) (60000 * k) (by omega) (by omega)
    exact Bool.false_ne_true (hmatch.symm.trans hfires)
  · intro hgap
    constructor
    · intro d hd
      obtain ⟨i, -, rfl, hmatch, hbefore⟩ := firstMatch_some hd
      refine ⟨by omega, by omega, hmatch, fun e hlt hle hwhole => ?_⟩
      have he : e = start / 60000 * 60000 + 60000 + 60000 *
          ((e / 60000 - start / 60000 - 1).toNat : Int) := by
        omega
      rw [he]
      exact hbefore _ (by omega)
    · intro hnone e hlt hwhole
      rw [walk_none] at hnone
      by_contra hmatch
      have he : e = 60000 * (e / 60000) := by omega
      have hfires : Fires f (e / 60000) := by
        unfold Fires
        rw [← he]
        exact Bool.not_eq_false _ ▸ hmatch
      have hk : start / 60000 < e / 60000 := by omega
      have hleap := onlyLeapDays_of_missed hok h₀ hnone hk hfires
      exact hgap ⟨hleap, centuryGap_of_missed h₀ hleap hnone hk hfires⟩

theorem nextCronAfter_of_parse {expr : String} (hparse : parseCron expr = .ok f) (start : Int) :
    nextCronAfter expr start =
      .ok (firstMatch f maxMinutesLookahead (start / 60000 * 60000 + 60000)) := by
  unfold nextCronAfter
  rw [hparse]
  rfl

/-- `nextCronAfter` gives the next firing exactly if it does not start in the gap around a century
    with an expression for leap days only. -/
theorem nextCronAfter_iff {expr : String} (hparse : parseCron expr = .ok f)
    (hstart : isValid start = true) :
    (∃ r, nextCronAfter expr start = .ok r ∧ NextFiring f start r) ↔
      ¬(OnlyLeapDays f ∧ CenturyGap f (start / 60000)) := by
  rw [← walk_iff (ok_of_parseCron hparse) hstart, nextCronAfter_of_parse hparse]
  constructor
  · rintro ⟨_, ⟨⟩, h⟩
    exact h
  · exact fun h => ⟨_, rfl, h⟩

/-- Every midnight. -/
def midnights : CronFields where
  minute := [0]
  hour := [0]
  dom := stepRange 1 31 1
  month := stepRange 1 12 1
  dow := stepRange 0 6 1
  domRestricted := false
  dowRestricted := false

/-- The first midnight after the epoch. -/
theorem nextCronAfter_midnights :
    ∃ r, nextCronAfter "0 0 * * *" 0 = .ok r ∧ NextFiring midnights 0 r := by
  have hparse : (parseCron "0 0 * * *").toOption = some midnights := by decide +kernel
  refine (nextCronAfter_iff (except_toOption_eq_some.mp hparse) (by decide)).mpr ?_
  rintro ⟨hleap, -⟩
  cases hleap.dom

/-- The midnights of leap days. -/
def leapMidnights : CronFields where
  minute := [0]
  hour := [0]
  dom := [29]
  month := [2]
  dow := stepRange 0 6 1
  domRestricted := true
  dowRestricted := false

/-- From the first of March 2096 on the walk ends before the leap day of 2104. -/
theorem nextCronAfter_misses : ¬∀ (expr : String) (f : CronFields) (start : Int),
    parseCron expr = .ok f → isValid start = true →
      ∃ r, nextCronAfter expr start = .ok r ∧ NextFiring f start r := by
  intro h
  have hparse : (parseCron "0 0 29 2 *").toOption = some leapMidnights := by decide +kernel
  rw [except_toOption_eq_some] at hparse
  obtain ⟨r, hr, hnext⟩ := h _ _ 3981398400000 hparse (by decide)
  rw [nextCronAfter_of_parse hparse, Except.ok.injEq] at hr
  rw [← hr, walk_iff (ok_of_parseCron hparse) (by decide)] at hnext
  refine hnext ⟨⟨rfl, rfl, by decide, by decide⟩, 2100, by decide, by decide, fun t ht => ?_⟩
  have hminute : t % 60 = 0 := by simpa [leapMidnights] using ht.2.2.1
  have hhour : t / 60 = 0 := by simpa [leapMidnights] using ht.2.2.2
  rw [leapDay_eq, leapDay_eq]
  omega

/-! ## One firing after the other -/

/-- The first `n` firings behind an instant, each computed from the one before it; fewer if there
    are no more. -/
def firings (expr : String) : Nat → Date → Except String (List Date)
  | 0, _ => .ok []
  | n + 1, start => do
    match ← nextCronAfter expr start with
    | none => return []
    | some d => return d :: (← firings expr n d)

/-- What is computed firing by firing leaves nothing out: the firings are later and later minutes
    that match, and every minute that matches up to the last of them is one of them. Where there are
    fewer, none is found behind the last. -/
theorem firings_exact {expr : String} (hparse : parseCron expr = .ok f) (n : Nat) (start : Int) :
    ∃ ds : List Int, firings expr n start = .ok ds ∧ (start :: ds).Pairwise (· < ·) ∧
      (∀ d ∈ ds, d % 60000 = 0 ∧ cronMatches f d = true) ∧
      (∀ e, start < e → e % 60000 = 0 → cronMatches f e = true → (∃ d ∈ ds, e ≤ d) → e ∈ ds) ∧
      (ds.length = n ∨ nextCronAfter expr (ds.getLastD start) = .ok none) := by
  induction n generalizing start with
  | zero => exact ⟨[], rfl, by simp, by simp, by simp, .inl rfl⟩
  | succ n ih =>
    cases hnext : firstMatch f maxMinutesLookahead (start / 60000 * 60000 + 60000) with
    | none =>
      have hnone : nextCronAfter expr start = .ok none := by
        rw [nextCronAfter_of_parse hparse, hnext]
      refine ⟨[], ?_, by simp, by simp, by simp, .inr hnone⟩
      simp only [firings, hnone]
      rfl
    | some d =>
      obtain ⟨ds, hds, hsorted, hmatch, hall, hlast⟩ := ih d
      obtain ⟨i, hi, hd, hfires, hbefore⟩ := firstMatch_some hnext
      have hlt : start < d := by omega
      refine ⟨d :: ds, ?_, ?_, ?_, ?_, ?_⟩
      · simp only [firings, nextCronAfter_of_parse hparse, hnext]
        show (do let ds ← firings expr n d; return d :: ds) = _
        rw [hds]
        rfl
      · refine List.pairwise_cons.mpr ⟨fun e he => ?_, hsorted⟩
        obtain rfl | he := List.mem_cons.mp he
        · exact hlt
        · exact Int.lt_trans hlt ((List.pairwise_cons.mp hsorted).1 e he)
      · rintro e (_ | ⟨_, he⟩)
        · exact ⟨by omega, hfires⟩
        · exact hmatch e he
      · rintro e hse hwhole he ⟨x, hx, hex⟩
        obtain hlt | rfl | hgt := Int.lt_trichotomy e d
        · -- a minute that the walk has passed
          have hk := hbefore ((e - (start / 60000 * 60000 + 60000)) / 60000).toNat (by omega)
          have heq : start / 60000 * 60000 + 60000 +
              60000 * (((e - (start / 60000 * 60000 + 60000)) / 60000).toNat : Int) = e := by
            omega
          rw [heq, he] at hk
          cases hk
        · exact List.mem_cons_self
        · obtain rfl | hx := List.mem_cons.mp hx
          · omega
          · exact List.mem_cons_of_mem _ (hall e hgt hwhole he ⟨x, hx, hex⟩)
      · rw [List.length_cons, Nat.succ_inj, List.getLastD_cons]
        exact hlast

theorem firings_exact_midnights :
    ∃ ds, firings "0 0 * * *" 2 0 = .ok ds ∧ ((0 : Int) :: ds).Pairwise (· < ·) := by
  have hparse : (parseCron "0 0 * * *").toOption = some midnights := by decide +kernel
  obtain ⟨ds, hds, hsorted, -⟩ := firings_exact (except_toOption_eq_some.mp hparse) 2 0
  exact ⟨ds, hds, hsorted⟩

end WorkflowBoard.Qa
