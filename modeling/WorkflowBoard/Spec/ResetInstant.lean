import WorkflowBoard.Native.HarnessReset
import WorkflowBoard.Spec.Calendar
import WorkflowBoard.Spec.WhiteSpace

/-!
# The next reset

`wallClockToUtc` is the twice corrected guess of `LocalTime`. `parseHarnessResetTime` looks for the
time on the local date of now and then, if that is over, on the local date 24 hours behind it. This
need not be the next date, and where the time is skipped or shown twice the guess need not be the
next reset.
-/

namespace WorkflowBoard.AgentManager

open Date

variable {intl : Intl} {tz : String} {zone : TimeZone} {now t date hour minute : Int}

/-- By how many milliseconds the clock is ahead of UTC. -/
def TimeZone.offset (zone : TimeZone) (t : Int) : Int := 1000 * zone.offsetSeconds t

/-- The date on the clock, as a day number. -/
def TimeZone.localDate (zone : TimeZone) (t : Int) : Int := reading zone.offset t / msPerDay

/-- What the clock shows at this time of this date. -/
def timeOn (date hour minute : Int) : Int := date * msPerDay + (hour * 60 + minute) * 60000

/-- The clock shows this time of this date, on the full minute. -/
def TimeZone.Shows (zone : TimeZone) (t date hour minute : Int) : Prop :=
  reading zone.offset t = timeOn date hour minute

instance (zone : TimeZone) (t date hour minute : Int) :
    Decidable (zone.Shows t date hour minute) :=
  inferInstanceAs (Decidable (_ = _))

/-- The offset that is taken for the time on this date. -/
def TimeZone.taken (zone : TimeZone) (date hour minute : Int) : Int :=
  zone.offset (timeOn date hour minute - zone.offset (timeOn date hour minute))

/-- The clock has yet to show the time on the date of now or on the next. -/
def HasReset (zone : TimeZone) (now hour minute : Int) : Prop :=
  ∃ t, now < t ∧ (zone.Shows t (zone.localDate now) hour minute ∨
    zone.Shows t (zone.localDate now + 1) hour minute)

/-- An instant at which it does, not later than the first on the next date. -/
structure NextReset (zone : TimeZone) (now hour minute t : Int) : Prop where
  after : now < t
  shows : zone.Shows t (zone.localDate now) hour minute ∨
    zone.Shows t (zone.localDate now + 1) hour minute
  early : ∀ u, now < u → zone.Shows u (zone.localDate now + 1) hour minute → t ≤ u

/-- The time is still shown on the date of now, with the offset that is taken. Or it is over by that
    offset, 24 hours later is the next date, and there the time is first shown with the offset that
    is taken. -/
def MeetsReset (zone : TimeZone) (now hour minute : Int) : Prop :=
  let date := zone.localDate now
  let shift := zone.taken date hour minute
  (∃ t, now < t ∧ zone.Shows t date hour minute ∧ zone.offset t = shift) ∨
    timeOn date hour minute ≤ now + shift ∧
      zone.localDate (timeOn date hour minute - shift + msPerDay) = date + 1 ∧
      ∃ t, now < t ∧ zone.Shows t (date + 1) hour minute ∧
        zone.offset t = zone.taken (date + 1) hour minute ∧
        ∀ u, now < u → zone.Shows u (date + 1) hour minute → t ≤ u

/-! ## The code in terms of the offset -/

theorem TimeZone.reading_eq (zone : TimeZone) (t : Int) :
    reading zone.offset t = t + 1000 * zone.offsetSeconds t :=
  rfl

theorem TimeZone.steadyOffset (zone : TimeZone) : SteadyOffset msPerDay 3600000 zone.offset :=
  zone.steady

theorem utcTime_eq {y mo d : Int} (hdate : IsDate y mo d)
    (hfirst : daysFromCivil 100 1 1 ≤ daysFromCivil y mo d) (h mi s : Int) :
    utcTime y (mo - 1) d h mi s =
      daysFromCivil y mo d * msPerDay + ((h * 60 + mi) * 60 + s) * 1000 := by
  rw [utcTime, utc_eq (year_ge hdate hfirst), makeDay_month hdate, daysFromCivil_day y mo d]
  ring

theorem exists_tzParts (hzone : intl.zone tz = some zone)
    (hfirst : daysFromCivil 100 1 1 ≤ zone.localDate t) :
    ∃ p, tzParts intl tz t = some p ∧ IsDate p.y p.mo p.d ∧
      daysFromCivil p.y p.mo p.d = zone.localDate t ∧
      (p.h * 60 + p.mi) * 60 + p.s = reading zone.offset t % msPerDay / 1000 := by
  obtain ⟨y, mo, d, hdate, hday⟩ := exists_date (zone.localDate t)
  have hcivil := civilFromDays_daysFromCivil hdate
  have hy := year_ge hdate (hday ▸ hfirst)
  rw [hday, TimeZone.localDate, zone.reading_eq] at hcivil
  refine ⟨_, by rw [tzParts, hzone]; rfl, ?_, ?_, ?_⟩
  · simp only [hcivil]
    rw [if_neg (by omega)]
    exact hdate
  · simp only [hcivil]
    rw [if_neg (by omega)]
    exact hday
  · dsimp only
    rw [← zone.reading_eq]
    omega

theorem tzOffsetMs_eq (hzone : intl.zone tz = some zone)
    (hfirst : daysFromCivil 100 1 1 ≤ zone.localDate t) :
    tzOffsetMs intl tz t = some (zone.offset t) := by
  obtain ⟨p, hp, hdate, hday, htime⟩ := exists_tzParts hzone hfirst
  rw [tzOffsetMs, hp, Option.map_some, utcTime_eq hdate (hday ▸ hfirst), hday, htime,
    TimeZone.localDate, zone.reading_eq, TimeZone.offset]
  unfold msPerDay
  congr 1
  omega

/-- A clock that shows a time of a day shows that day or a later one. -/
theorem TimeZone.le_localDate (zone : TimeZone) (date : Int)
    (h : date * msPerDay ≤ reading zone.offset t) : date ≤ zone.localDate t :=
  (Int.le_ediv_iff_mul_le (by decide)).mpr h

/-- A time of the day is one of the 1440. -/
def IsTime (hour minute : Int) : Prop := 0 ≤ hour * 60 + minute ∧ hour * 60 + minute < 1440

instance (hour minute : Int) : Decidable (IsTime hour minute) :=
  inferInstanceAs (Decidable (_ ∧ _))

theorem timeOn_bounds (date : Int) (htime : IsTime hour minute) :
    date * msPerDay ≤ timeOn date hour minute ∧
      timeOn date hour minute < (date + 1) * msPerDay := by
  obtain ⟨hle, hlt⟩ := htime
  unfold timeOn msPerDay
  omega

theorem timeOn_add (days : Int) :
    timeOn (date + days) hour minute = timeOn date hour minute + days * msPerDay := by
  unfold timeOn
  ring

/-- The time on a date is looked for as a guess that is corrected twice. -/
theorem wallClockToUtc_eq {y mo d : Int} (hzone : intl.zone tz = some zone)
    (hdate : IsDate y mo d) (hfirst : daysFromCivil 100 1 1 < daysFromCivil y mo d)
    (htime : IsTime hour minute) :
    wallClockToUtc intl tz y mo d hour minute =
      some (settle zone.offset (timeOn (daysFromCivil y mo d) hour minute)) := by
  have hguess : utcTime y (mo - 1) d hour minute 0 =
      timeOn (daysFromCivil y mo d) hour minute := by
    rw [utcTime_eq hdate hfirst.le, timeOn]
    ring
  generalize daysFromCivil y mo d = date at *
  have hdays := (timeOn_bounds date htime).1
  have hoff₁ := tzOffsetMs_eq (t := timeOn date hour minute) hzone <| by
    -- The clock is not behind by a whole day.
    have hbound := abs_le.mp (zone.steadyOffset.bounded (timeOn date hour minute))
    refine le_trans ?_ (zone.le_localDate (date - 1) ?_)
    · omega
    · rw [sub_mul, reading]
      omega
  have hoff₂ := tzOffsetMs_eq (t := timeOn date hour minute -
      zone.offset (timeOn date hour minute)) hzone <| by
    have hnear : |zone.offset (timeOn date hour minute - zone.offset (timeOn date hour minute)) -
        zone.offset (timeOn date hour minute)| ≤ 3600000 :=
      zone.steadyOffset.near (by simpa using zone.steadyOffset.bounded (timeOn date hour minute))
    rw [abs_le] at hnear
    refine le_trans ?_ (zone.le_localDate (date - 1) ?_)
    · omega
    · rw [sub_mul, reading]
      unfold msPerDay at *
      omega
  rw [wallClockToUtc, hguess, hoff₁]
  simp only [Option.bind_eq_bind, Option.bind_some, hoff₂]
  split
  · rfl
  · rename_i hsame
    rw [settle, of_not_not hsame]
    rfl

/-- What is found for a date is off by a shift of the clock at most. -/
theorem TimeZone.settle_near (zone : TimeZone) (date hour minute : Int) :
    |reading zone.offset (settle zone.offset (timeOn date hour minute)) -
      timeOn date hour minute| ≤ 3600000 :=
  zone.steadyOffset.reading_settle_near (by decide)

theorem TimeZone.le_localDate_roll (zone : TimeZone) (date : Int) (htime : IsTime hour minute) :
    date ≤ zone.localDate (settle zone.offset (timeOn date hour minute) + msPerDay) := by
  have hnear := abs_le.mp (zone.settle_near date hour minute)
  have hdays := (timeOn_bounds date htime).1
  generalize settle zone.offset (timeOn date hour minute) = found at *
  have hshift := abs_le.mp (zone.steadyOffset.small found (found + msPerDay)
    (by unfold msPerDay; omega) le_rfl)
  apply zone.le_localDate date
  unfold reading at *
  unfold msPerDay at *
  omega

theorem nextReset_eq (hzone : intl.zone tz = some zone)
    (hfirst : daysFromCivil 100 1 1 < zone.localDate now) (htime : IsTime hour minute) :
    nextReset intl tz now hour minute =
      let found := settle zone.offset (timeOn (zone.localDate now) hour minute)
      let next := settle zone.offset (timeOn (zone.localDate (found + msPerDay)) hour minute)
      if found ≤ now then if next ≤ now then none else some next else some found := by
  obtain ⟨p, hp, hdate, hday, -⟩ := exists_tzParts hzone hfirst.le
  have hfound := wallClockToUtc_eq hzone hdate (hday ▸ hfirst) htime
  rw [hday] at hfound
  have hroll := zone.le_localDate_roll (zone.localDate now) htime
  obtain ⟨np, hnp, hdate', hday', -⟩ := exists_tzParts hzone (hfirst.le.trans hroll)
  have hnext := wallClockToUtc_eq hzone hdate' (hday' ▸ hfirst.trans_le hroll) htime
  rw [hday'] at hnext
  have hms : (24 * 60 * 60000 : Int) = msPerDay := by decide
  simp only [nextReset, hp, hfound, hms, hnp, hnext, Option.bind_eq_bind, Option.bind_some]
  rfl

/-! ## When it is the next reset -/

/-- What is found is the instant with the offset that is taken. -/
theorem TimeZone.settle_eq (zone : TimeZone) (date hour minute : Int) :
    settle zone.offset (timeOn date hour minute) =
      timeOn date hour minute - zone.taken date hour minute :=
  rfl

theorem TimeZone.shows_settle_iff : zone.Shows t date hour minute ∧
    zone.offset t = zone.taken date hour minute ↔
      zone.Shows t date hour minute ∧ settle zone.offset (timeOn date hour minute) = t := by
  constructor
  · rintro ⟨hshows, htaken⟩
    exact ⟨hshows, settle_eq_of_offset hshows htaken⟩
  · rintro ⟨hshows, rfl⟩
    exact ⟨hshows, offset_of_reading_settle hshows⟩

/-- The clock shows the times of one date before those of a later date. -/
theorem TimeZone.Shows.le_of_lt {date' : Int} {u : Int} (ht : zone.Shows t date hour minute)
    (hu : zone.Shows u date' hour minute) (hlt : date < date') : t ≤ u := by
  apply zone.steadyOffset.le_of_reading (by decide)
  rw [ht, hu]
  unfold timeOn msPerDay
  omega

/-- What is found for a date is a time of no other date. -/
theorem TimeZone.Shows.date_eq {date' : Int}
    (h : zone.Shows (settle zone.offset (timeOn date hour minute)) date' hour minute) :
    date' = date := by
  have hnear := abs_le.mp (zone.settle_near date hour minute)
  rw [h] at hnear
  unfold timeOn msPerDay at hnear
  omega

/-- The next reset is returned just when it is found. -/
theorem nextReset_next_iff (hzone : intl.zone tz = some zone)
    (hfirst : daysFromCivil 100 1 1 < zone.localDate now) (htime : IsTime hour minute) :
    (∃ t, nextReset intl tz now hour minute = some t ∧ NextReset zone now hour minute t) ↔
      MeetsReset zone now hour minute := by
  have hroll := zone.le_localDate_roll (zone.localDate now) htime
  rw [nextReset_eq hzone hfirst htime, MeetsReset]
  dsimp only
  rw [← zone.settle_eq]
  generalize hdate : zone.localDate now = date at *
  generalize hfound : settle zone.offset (timeOn date hour minute) = found at *
  have hover : timeOn date hour minute ≤ now + zone.taken date hour minute ↔ found ≤ now := by
    rw [← hfound, zone.settle_eq]
    exact sub_le_iff_le_add.symm
  rw [hover]
  by_cases hnow : found ≤ now
  · -- The time is over: only the next date is left, if the 24 hours lead there.
    rw [if_pos hnow]
    constructor
    · rintro ⟨t, ht, hnext⟩
      right
      generalize hdate' : zone.localDate (found + msPerDay) = date' at *
      generalize hfound' : settle zone.offset (timeOn date' hour minute) = found' at *
      split at ht
      · cases ht
      · cases ht
        have hshows : zone.Shows t (date + 1) hour minute := by
          obtain hshows | hshows := hnext.shows
          · -- Found on the date of now, it is what was found before.
            have hsame : date = date' := by
              subst hfound'
              exact hdate ▸ hshows.date_eq
            subst hsame
            have hafter := hnext.after
            omega
          · exact hdate ▸ hshows
        have hnextDate : date' = date + 1 := by
          subst hfound'
          exact hshows.date_eq.symm
        rw [hnextDate] at hfound'
        have hearly := hnext.early
        rw [hdate] at hearly
        obtain ⟨-, htaken⟩ := TimeZone.shows_settle_iff.mpr ⟨hshows, hfound'⟩
        exact ⟨hnow, hnextDate, t, hnext.after, hshows, htaken, hearly⟩
    · rintro (⟨t, hafter, hshows⟩ | ⟨-, hnextDate, t, hafter, hshows, htaken, hearly⟩)
      · have heq := (TimeZone.shows_settle_iff.mp hshows).2
        rw [hfound] at heq
        subst heq
        exact absurd hnow (not_le.mpr hafter)
      · have heq := (TimeZone.shows_settle_iff.mp ⟨hshows, htaken⟩).2
        rw [hnextDate, heq, if_neg (not_le.mpr hafter)]
        subst hdate
        exact ⟨t, rfl, hafter, .inr hshows, hearly⟩
  · rw [if_neg hnow]
    constructor
    · rintro ⟨_, ⟨⟩, hnext⟩
      have hshows : zone.Shows found date hour minute := by
        obtain hshows | hshows := hnext.shows
        · exact hdate ▸ hshows
        · subst hfound
          have hne := hshows.date_eq
          omega
      left
      exact ⟨found, hnext.after, TimeZone.shows_settle_iff.mpr ⟨hshows, hfound⟩⟩
    · rintro (⟨t, hafter, hshows⟩ | ⟨hle, -⟩)
      · obtain ⟨hshows, heq⟩ := TimeZone.shows_settle_iff.mp hshows
        rw [hfound] at heq
        subst heq
        refine ⟨found, rfl, hafter, .inl (hdate ▸ hshows), ?_⟩
        intro u _ hu
        exact hshows.le_of_lt hu (by omega)
      · exact absurd hle hnow

/-- The clock is not shifted within three days of now. -/
def TimeZone.Fixed (zone : TimeZone) (now : Int) : Prop :=
  ∀ k, -3 * msPerDay ≤ k → k ≤ 3 * msPerDay → zone.offset (now + k) = zone.offset now

theorem TimeZone.Fixed.offset_eq (h : zone.Fixed now) (k : Int) (hk : -3 * msPerDay ≤ k)
    (hk' : k ≤ 3 * msPerDay) (ht : t = now + k) : zone.offset t = zone.offset now :=
  ht ▸ h k hk hk'

/-- With a fixed offset, the time on a date is shown where it is looked for. -/
theorem TimeZone.Fixed.taken (h : zone.Fixed now) {k : Int}
    (hk : timeOn date hour minute = now + zone.offset now + k)
    (hlow : -2 * msPerDay ≤ k) (hhigh : k ≤ 2 * msPerDay) :
    zone.taken date hour minute = zone.offset now ∧
      zone.Shows (now + k) date hour minute ∧ zone.offset (now + k) = zone.offset now := by
  have hbound := abs_le.mp (zone.steadyOffset.bounded now)
  have hguess : zone.offset (timeOn date hour minute) = zone.offset now :=
    h.offset_eq (zone.offset now + k) (by omega) (by omega) (by rw [hk, add_assoc])
  have hfound : zone.offset (now + k) = zone.offset now := h k (by omega) (by omega)
  have heq : timeOn date hour minute - zone.offset now = now + k := by
    rw [hk]
    omega
  refine ⟨?_, ?_, hfound⟩
  · rw [TimeZone.taken, hguess, heq, hfound]
  · rw [TimeZone.Shows, reading, hfound, hk]
    omega

/-- A clock that is not shifted in these days meets the condition. -/
theorem TimeZone.Fixed.meetsReset (h : zone.Fixed now) (htime : IsTime hour minute) :
    MeetsReset zone now hour minute := by
  obtain ⟨k, hk⟩ : ∃ k, timeOn (zone.localDate now) hour minute = now + zone.offset now + k :=
    ⟨timeOn (zone.localDate now) hour minute - (now + zone.offset now), by omega⟩
  have hdays : zone.localDate now * msPerDay ≤ now + zone.offset now ∧
      now + zone.offset now < (zone.localDate now + 1) * msPerDay := by
    show zone.localDate now * msPerDay ≤ reading zone.offset now ∧
      reading zone.offset now < (zone.localDate now + 1) * msPerDay
    unfold TimeZone.localDate msPerDay
    omega
  have hlow := (timeOn_bounds (zone.localDate now) htime).1
  have hhigh := (timeOn_bounds (zone.localDate now) htime).2
  have hnext : timeOn (zone.localDate now + 1) hour minute =
      now + zone.offset now + (k + msPerDay) := by
    rw [timeOn_add, hk]
    omega
  unfold MeetsReset
  generalize zone.localDate now = date at *
  dsimp only
  have hk₀ : -msPerDay < k := by
    unfold msPerDay at *
    omega
  have hk₁ : k < msPerDay := by
    unfold msPerDay at *
    omega
  obtain ⟨htaken, hshows, hoffset⟩ := h.taken hk (by omega) (by omega)
  obtain ⟨htaken', hshows', hoffset'⟩ := h.taken hnext (by omega) (by omega)
  rw [htaken, htaken']
  by_cases hnow : 0 < k
  · exact .inl ⟨now + k, by omega, hshows, hoffset⟩
  · right
    refine ⟨by omega, ?_, now + (k + msPerDay), by omega, hshows', hoffset', ?_⟩
    · have heq : timeOn date hour minute - zone.offset now + msPerDay = now + (k + msPerDay) := by
        omega
      rw [TimeZone.localDate, heq, reading, hoffset']
      unfold msPerDay at *
      omega
    · intro u hafter hu
      by_contra hlt
      -- Before that time the clock has the fixed offset, too.
      have hu' : zone.offset u = zone.offset now :=
        h.offset_eq (u - now) (by omega) (by omega) (by omega)
      rw [TimeZone.Shows, reading, hu'] at hu
      omega

/-! ## The phrase -/

theorem ResetMatch.isTime {m : ResetMatch} (h : m.time = some (hour, minute)) :
    IsTime hour minute := by
  unfold ResetMatch.time at h
  dsimp only at h
  unfold IsTime
  split at h
  · cases h
  · split at h
    · simp only [Option.some.injEq, Prod.mk.injEq] at h
      obtain ⟨rfl, rfl⟩ := h
      split <;> omega
    · simp only [Option.some.injEq, Prod.mk.injEq] at h
      obtain ⟨rfl, rfl⟩ := h
      split <;> omega

theorem execReset_space {s : List Char} (h : ∀ c ∈ s, isJsSpace c = true) :
    execReset s = none := by
  induction s with
  | nil => rfl
  | cons c s ih =>
    have hc : c.toLower ≠ 'r' := by
      have hspace := h c List.mem_cons_self
      rw [toLower_of_isJsSpace hspace]
      rintro rfl
      cases hspace
    have hmatch : matchReset (c :: s) = none := by
      unfold matchReset dropWord
      rw [if_neg]
      · rfl
      · simp [hc]
    rw [execReset, hmatch, Option.none_or]
    exact ih fun c' hc' => h c' (List.mem_cons_of_mem c hc')

theorem trimText_ne {text : String} {m : ResetMatch} (h : execReset text.toList = some m) :
    trimText text ≠ "" := by
  intro hempty
  rw [execReset_space (isJsSpace_of_trimText hempty)] at h
  cases h

/-- For a phrase with a time, in a zone that is known: where there is a next reset, it is returned
    just when the condition holds. `Date.UTC` reads the years before the hundredth as others. -/
theorem parseHarnessResetTime_next_iff {text : String} {m : ResetMatch}
    (hmatch : execReset text.toList = some m) (htime : m.time = some (hour, minute))
    (hzone : intl.zone (m.tz intl) = some zone)
    (hfirst : daysFromCivil 100 1 1 < zone.localDate now) :
    (HasReset zone now hour minute → ∃ p, parseHarnessResetTime intl (some text) now = some p ∧
        NextReset zone now hour minute p.resetAtMs) ↔
      (HasReset zone now hour minute → MeetsReset zone now hour minute) := by
  have hnext := nextReset_next_iff hzone hfirst (ResetMatch.isTime htime)
  have hparse : parseHarnessResetTime intl (some text) now =
      (nextReset intl (m.tz intl) now hour minute).map fun t =>
        let label := trimText (String.ofList m.label)
        { resetLabel := if label = "" then "session reset" else label, resetAtMs := t } := by
    unfold parseHarnessResetTime
    simp only [Option.getD_some, trimText_ne hmatch, if_false, hmatch, htime,
      Option.bind_eq_bind, Option.bind_some]
    cases nextReset intl (m.tz intl) now hour minute <;> rfl
  apply forall_congr'
  intro _
  rw [← hnext, hparse]
  constructor
  · rintro ⟨p, hp, hreset⟩
    obtain ⟨t, ht, rfl⟩ := Option.map_eq_some_iff.mp hp
    exact ⟨t, ht, hreset⟩
  · rintro ⟨t, ht, hreset⟩
    exact ⟨_, Option.map_eq_some_iff.mpr ⟨t, ht, rfl⟩, hreset⟩

/-- Seoul has one offset. -/
def seoul : TimeZone where
  offsetSeconds _ := 32400
  steady := by
    constructor
    · intro t
      decide
    · intro s t _ _
      simp
    · intro s t u _ _ _
      exact .inl rfl

/-- Berlin, at the end of the summer time of 2026. -/
def berlin : TimeZone where
  offsetSeconds t := if t < Date.utc 2026 9 25 + 3600000 then 7200 else 3600
  steady := by
    constructor
    · intro t
      split <;> decide
    · intro s t _ _
      split <;> split <;> decide
    · intro s t u hst htu _
      by_cases ht : t < Date.utc 2026 9 25 + 3600000
      · exact .inl (by rw [if_pos (hst.trans_lt ht), if_pos ht])
      · exact .inr (by rw [if_neg ht, if_neg (not_lt.mpr ((not_lt.mp ht).trans htu))])

def zones : Intl where
  zone tz :=
    if tz = "Asia/Seoul" then some seoul
    else if tz = "Europe/Berlin" then some berlin
    else none
  localTimeZone := "Asia/Seoul"

/-- Late in the evening, half past midnight is half an hour of the coming day. -/
theorem parseHarnessResetTime_next_seoul :
    ∃ p, parseHarnessResetTime zones (some "limit reached, resets 12:30am (Asia/Seoul)")
        (Date.utc 2026 6 6 + 50400000) = some p ∧
      NextReset seoul (Date.utc 2026 6 6 + 50400000) 0 30 p.resetAtMs := by
  have hmatch : execReset "limit reached, resets 12:30am (Asia/Seoul)".toList =
      some ⟨"12:30am (Asia/Seoul)".toList, 12, some 30, false, some "Asia/Seoul".toList⟩ := by
    decide +kernel
  have hfixed : seoul.Fixed (Date.utc 2026 6 6 + 50400000) := fun _ _ _ => rfl
  have hname : ResetMatch.tz ⟨"12:30am (Asia/Seoul)".toList, 12, some 30, false,
      some "Asia/Seoul".toList⟩ zones = "Asia/Seoul" := by
    decide +kernel
  have hzone : zones.zone "Asia/Seoul" = some seoul := rfl
  rw [← hname] at hzone
  apply (parseHarnessResetTime_next_iff hmatch (by decide) hzone (by decide +kernel)).mpr
  · exact fun _ => hfixed.meetsReset (by decide)
  · exact ⟨Date.utc 2026 6 6 + 55800000, by decide +kernel, .inr (by decide +kernel)⟩

/-- In the night of the shift, a quarter past midnight is over at half past. The 24 hours lead to
    the same date, 25 hours long, and nothing is found. -/
theorem parseHarnessResetTime_autumn :
    HasReset berlin (Date.utc 2026 9 24 + 81000000) 0 15 ∧
      parseHarnessResetTime zones (some "limit reached, resets 12:15am (Europe/Berlin)")
        (Date.utc 2026 9 24 + 81000000) = none := by
  constructor
  · exact ⟨Date.utc 2026 9 25 + 83700000, by decide +kernel, .inr (by decide +kernel)⟩
  · decide +kernel

end WorkflowBoard.AgentManager
