import WorkflowBoard.ForStd.Except
import WorkflowBoard.Native.JsDate
import WorkflowBoard.Native.JsString

/-!
# Cron expressions (`modules/qa/qa-cron.ts`)

Five fields in UTC: minute, hour, day of the month, month and day of the week. The next
firing is found by walking the minutes after an instant, up to a bound.
-/

namespace WorkflowBoard.Qa

/-- The fields as sets of values. -/
structure CronFields where
  minute : List Int
  hour : List Int
  dom : List Int
  month : List Int
  dow : List Int
  domRestricted : Bool
  dowRestricted : Bool
deriving DecidableEq

/-- `MAX_MINUTES_LOOKAHEAD`, about five years. -/
def maxMinutesLookahead : Nat := 5 * 366 * 24 * 60

/-- From here on a number rounds to `Infinity`. -/
def overflow : Nat := 2 ^ 1024 - 2 ^ 970

/-- The number that decimal digits write. -/
def decimal (ds : List Char) : Nat := ds.foldl (fun n c => n * 10 + (c.toNat - '0'.toNat)) 0

/-- `Number.parseInt(s, 10)`: the leading digits after white space and a sign; `none` for what is
    not an integer, `NaN` and the infinities. -/
def parseInt (cs : List Char) : Option Int :=
  match cs.dropWhile isJsSpace with
  | '-' :: cs => (digits cs).map fun n => -(n : Int)
  | '+' :: cs => (digits cs).map Int.ofNat
  | cs => (digits cs).map Int.ofNat
where
  digits (cs : List Char) : Option Nat :=
    let ds := cs.takeWhile Char.isDigit
    if ds = [] ∨ overflow ≤ decimal ds then none else some (decimal ds)

/-- The values `lo`, `lo + step`, … up to `hi`. -/
def stepRange (lo hi : Int) (step : Int) : List Int :=
  (List.range ((hi - lo) / step + 1).toNat).map fun (i : Nat) => lo + step * i

/-- The bounds of a segment without its step. -/
def segmentBounds (part stepBase : List Char) (min max : Int) : Except String (Int × Int) :=
  let text := String.ofList part
  if stepBase = ['*'] ∨ stepBase = [] then .ok (min, max)
  else if '-' ∈ stepBase then do
    let bounds := stepBase.splitOn '-'
    let lo ← orThrow (parseInt (bounds.getD 0 [])) s!"bad range in cron field \"{text}\""
    let hi ← orThrow (parseInt (bounds.getD 1 [])) s!"bad range in cron field \"{text}\""
    return (lo, hi)
  else do
    let v ← orThrow (parseInt stepBase) s!"bad value in cron field \"{text}\""
    return (v, v)

/-- One segment of a comma list: `*`, a value or a range, with an optional step. -/
def parseSegment (raw : String) (min max : Int) (part : List Char) : Except String (List Int) := do
  let text := String.ofList part
  require (part ≠ []) s!"empty cron field segment in \"{raw}\""
  let stepBase := part.takeWhile (· ≠ '/')
  let step ←
    if '/' ∈ part then
      orThrow ((parseInt (part.drop (stepBase.length + 1))).filter (0 < ·))
        s!"bad step in cron field \"{text}\""
    else .ok 1
  let (lo, hi) ← segmentBounds part stepBase min max
  require (min ≤ lo && hi ≤ max && lo ≤ hi) s!"cron field \"{text}\" out of range {min}-{max}"
  return stepRange lo hi step

def parseField (raw : List Char) (min max : Int) : Except String (List Int) := do
  let text := String.ofList raw
  let parts ← (raw.splitOn ',').mapM fun part =>
    parseSegment text min max (jsTrim (String.ofList part))
  require (parts.flatten ≠ []) s!"cron field \"{text}\" matched no values"
  return parts.flatten

/-- The words of an expression: `expr.trim().split(/\s+/)`. -/
def cronWords (expr : String) : List (List Char) :=
  match jsTrim expr with
  | [] => [[]]
  | cs => (cs.splitOnP isJsSpace).filter (· ≠ [])

def parseCron (expr : String) : Except String CronFields :=
  match cronWords expr with
  | [m, h, dom, mon, dow] => do
    return {
      minute := ← parseField m 0 59
      hour := ← parseField h 0 23
      dom := ← parseField dom 1 31
      month := ← parseField mon 1 12
      dow := ← parseField dow 0 6
      domRestricted := dom ≠ ['*']
      dowRestricted := dow ≠ ['*'] }
  | fields =>
    let n := fields.length
    .error s!"cron must have exactly 5 fields (got {n}): \"{expr}\""

def isValidCron (expr : String) : Bool := (parseCron expr).toOption.isSome

/-- Does the minute of `d` match? When both days are restricted either may match. The fields of an
    invalid date are in no set. -/
def cronMatches (f : CronFields) (d : Date) : Bool :=
  let domOk := d.getUTCDate ∈ f.dom
  let dowOk := d.getUTCDay ∈ f.dow
  d.isValid && d / 60000 % 60 ∈ f.minute && d / 3600000 % 24 ∈ f.hour &&
    d.getUTCMonth + 1 ∈ f.month &&
    (if f.domRestricted ∧ f.dowRestricted then domOk ∨ dowOk
     else if f.domRestricted then domOk
     else if f.dowRestricted then dowOk
     else true)

/-- The first matching minute of those from `cursor` on, at most `n` of them. -/
def firstMatch (f : CronFields) : Nat → Date → Option Date
  | 0, _ => none
  | n + 1, cursor => if cronMatches f cursor then some cursor else firstMatch f n (cursor + 60000)

/-- The next firing strictly after `start`; `none` for an expression that does not fire. -/
def nextCronAfter (expr : String) (start : Date) : Except String (Option Date) := do
  let f ← parseCron expr
  return firstMatch f maxMinutesLookahead (start / 60000 * 60000 + 60000)

theorem le_of_firstMatch {f : CronFields} {n : Nat} {cursor d : Int}
    (h : firstMatch f n cursor = some d) : cursor ≤ d := by
  induction n generalizing cursor with
  | zero => cases h
  | succ n ih =>
    unfold firstMatch at h
    split at h
    · exact Int.le_of_eq (Option.some.inj h)
    · have hle := ih h
      omega

/-- A firing is later than the instant it is computed from. -/
theorem lt_of_nextCronAfter {expr : String} {start d : Int}
    (h : nextCronAfter expr start = .ok (some d)) : start < d := by
  simp only [nextCronAfter, bind_eq_ok, pure_eq_ok] at h
  obtain ⟨f, -, hfirst⟩ := h
  have hle := le_of_firstMatch hfirst
  omega

end WorkflowBoard.Qa
