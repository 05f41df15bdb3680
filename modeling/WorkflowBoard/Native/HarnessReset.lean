import WorkflowBoard.ForStd.LocalTime
import WorkflowBoard.Native.JsDate
import WorkflowBoard.Native.JsString

/-!
# The reset time of a session limit (`agent-manager/src/lib/session-limit-defer.ts`)

`parseHarnessResetTime` finds a phrase such as `resets 12:30am (Asia/Seoul)` in the output of a
session that has ended, and computes the next instant at which the clock of that zone shows this
time. The time zones are those of `Intl`; an instant is any integer, so the two ends of the range of
`Date`, where `Date.UTC` gives `NaN`, are not modelled.
-/

namespace WorkflowBoard.AgentManager

/-! ## The phrase -/

/-- What `RESET_RE` captures, with the label: the match without its leading `resets at`. -/
structure ResetMatch where
  label : List Char
  hour : Nat
  minute : Option Nat
  pm : Bool
  zone : Option (List Char)
deriving DecidableEq

def digitValue (c : Char) : Nat := c.toNat - '0'.toNat

/-- The word at the start, in capitals or not. -/
def dropWord (word : List Char) (s : List Char) : Option (List Char) :=
  if (s.take word.length).map Char.toLower = word then some (s.drop word.length) else none

/-- The letter at the start, if it is there. -/
def dropLetter (letter : Char) : List Char → List Char
  | [] => []
  | c :: s => if c.toLower = letter then s else c :: s

/-- `\s+`. -/
def dropSpaces : List Char → Option (List Char)
  | [] => none
  | c :: s => if isJsSpace c then some (s.dropWhile isJsSpace) else none

/-- `\d{1,2}`, as a number. -/
def takeHour : List Char → Option (Nat × List Char)
  | [] => none
  | [c] => if c.isDigit then some (digitValue c, []) else none
  | c :: d :: s =>
    if c.isDigit then
      if d.isDigit then some (10 * digitValue c + digitValue d, s) else some (digitValue c, d :: s)
    else none

/-- `(?::(\d{2}))?`. -/
def takeMinute : List Char → Option Nat × List Char
  | ':' :: c :: d :: s =>
    if c.isDigit && d.isDigit then (some (10 * digitValue c + digitValue d), s)
    else (none, ':' :: c :: d :: s)
  | s => (none, s)

/-- `[ap]`: is it `p`? -/
def takeMeridiem : List Char → Option (Bool × List Char)
  | [] => none
  | c :: s =>
    if c.toLower = 'a' then some (false, s) else if c.toLower = 'p' then some (true, s) else none

/-- `(?:\(([^)]+)\))?`. -/
def takeZone (s : List Char) : Option (List Char) × List Char :=
  match s with
  | '(' :: s' =>
    let name := s'.takeWhile (· ≠ ')')
    let rest := s'.dropWhile (· ≠ ')')
    if name = [] ∨ rest = [] then (none, s) else (some name, rest.drop 1)
  | _ => (none, s)

/-- `RESET_RE` at this place. No part of the pattern can give back what it has taken, so none is
    tried again. -/
def matchReset (s : List Char) : Option ResetMatch := do
  let s ← dropWord "reset".toList s
  let s ← dropSpaces (dropLetter 's' s)
  let s := ((dropWord "at".toList s).bind dropSpaces).getD s
  let start := s
  let (hour, s) ← takeHour s
  let (minute, s) := takeMinute s
  let (pm, s) ← takeMeridiem (s.dropWhile isJsSpace)
  let s ← dropWord ['m'] ((dropLetter '.' s).dropWhile isJsSpace)
  let (zone, s) := takeZone ((dropLetter '.' s).dropWhile isJsSpace)
  return { label := start.take (start.length - s.length), hour, minute, pm, zone }

/-- `RESET_RE.exec`: the first place where the pattern matches. -/
def execReset : List Char → Option ResetMatch
  | [] => none
  | c :: s => (matchReset (c :: s)).or (execReset s)

/-! ## Time zones -/

/-- A time zone: by how many seconds its clock is ahead of UTC at an instant. It is never ahead or
    behind by a day; within a day it changes at most once, and by at most an hour. -/
structure TimeZone where
  offsetSeconds : Date → Int
  steady : SteadyOffset Date.msPerDay 3600000 fun t => 1000 * offsetSeconds t

/-- The zones that `Intl` knows, and the one of the runtime. -/
structure Intl where
  zone : String → Option TimeZone
  localTimeZone : String

structure TzParts where
  y : Int
  mo : Int
  d : Int
  h : Int
  mi : Int
  s : Int

/-- Years before the first are shown without their era. -/
def tzParts (intl : Intl) (tz : String) (at_ : Date) : Option TzParts :=
  (intl.zone tz).map fun zone =>
    let clock := at_ + 1000 * zone.offsetSeconds at_
    let date := Date.civilFromDays (clock / Date.msPerDay)
    let seconds := clock % Date.msPerDay / 1000
    { y := if date.1 ≤ 0 then 1 - date.1 else date.1
      mo := date.2.1
      d := date.2.2
      h := seconds / 3600
      mi := seconds / 60 % 60
      s := seconds % 60 }

/-- `Date.UTC` with the time of the day. -/
def utcTime (y mo d h mi s : Int) : Date := Date.utc y mo d + ((h * 60 + mi) * 60 + s) * 1000

def tzOffsetMs (intl : Intl) (tz : String) (at_ : Date) : Option Int :=
  (tzParts intl tz at_).map fun p =>
    utcTime p.y (p.mo - 1) p.d p.h p.mi p.s - at_ / 1000 * 1000

def wallClockToUtc (intl : Intl) (tz : String) (y mo d h mi : Int) : Option Date := do
  let guess := utcTime y (mo - 1) d h mi 0
  let off1 ← tzOffsetMs intl tz guess
  let utc := guess - off1
  match tzOffsetMs intl tz utc with
  | none => return utc
  | some off2 => if off2 ≠ off1 then return guess - off2 else return utc

/-! ## The next reset -/

structure HarnessResetParse where
  resetLabel : String
  resetAtMs : Date

/-- The hour and minute of the 24-hour clock: 12am is 0, 12pm is 12. -/
def ResetMatch.time (m : ResetMatch) : Option (Int × Int) :=
  let minute := m.minute.getD 0
  if m.hour < 1 ∨ 12 < m.hour ∨ 59 < minute then none
  else if m.pm then some (if m.hour = 12 then 12 else m.hour + 12, minute)
  else some (if m.hour = 12 then 0 else m.hour, minute)

/-- The zone of the phrase, or else that of the runtime. -/
def ResetMatch.tz (m : ResetMatch) (intl : Intl) : String :=
  let name := trimText (String.ofList (m.zone.getD []))
  if name = "" then intl.localTimeZone else name

/-- The instant: the time on the local date of now, or on the local date a day behind it. -/
def nextReset (intl : Intl) (tz : String) (now : Date) (hour minute : Int) : Option Date := do
  let nowParts ← tzParts intl tz now
  let resetAtMs ← wallClockToUtc intl tz nowParts.y nowParts.mo nowParts.d hour minute
  if resetAtMs ≤ now then
    let np ← tzParts intl tz (resetAtMs + 24 * 60 * 60000)
    let resetAtMs ← wallClockToUtc intl tz np.y np.mo np.d hour minute
    if resetAtMs ≤ now then none else return resetAtMs
  else return resetAtMs

def parseHarnessResetTime (intl : Intl) (text : Option String) (now : Date) :
    Option HarnessResetParse := do
  let s := text.getD ""
  if trimText s = "" then none
  else
    let m ← execReset s.toList
    let (hour, minute) ← m.time
    let resetAtMs ← nextReset intl (m.tz intl) now hour minute
    let label := trimText (String.ofList m.label)
    return { resetLabel := if label = "" then "session reset" else label, resetAtMs }

end WorkflowBoard.AgentManager
