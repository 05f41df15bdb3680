import WorkflowBoard.Native.Money

/-!
# Budget arithmetic (`common/marketing/budget.ts`)

No balance is stored: the state of a campaign's money is the sum of the rows of an
append-only ledger, `held = Σ reserve - Σ release` and `spent = Σ capture - Σ refund`.
A row keeps the period key of the approval it belongs to. The same function,
`spendViolations`, decides at request time and at approval time whether an amount
fits under the total, period, channel and transaction limits.

The loops of `usageOf` and `requestTotals` differ only in the rows they keep, so
both are `totalsOf` with a filter.
-/

namespace WorkflowBoard.Marketing

/-- Row ids are opaque; the server only compares them. -/
abbrev Uuid := Nat

inductive LedgerKind where
  | reserve
  | release
  | capture
  | refund

def LedgerKind.text : LedgerKind → String
  | .reserve => "reserve"
  | .release => "release"
  | .capture => "capture"
  | .refund => "refund"

inductive BudgetPeriod where
  | none
  | week
  | month
deriving DecidableEq

def BudgetPeriod.text : BudgetPeriod → String
  | .none => "none"
  | .week => "week"
  | .month => "month"

inductive ActorType where
  | user
  | agent
  | system
deriving DecidableEq

/-- Who acts: a signed-in person, an agent or the server itself. -/
structure MarketingActor where
  type : ActorType
  id : String
  name : String

def systemMarketingActor : MarketingActor := ⟨.system, "system", "Marketing"⟩

/-- Where the text of a ledger row's note comes from. The note names the
    transaction or the return operation that wrote the row. -/
inductive LedgerNote where
  | approved
  | cancelledBeforeSending
  | convertedToCapture
  | paymentFailed
  | paid
  | txn (providerRef : String)
  | refund (note ref : String)
  | returned (note : String) (operation : Uuid)

/-- The stored text, before the column's 2000-character cut. -/
def LedgerNote.text : LedgerNote → String
  | .approved => "approved"
  | .cancelledBeforeSending => "cancelled before sending"
  | .convertedToCapture => "converted to capture"
  | .paymentFailed => "payment failed"
  | .paid => "paid"
  | .txn ref => s!"txn {ref}"
  | .refund note ref => if ref = "" then note else s!"{note} (ref {ref})"
  | .returned note op => s!"{note} (return {op})"

/-- A row of `marketing_ledger_entries`. -/
structure LedgerEntry where
  account_id : String
  campaign_id : Uuid
  channel_id : Uuid
  spend_request_id : Uuid
  kind : LedgerKind
  amount_minor : Nat
  currency : String
  period_key : String
  actor : MarketingActor
  note : LedgerNote

/-- The limits of a campaign. -/
structure BudgetCaps where
  currency : String
  budget_total_minor : Nat
  budget_period : BudgetPeriod
  budget_period_minor : Nat
  max_transaction_minor : Nat
deriving DecidableEq

structure Usage where
  held : Int
  spent : Int

/-! ## Period keys -/

/-- ISO year and week of a UTC date. -/
def isoWeek (date : Date) : Int × Int :=
  let d := Date.utc date.getUTCFullYear date.getUTCMonth date.getUTCDate
  let day := if d.getUTCDay = 0 then 7 else d.getUTCDay
  let d := d.setUTCDate (d.getUTCDate + 4 - day)
  let yearStart := Date.utc d.getUTCFullYear 0 1
  -- `Math.ceil(n / 7)` of an integer `n`
  let week := ((d - yearStart) / Date.msPerDay + 1 + 6) / 7
  (d.getUTCFullYear, week)

/-- UTC period key: `2026-10` for a month, `2026-W43` for an ISO week, else `all`. -/
def periodKey (period : BudgetPeriod) (at_ : Date) : String :=
  match period with
  | .month => toString at_.getUTCFullYear ++ "-" ++ padStart (toString (at_.getUTCMonth + 1)) 2
  | .week =>
    let (year, week) := isoWeek at_
    toString year ++ "-W" ++ padStart (toString week) 2
  | .none => "all"

/-- `new Date(time)`, of an invalid date `none`. -/
def newDate (time : Int) : Option Date := if Date.isValid time then some time else none

/-- The bounds of a period: `[start, stop)`. -/
structure PeriodBounds where
  start : Option Date
  stop : Option Date
deriving DecidableEq

def periodBounds (period : BudgetPeriod) (at_ : Date) : Option PeriodBounds :=
  match period with
  | .month => some {
      start := newDate (Date.utc at_.getUTCFullYear at_.getUTCMonth 1)
      stop := newDate (Date.utc at_.getUTCFullYear (at_.getUTCMonth + 1) 1) }
  | .week =>
    -- Monday is 0.
    let day := (at_.getUTCDay + 6) % 7
    let start := newDate (Date.utc at_.getUTCFullYear at_.getUTCMonth (at_.getUTCDate - day))
    some { start, stop := start.bind fun start => newDate (start + 7 * 24 * 60 * 60000) }
  | .none => none

/-! ## Sums over the ledger -/

/-- Sums by kind. -/
structure Totals where
  reserve : Nat
  release : Nat
  capture : Nat
  refund : Nat

namespace Totals

def zero : Totals := ⟨0, 0, 0, 0⟩

/-- `t[kind] += amount`. -/
def bump (t : Totals) (kind : LedgerKind) (amount : Nat) : Totals :=
  match kind with
  | .reserve => { t with reserve := t.reserve + amount }
  | .release => { t with release := t.release + amount }
  | .capture => { t with capture := t.capture + amount }
  | .refund => { t with refund := t.refund + amount }

instance : Add Totals :=
  ⟨fun a b => ⟨a.reserve + b.reserve, a.release + b.release, a.capture + b.capture,
    a.refund + b.refund⟩⟩

@[simp] theorem add_reserve (a b : Totals) : (a + b).reserve = a.reserve + b.reserve := rfl
@[simp] theorem add_release (a b : Totals) : (a + b).release = a.release + b.release := rfl
@[simp] theorem add_capture (a b : Totals) : (a + b).capture = a.capture + b.capture := rfl
@[simp] theorem add_refund (a b : Totals) : (a + b).refund = a.refund + b.refund := rfl

@[ext] theorem ext {a b : Totals} (h1 : a.reserve = b.reserve) (h2 : a.release = b.release)
    (h3 : a.capture = b.capture) (h4 : a.refund = b.refund) : a = b := by
  cases a; cases b; simp_all

@[simp] theorem add_zero (a : Totals) : a + zero = a := rfl

@[simp] theorem zero_add (a : Totals) : zero + a = a := by
  ext <;> simp [zero]

end Totals

/-- One row of a sum: skipped unless the filter keeps it. -/
def addRow (filter : LedgerEntry → Bool) (t : Totals) (row : LedgerEntry) : Totals :=
  if filter row then t.bump row.kind row.amount_minor else t

/-- The sums by kind of the rows the filter keeps. -/
def totalsOf (rows : List LedgerEntry) (filter : LedgerEntry → Bool) : Totals :=
  rows.foldl (addRow filter) Totals.zero

def usageOf (rows : List LedgerEntry) (filter : LedgerEntry → Bool) : Usage :=
  let t := totalsOf rows filter
  { held := t.reserve - t.release, spent := t.capture - t.refund }

def requestTotals (rows : List LedgerEntry) (spendRequestId : Uuid) : Totals :=
  totalsOf rows fun row => row.spend_request_id == spendRequestId

/-- A sum over an appended list is the sum of the two sums. -/
theorem totalsOf_append (rows more : List LedgerEntry) (filter : LedgerEntry → Bool) :
    totalsOf (rows ++ more) filter = totalsOf rows filter + totalsOf more filter := by
  -- Generalise the start of the fold over the second list.
  suffices ∀ t, more.foldl (addRow filter) t = t + more.foldl (addRow filter) Totals.zero by
    simp only [totalsOf, List.foldl_append]
    exact this _
  induction more with
  | nil => intro t; simp
  | cons row rest ih =>
    intro t
    rw [List.foldl_cons, List.foldl_cons, ih (addRow filter t row),
      ih (addRow filter Totals.zero row)]
    unfold addRow
    split
    · cases row.kind <;> ext <;> simp [Totals.bump, Totals.zero, Nat.add_assoc]
    · simp

theorem totalsOf_cons (row : LedgerEntry) (rows : List LedgerEntry) (filter : LedgerEntry → Bool) :
    totalsOf (row :: rows) filter = totalsOf [row] filter + totalsOf rows filter :=
  totalsOf_append [row] rows filter

@[simp] theorem totalsOf_singleton (row : LedgerEntry) (filter : LedgerEntry → Bool) :
    totalsOf [row] filter = addRow filter Totals.zero row := rfl

variable {rows : List LedgerEntry}

theorem totalsOf_eq_zero {filter : LedgerEntry → Bool}
    (h : ∀ row ∈ rows, filter row = false) : totalsOf rows filter = Totals.zero := by
  induction rows with
  | nil => rfl
  | cons row rest ih =>
    rw [totalsOf_cons, ih fun r hr => h r (List.mem_cons_of_mem _ hr), totalsOf_singleton,
      addRow, h row List.mem_cons_self]
    rfl

/-- Filters that agree on the rows give the same sums. -/
theorem totalsOf_congr {f g : LedgerEntry → Bool}
    (h : ∀ row ∈ rows, f row = g row) : totalsOf rows f = totalsOf rows g := by
  induction rows with
  | nil => rfl
  | cons row rest ih =>
    rw [totalsOf_cons, totalsOf_cons row rest g, ih fun r hr => h r (List.mem_cons_of_mem _ hr)]
    simp only [totalsOf_singleton, addRow, h row List.mem_cons_self]

/-- Summing the rows of a sub-table is summing with both filters. -/
theorem totalsOf_filter (rows : List LedgerEntry) (p f : LedgerEntry → Bool) :
    totalsOf (rows.filter p) f = totalsOf rows fun row => p row && f row := by
  induction rows with
  | nil => rfl
  | cons row rest ih =>
    rw [totalsOf_cons row rest, ← ih, List.filter_cons]
    cases hp : p row with
    | true =>
      rw [if_pos rfl, totalsOf_cons]
      simp [addRow, hp]
    | false => simp [addRow, hp]

/-! ## Snapshot and limits -/

structure TotalUsage extends Usage where
  cap : Nat
  available : Int

structure PeriodUsage extends Usage where
  cap : Option Nat
  available : Option Int

structure ChannelUsage extends Usage where
  allocation : Option Nat
  available : Option Int

structure BudgetSnapshot where
  period_key : String
  total : TotalUsage
  period : PeriodUsage
  channel : Option ChannelUsage

/-- The campaign has a period limit: a period other than none and a positive amount. -/
def BudgetCaps.hasPeriodCap (caps : BudgetCaps) : Bool :=
  caps.budget_period ≠ .none && caps.budget_period_minor > 0

/-- The rows of a period. -/
def inPeriod (key : String) (row : LedgerEntry) : Bool := row.period_key == key

/-- The rows of a channel in a period. -/
def inChannelPeriod (channel : Uuid) (key : String) (row : LedgerEntry) : Bool :=
  row.channel_id == channel && row.period_key == key

/-- The budget state of a campaign now; with a channel also that channel's usage in
    the current period against its allocation. -/
def budgetSnapshot (caps : BudgetCaps) (rows : List LedgerEntry) (now : Date)
    (channel : Option (Uuid × Option Nat)) : BudgetSnapshot :=
  let key := periodKey caps.budget_period now
  let total := usageOf rows fun _ => true
  let period := usageOf rows (inPeriod key)
  { period_key := key
    total :=
      { total with
        cap := caps.budget_total_minor
        available := max 0 (caps.budget_total_minor - total.held - total.spent) }
    period :=
      { period with
        cap := if caps.hasPeriodCap then some caps.budget_period_minor else none
        available := if caps.hasPeriodCap then
          some (max 0 (caps.budget_period_minor - period.held - period.spent)) else none }
    channel := channel.map fun (id, allocation) =>
      let used := usageOf rows (inChannelPeriod id key)
      { used with
        allocation := allocation
        available := allocation.map fun a : Nat => max 0 ((a : Int) - used.held - used.spent) } }

/-- `if (cond) out.push(text)`. -/
def pushIf (cond : Prop) [Decidable cond] (text : String) : List String :=
  if cond then [text] else []

@[simp] theorem pushIf_eq_nil {cond : Prop} [Decidable cond] {text : String} :
    pushIf cond text = [] ↔ ¬ cond := by
  simp [pushIf]

/-- Why an amount may not be spent now; empty when it may. -/
def spendViolations (caps : BudgetCaps) (rows : List LedgerEntry) (now : Date)
    (amount : Nat) (currency : String) (channelId : Uuid) (allocation : Option Nat) :
    List String :=
  let fmt := fun n : Int => formatMinorAmount n caps.currency
  let snap := budgetSnapshot caps rows now (some (channelId, allocation))
  pushIf (currency ≠ caps.currency)
    s!"currency {currency} does not match the campaign currency {caps.currency}" ++
  pushIf (caps.budget_total_minor ≤ 0)
    "the campaign has no budget (budget_total_minor is 0)" ++
  pushIf (caps.max_transaction_minor > 0 ∧ amount > caps.max_transaction_minor)
    s!"amount {fmt amount} exceeds the per-transaction cap {fmt caps.max_transaction_minor}" ++
  pushIf (caps.budget_total_minor > 0 ∧ (amount : Int) > snap.total.available)
    s!"amount {fmt amount} exceeds the campaign's remaining budget {fmt snap.total.available}" ++
  (match snap.period.available with
    | some available => pushIf ((amount : Int) > available)
        (s!"amount {fmt amount} exceeds the remaining {caps.budget_period.text} budget " ++
          s!"{fmt available} ({snap.period_key})")
    | none => []) ++
  (match allocation with
    | none => ["the channel has no approved budget allocation — propose one first " ++
        "(propose_marketing_budget_allocation)"]
    | some _ =>
      match snap.channel.bind (·.available) with
      | some available => pushIf ((amount : Int) > available)
          (s!"amount {fmt amount} exceeds the channel's remaining allocation " ++
            s!"{fmt available} ({snap.period_key})")
      | none => [])

/-- Held plus spent. -/
def Usage.total (u : Usage) : Int := u.held + u.spent

/-- No violation means that the amount fits under the total limit, under the limit of
    the current period if there is one, and under the channel's allocation. -/
theorem fits_of_spendViolations {caps : BudgetCaps} {now : Date}
    {amount : Nat} {currency : String} {channelId : Uuid} {allocation : Option Nat}
    (hpos : 0 < amount)
    (h : spendViolations caps rows now amount currency channelId allocation = []) :
    (usageOf rows fun _ => true).total + amount ≤ caps.budget_total_minor ∧
      (caps.hasPeriodCap = true →
        (usageOf rows (inPeriod (periodKey caps.budget_period now))).total + amount ≤
          caps.budget_period_minor) ∧
      ∃ a, allocation = some a ∧
        (usageOf rows (inChannelPeriod channelId (periodKey caps.budget_period now))).total +
          amount ≤ a := by
  simp only [spendViolations, budgetSnapshot, List.append_eq_nil_iff, pushIf_eq_nil] at h
  obtain ⟨⟨⟨⟨⟨-, hsome⟩, -⟩, htotal⟩, hperiod⟩, halloc⟩ := h
  -- Each part: an amount above 0 that is not above `max 0 x` is at most `x`.
  refine ⟨?_, ?_, ?_⟩
  · have havail := not_and.mp (pushIf_eq_nil.mp htotal) (by omega)
    unfold Usage.total
    omega
  · intro hcap
    simp only [hcap, if_true, pushIf_eq_nil] at hperiod
    unfold Usage.total
    omega
  · cases allocation with
    | none => simp at halloc
    | some a =>
      refine ⟨a, rfl, ?_⟩
      simp only [Option.map_some, Option.bind_some, pushIf_eq_nil] at halloc
      unfold Usage.total
      omega

end WorkflowBoard.Marketing
