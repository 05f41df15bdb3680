import WorkflowBoard.Spec.SpendLedger

/-!
# Spending stays within the caps

`held + spent` of a campaign is a sum over its whole ledger, and only the final
approval compares it with the caps. That is enough: every other transaction lowers the
sum or leaves it alone. A payment captures what it releases, in the period and on the
channel of the reservation.
-/

namespace WorkflowBoard.Marketing

variable {env : SpendEnv} {db db' : Db} {id c : Uuid} {row row' : SpendRequest}
  {rows : List LedgerEntry} {ops : List Uuid}

/-- What a limit is about: the campaign, one period, or one channel in one period. -/
inductive Scope where
  | total
  | period (key : String)
  | channel (channelId : Uuid) (key : String)

def Scope.keeps : Scope → LedgerEntry → Bool
  | .total => fun _ => true
  | .period key => inPeriod key
  | .channel channelId key => inChannelPeriod channelId key

/-- Held plus spent of a campaign in a scope. -/
def usage (db : Db) (c : Uuid) (scope : Scope) : Int :=
  (usageOf (loadLedger db c) scope.keeps).total

/-- The limit of a scope, if there is one. -/
def limit (db : Db) (c : Uuid) : Scope → Option Nat
  | .total => (db.campaigns.lookup c).map (·.caps.budget_total_minor)
  | .period _ => ((db.campaigns.lookup c).filter (·.caps.hasPeriodCap)).map
      (·.caps.budget_period_minor)
  | .channel channelId _ => (activeAllocation db c channelId).map (·.amount_minor)

/-- Reserve and capture minus release and refund. -/
def Totals.net (t : Totals) : Int := t.reserve - t.release + (t.capture - t.refund)

@[simp] theorem Totals.net_add (a b : Totals) : (a + b).net = a.net + b.net := by
  simp only [net, add_reserve, add_release, add_capture, add_refund]
  omega

@[simp] theorem Totals.net_zero : Totals.zero.net = 0 := rfl

theorem usage_eq_net (db : Db) (c : Uuid) (scope : Scope) :
    usage db c scope = (totalsOf (loadLedger db c) scope.keeps).net := rfl

/-! ## What a move adds to a scope -/

/-- The rows of a request in this state fall into the scope. -/
def Scope.covers (scope : Scope) (c : Uuid) (row : SpendRequest) : Bool :=
  match scope with
  | .total => row.campaign_id == c
  | .period key => row.campaign_id == c && row.period_key == key
  | .channel channelId key =>
    row.campaign_id == c && (row.channel_id == channelId && row.period_key == key)

theorem Scope.keeps_eq_covers {e : LedgerEntry} (scope : Scope) (h : BelongsTo e row) :
    (e.campaign_id == c && scope.keeps e) = scope.covers c row := by
  obtain ⟨h1, h2, h3⟩ := h
  cases scope <;> simp [Scope.keeps, Scope.covers, inPeriod, inChannelPeriod, h1, h2, h3]

/-- All rows of a move fall into a scope or none does. -/
theorem SpendMove.scope_rows (h : SpendMove db id row row' rows ops) (c : Uuid) (scope : Scope) :
    totalsOf (rows.filter (·.campaign_id == c)) scope.keeps =
      if scope.covers c row' then requestTotals rows id else Totals.zero := by
  have hbelong := h.rows_belong
  rw [totalsOf_filter]
  split
  · rename_i hcov
    refine totalsOf_congr fun e he => ?_
    rw [scope.keeps_eq_covers (hbelong e he).2, hcov, (hbelong e he).1, beq_self_eq_true]
  · rename_i hcov
    refine totalsOf_eq_zero fun e he => ?_
    rw [scope.keeps_eq_covers (hbelong e he).2]
    simpa using hcov

theorem SpendMove.usage_eq (h : SpendMove db id row row' rows ops)
    (hled : db'.ledger = db.ledger ++ rows) (c : Uuid) (scope : Scope) :
    usage db' c scope =
      usage db c scope + if scope.covers c row' then (requestTotals rows id).net else 0 := by
  simp only [usage_eq_net, loadLedger, hled, List.filter_append, totalsOf_append,
    h.scope_rows c scope, Totals.net_add]
  split <;> simp

/-- Every move but the final approval nets to zero or less. -/
theorem SpendMove.net_le (h : SpendMove db id row row' rows ops)
    (hold : Ledgered row.status row.amount_minor (campaignTotals db id row)) :
    (requestTotals rows id).net ≤ 0 ∨
      ∃ campaign now, row.status = .pending ∧ row'.status = .approved ∧
        db.campaigns.lookup row.campaign_id = some campaign ∧ WithinLimits db campaign row now ∧
        row'.period_key = periodKey campaign.caps.budget_period now ∧
        (requestTotals rows id).net = row.amount_minor := by
  cases h with
  | finalApproval a campaign now actor hs _ hcampaign _ hlimits =>
    refine .inr ⟨campaign, now, hs, rfl, hcampaign, hlimits, rfl, ?_⟩
    simp [requestTotals_write, Totals.bump, Totals.zero, Totals.net]
  | cancelApproved actor hs =>
    left
    rw [requestTotals_writes, writesTotals_releaseWrites]
    simp only [Totals.net]
    omega
  | settle to_ response actor hs =>
    left
    -- What is held is the whole amount, so a capture is covered by its release.
    have hheld : Ledgered .approved row.amount_minor (campaignTotals db id row) := by
      rcases hs with hs | hs | hs <;> rw [hs] at hold <;> exact hold
    obtain ⟨h1, h2, -, -⟩ := hheld
    rw [requestTotals_writes, writesTotals_settlement, h1, h2]
    simp only [Totals.net]
    split <;> omega
  | refund amount | completeReturn op =>
    left
    rw [requestTotals_write]
    simp only [Totals.bump, Totals.zero, Totals.net]
    omega
  | firstApproval | close | claim | toUnknown | startReturn | closeReturn => left; simp

/-! ## Steps and runs -/

/-- A final approval stays within the limit of every scope it counts in. -/
theorem withinLimits_usage {campaign : Campaign} {now : Date} {scope : Scope} {l : Nat}
    (hpos : 0 < row.amount_minor) (hcampaign : db.campaigns.lookup row.campaign_id = some campaign)
    (hlimits : WithinLimits db campaign row now) (hfields : row'.toSpendFields = row.toSpendFields)
    (hkey : row'.period_key = periodKey campaign.caps.budget_period now)
    (hcov : scope.covers c row' = true) (hl : limit db c scope = some l) :
    usage db c scope + row.amount_minor ≤ l := by
  obtain ⟨htotal, hperiod, a, halloc, hchannel⟩ := fits_of_spendViolations hpos hlimits
  cases scope with
  | total =>
    simp only [Scope.covers, hfields, beq_iff_eq] at hcov
    subst hcov
    simp only [limit, hcampaign, Option.map_some, Option.some.injEq] at hl
    exact hl ▸ htotal
  | period key =>
    simp only [Scope.covers, hfields, hkey, Bool.and_eq_true, beq_iff_eq] at hcov
    obtain ⟨rfl, rfl⟩ := hcov
    simp only [limit, hcampaign, Option.map_eq_some_iff, Option.filter_eq_some_iff,
      Option.some.injEq] at hl
    obtain ⟨_, ⟨rfl, hcap⟩, rfl⟩ := hl
    exact hperiod hcap
  | channel channelId key =>
    simp only [Scope.covers, hfields, hkey, Bool.and_eq_true, beq_iff_eq] at hcov
    obtain ⟨rfl, rfl, rfl⟩ := hcov
    simp only [limit] at hl
    rw [hl] at halloc
    exact Option.some.inj halloc ▸ hchannel

/-- Some request of the campaign goes from pending to approved. -/
def FinalApproval (db db' : Db) (c : Uuid) : Prop :=
  ∃ id row row', db.requests.lookup id = some row ∧ row.status = .pending ∧
    row.campaign_id = c ∧ db'.requests.lookup id = some row' ∧ row'.status = .approved

/-- A transaction lowers `held + spent` of a scope or leaves it alone, unless it is a final
    approval, and then the sum stays within the scope's limit. -/
theorem step_usage (hinv : SpendInv db) (h : SpendEffect db db') (c : Uuid) (scope : Scope) :
    usage db' c scope ≤ usage db c scope ∨
      FinalApproval db db' c ∧ ∀ l, limit db c scope = some l → usage db' c scope ≤ l := by
  cases h with
  | idle _ hled =>
    left
    simp only [usage, loadLedger, hled, le_refl]
  | create _ _ _ _ _ hled =>
    left
    simp only [usage, loadLedger, hled, le_refl]
  | move id row row' rows ops hrow hmove hstored hled =>
    rw [hmove.usage_eq hled]
    cases hcov : scope.covers c row' with
    | false => left; simp
    | true =>
      have hold := hinv.ledgered id row hrow
      rw [← campaignTotals_eq hinv hrow] at hold
      rcases hmove.net_le hold with hnet | ⟨campaign, now, hp, ha, hcampaign, hlimits, hkey, hnet⟩
      · left
        rw [if_pos rfl]
        omega
      · right
        have hc : row.campaign_id = c := by
          rw [← hmove.fields_eq]
          cases scope <;> simp only [Scope.covers, Bool.and_eq_true, beq_iff_eq] at hcov <;>
            tauto
        refine ⟨⟨id, row, row', hrow, hp, hc, by rw [hstored id, if_pos rfl], ha⟩, ?_⟩
        intro l hl
        rw [if_pos rfl, hnet]
        exact withinLimits_usage (hinv.positive id row hrow) hcampaign hlimits hmove.fields_eq
          hkey hcov hl

/-- The step leaves the caps, the period setting and the active allocations of the campaign
    alone. -/
def KeepsBudget (c : Uuid) (db : Db) (_ : SpendAction) (db' : Db) : Prop :=
  (db'.campaigns.lookup c).map (·.caps) = (db.campaigns.lookup c).map (·.caps) ∧
    ∀ channelId, activeAllocation db' c channelId = activeAllocation db c channelId

theorem KeepsBudget.limit_eq {a : SpendAction} (h : KeepsBudget c db a db') (scope : Scope) :
    limit db' c scope = limit db c scope := by
  obtain ⟨hcaps, halloc⟩ := h
  cases scope with
  | total =>
    have := congrArg (Option.map (·.budget_total_minor)) hcaps
    simpa [limit, Option.map_map, Function.comp_def] using this
  | period key =>
    have := congrArg (fun x => (x.filter (·.hasPeriodCap)).map (·.budget_period_minor)) hcaps
    simpa [limit, Option.filter_map, Option.map_map, Function.comp_def] using this
  | channel channelId key => simp only [limit, halloc]

/-- A run that leaves the budget of the campaign alone keeps every scope within its limit. -/
theorem usage_le_limit {s t : Db} {as : List SpendAction} (hs : (spendSystem env).Reachable s)
    (hp : ((spendSystem env).restrict (KeepsBudget c)).Path s as t)
    (hstart : ∀ scope l, limit s c scope = some l → usage s c scope ≤ l) :
    ∀ scope l, limit t c scope = some l → usage t c scope ≤ l := by
  induction hp with
  | nil => exact hstart
  | snoc hp' hstep ih =>
    intro scope l hl
    rw [hstep.2.limit_eq] at hl
    have hreach := hs.path hp'.of_restrict
    rcases step_usage (spendInv_reachable hreach) (spendSystem_effect hstep.1) c scope with
      hle | ⟨-, hle⟩
    · exact hle.trans (ih scope l hl)
    · exact hle l hl

theorem usage_eq_zero (h : ∀ e ∈ db.ledger, e.campaign_id ≠ c) (scope : Scope) :
    usage db c scope = 0 := by
  have hnil : loadLedger db c = [] := by
    simpa [loadLedger] using h
  rw [usage_eq_net, hnil]
  rfl

/-- Take any run from a reachable state in which the campaign has no ledger rows yet, of any
    requests in any order, whose steps leave its caps, its period setting and its active
    allocations alone. At the end held plus spent is within the total cap, within the period
    cap for every period, and within the allocation for every channel and period. Moreover
    only the final approval of a request of the campaign ever raises held plus spent, and
    never above a limit. -/
theorem spend_within_caps {s t : Db} {as : List SpendAction} {campaign : Campaign}
    (hs : (spendSystem env).Reachable s) (hfresh : ∀ e ∈ s.ledger, e.campaign_id ≠ c)
    (hp : ((spendSystem env).restrict (KeepsBudget c)).Path s as t)
    (hcampaign : t.campaigns.lookup c = some campaign) :
    (usageOf (loadLedger t c) fun _ => true).total ≤ campaign.caps.budget_total_minor ∧
      (campaign.caps.hasPeriodCap = true → ∀ key,
        (usageOf (loadLedger t c) (inPeriod key)).total ≤ campaign.caps.budget_period_minor) ∧
      (∀ channelId allocation key, activeAllocation t c channelId = some allocation →
        (usageOf (loadLedger t c) (inChannelPeriod channelId key)).total ≤
          allocation.amount_minor) ∧
      ∀ u a u' scope, (spendSystem env).Reachable u → (spendSystem env).step u a u' →
        usage u c scope < usage u' c scope →
          FinalApproval u u' c ∧ ∀ l, limit u c scope = some l → usage u' c scope ≤ l := by
  have hstart : ∀ scope l, limit s c scope = some l → usage s c scope ≤ l := by
    intro scope l _
    rw [usage_eq_zero hfresh]
    exact Int.natCast_nonneg l
  have hend := usage_le_limit hs hp hstart
  refine ⟨?_, ?_, ?_, ?_⟩
  · exact hend .total _ (by simp [limit, hcampaign])
  · intro hcap key
    exact hend (.period key) _ (by simp [limit, hcampaign, hcap])
  · intro channelId allocation key halloc
    exact hend (.channel channelId key) _ (by simp [limit, halloc])
  · intro u a u' scope hu hstep hlt
    rcases step_usage (spendInv_reachable hu) (spendSystem_effect hstep) c scope with hle | h
    · omega
    · exact h

/-- A transaction of the sample service, if it leaves the budget tables of campaign 1 alone. -/
def Sample.budgetRun (db : Db) (a : SpendAction) : Tx Db := do
  let db' ← run db a
  require ((db'.campaigns.lookup 1).map (·.caps) = (db.campaigns.lookup 1).map (·.caps) ∧
    db'.allocations = db.allocations) (marketingError 500 "budget changed")
  return db'

theorem Sample.budgetRun_step {a : SpendAction} (h : budgetRun db a = .ok db') :
    ((spendSystem runtime).restrict (KeepsBudget 1)).step db a db' := by
  simp only [budgetRun, bind_eq_ok, require_eq_ok, pure_eq_ok,
    decide_eq_true_eq] at h
  obtain ⟨_, hrun, _, ⟨hcaps, halloc⟩, rfl⟩ := h
  exact ⟨hrun, hcaps, fun channelId => by simp only [activeAllocation, halloc]⟩

/-- Two requests, of 100 and 50, approved in one month under a period cap of 500. -/
theorem spend_within_caps_two_requests :
    ∃ t : Db, (usageOf (loadLedger t 1) (inPeriod "2025-10")).total = 150 ∧
      (usageOf (loadLedger t 1) (inPeriod "2025-10")).total ≤ 500 := by
  obtain ⟨t, hpath, hcheck⟩ := Transition.exists_path_of_run
    (M := (spendSystem Sample.runtime).restrict (KeepsBudget 1))
    (fun _ _ _ h => Sample.budgetRun_step h) Sample.start
    ([Sample.requestAds, Sample.approveAds Sample.alice, Sample.approveAds Sample.bob] ++
      Sample.payMeta)
    (fun t => (usageOf (loadLedger t 1) (inPeriod "2025-10")).total = 150 &&
      t.campaigns.lookup 1 = some Sample.campaign) (by decide)
  simp only [Bool.and_eq_true, decide_eq_true_eq] at hcheck
  have hinit : (spendSystem Sample.runtime).init Sample.start := ⟨rfl, rfl, rfl⟩
  have hcaps := spend_within_caps (Transition.Reachable.init hinit) (by simp [Sample.start]) hpath
    hcheck.2
  exact ⟨t, hcheck.1, hcaps.2.1 rfl "2025-10"⟩

end WorkflowBoard.Marketing
