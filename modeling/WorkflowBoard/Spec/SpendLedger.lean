import WorkflowBoard.Spec.SpendMachine

/-!
# The ledger of a spend request agrees with its status

Every reachable state satisfies `SpendInv`: the sums of a request's reserve, release,
capture and refund rows are those of its status, its rows carry its campaign, channel
and period, and only a paid request has an open return. The invariant is kept by
every `SpendMove`, so no order of transactions breaks it, late provider results
included.
-/

namespace WorkflowBoard.Marketing

/-- The ledger sums that belong to a status, for a request of amount `A`. -/
def Ledgered (status : SpendStatus) (A : Nat) (t : Totals) : Prop :=
  match status with
  | .pending | .denied | .expired =>
    t.reserve = 0 ∧ t.release = 0 ∧ t.capture = 0 ∧ t.refund = 0
  | .approved | .executing | .unknown =>
    t.reserve = A ∧ t.release = 0 ∧ t.capture = 0 ∧ t.refund = 0
  | .paid => t.reserve = A ∧ t.release = A ∧ t.capture = A ∧ t.refund ≤ A
  | .failed => t.reserve = A ∧ t.release = A ∧ t.capture = 0 ∧ t.refund = 0
  | .cancelled =>
    t.reserve = t.release ∧ (t.reserve = 0 ∨ t.reserve = A) ∧ t.capture = 0 ∧ t.refund = 0

/-- A ledger row belongs to the request: it carries its campaign, channel and period. -/
def BelongsTo (e : LedgerEntry) (row : SpendRequest) : Prop :=
  e.campaign_id = row.campaign_id ∧ e.channel_id = row.channel_id ∧
    e.period_key = row.period_key

structure SpendInv (db : Db) : Prop where
  positive : ∀ id row, db.requests.lookup id = some row → 0 < row.amount_minor
  ledgered : ∀ id row, db.requests.lookup id = some row →
    Ledgered row.status row.amount_minor (requestTotals db.ledger id)
  owned : ∀ e ∈ db.ledger, ∃ row, db.requests.lookup e.spend_request_id = some row ∧
    BelongsTo e row
  untouched : ∀ id row, db.requests.lookup id = some row → row.status = .pending →
    ∀ e ∈ db.ledger, e.spend_request_id ≠ id
  returning : ∀ id row, db.requests.lookup id = some row → ReturnOpen row → row.status = .paid

variable {env : SpendEnv} {db db' : Db} {id : Uuid} {row row' : SpendRequest}
  {rows : List LedgerEntry} {ops : List Uuid}

/-! ## What a move leaves alone -/

section

variable (h : SpendMove db id row row' rows ops)
include h

theorem SpendMove.fields_eq :
    row'.toSpendFields = row.toSpendFields := by
  cases h with
  | settle to_ => cases to_ <;> rfl
  | _ => rfl

theorem SpendMove.period_eq (hp : row.status ≠ .pending) : row'.period_key = row.period_key := by
  cases h with
  | finalApproval _ _ _ _ hs => exact absurd hs hp
  | settle to_ => cases to_ <;> rfl
  | _ => rfl

/-- A request that is pending after a move was pending before and got no ledger rows. -/
theorem SpendMove.of_pending
    (hret : ReturnOpen row → row.status = .paid) (hp : row'.status = .pending) :
    row.status = .pending ∧ rows = [] := by
  cases h with
  | firstApproval a hs => exact ⟨hs, rfl⟩
  | settle to_ => cases to_ <;> simp [Settlement.set] at hp
  | close dest now hs => exact ⟨hs, rfl⟩
  | refund _ _ _ _ hs => exact nomatch hs.symm.trans hp
  | startReturn _ _ hs => exact nomatch hs.symm.trans hp
  | completeReturn op hopen => exact nomatch (hret hopen).symm.trans hp
  | closeReturn status hopen => exact nomatch (hret hopen).symm.trans hp
  | finalApproval | cancelApproved | claim | toUnknown => cases hp

/-- The rows a move appends are rows of its request. -/
theorem SpendMove.rows_belong :
    ∀ e ∈ rows, e.spend_request_id = id ∧ BelongsTo e row' := by
  cases h with
  | settle to_ =>
    intro e he
    obtain ⟨w, _, rfl⟩ := List.mem_map.mp he
    cases to_ <;> exact ⟨rfl, rfl, rfl, rfl⟩
  | cancelApproved =>
    intro e he
    obtain ⟨w, _, rfl⟩ := List.mem_map.mp he
    exact ⟨rfl, rfl, rfl, rfl⟩
  | finalApproval | refund | completeReturn =>
    intro e he
    obtain rfl := List.mem_singleton.mp he
    exact ⟨rfl, rfl, rfl, rfl⟩
  | firstApproval | close | claim | toUnknown | startReturn | closeReturn => simp

end

/-! ## The sums of one request -/

/-- The sums of a list of writes. -/
def writesTotals (ws : List LedgerWrite) : Totals :=
  ws.foldl (fun t w => t.bump w.kind w.amount_minor) Totals.zero

theorem writesTotals_snoc (ws : List LedgerWrite) (w : LedgerWrite) :
    writesTotals (ws ++ [w]) = (writesTotals ws).bump w.kind w.amount_minor := by
  simp [writesTotals]

@[simp] theorem requestTotals_nil (i : Uuid) : requestTotals [] i = Totals.zero := rfl

theorem requestTotals_append (xs ys : List LedgerEntry) (i : Uuid) :
    requestTotals (xs ++ ys) i = requestTotals xs i + requestTotals ys i :=
  totalsOf_append xs ys _

theorem requestTotals_writes (key : String) (actor : MarketingActor) (ws : List LedgerWrite) :
    requestTotals (ws.map ((ledgerBase id row key).entry actor)) id = writesTotals ws := by
  simp only [requestTotals, totalsOf, writesTotals, List.foldl_map]
  congr 1
  funext t w
  simp [addRow, LedgerBase.entry, ledgerBase]

theorem requestTotals_write (key : String) (actor : MarketingActor) (w : LedgerWrite) :
    requestTotals [(ledgerBase id row key).entry actor w] id =
      Totals.zero.bump w.kind w.amount_minor :=
  requestTotals_writes key actor [w]

theorem writesTotals_releaseWrites (t : Totals) (note : LedgerNote) :
    writesTotals (releaseWrites t note) = ⟨0, t.reserve - t.release, 0, 0⟩ := by
  unfold releaseWrites
  split
  · simp [writesTotals, Totals.bump, Totals.zero]
  · have : t.reserve - t.release = 0 := by omega
    simp [writesTotals, Totals.zero, this]

/-- A settlement releases what is held; a paid one captures the amount. -/
theorem writesTotals_settlement (to_ : Settlement) (row : SpendRequest) (t : Totals) :
    writesTotals (to_.writes row t) =
      ⟨0, t.reserve - t.release, if to_ = .failed then 0 else row.amount_minor, 0⟩ := by
  cases to_ with
  | paid ref =>
    simp [Settlement.writes, writesTotals_snoc, writesTotals_releaseWrites, Totals.bump]
  | failed => simp [Settlement.writes, writesTotals_releaseWrites]

/-- The rows of one request add nothing to another. -/
theorem requestTotals_other {i : Uuid} (h : ∀ e ∈ rows, e.spend_request_id = id) (hi : i ≠ id) :
    requestTotals rows i = Totals.zero := by
  refine totalsOf_eq_zero fun e he => ?_
  simpa [h e he] using Ne.symm hi

/-- The transactions sum over the campaign's ledger. All rows of a request are there. -/
theorem campaignTotals_eq (hinv : SpendInv db) (hrow : db.requests.lookup id = some row) :
    campaignTotals db id row = requestTotals db.ledger id := by
  simp only [campaignTotals, requestTotals, loadLedger, totalsOf_filter]
  refine totalsOf_congr fun e he => ?_
  by_cases hid : e.spend_request_id = id
  · obtain ⟨row₀, hrow₀, hcampaign, -⟩ := hinv.owned e he
    rw [hid] at hrow₀
    obtain rfl : row = row₀ := Option.some.inj (hrow.symm.trans hrow₀)
    simp [hid, hcampaign]
  · simp [hid]

/-- A refund within the net capture keeps a paid request within its amount. -/
theorem Ledgered.refund {A n : Nat} {t : Totals} (h : Ledgered .paid A t)
    (hle : (n : Int) ≤ t.capture - t.refund) :
    Ledgered .paid A (t + Totals.zero.bump .refund n) := by
  obtain ⟨h1, h2, h3, h4⟩ := h
  simp only [Ledgered, Totals.bump, Totals.zero, Totals.add_reserve, Totals.add_release,
    Totals.add_capture, Totals.add_refund]
  omega

/-- A move takes the sums of the old status to the sums of the new one. -/
theorem SpendMove.ledgered (h : SpendMove db id row row' rows ops)
    (hret : ReturnOpen row → row.status = .paid)
    (hold : Ledgered row.status row.amount_minor (campaignTotals db id row)) :
    Ledgered row'.status row'.amount_minor (campaignTotals db id row + requestTotals rows id) := by
  cases h with
  | firstApproval => simpa using hold
  | finalApproval a campaign now actor hs =>
    rw [hs] at hold
    obtain ⟨h1, h2, h3, h4⟩ := hold
    simp [Ledgered, requestTotals_write, Totals.bump, Totals.zero, h1, h2, h3, h4]
  | close dest now hs hdest =>
    rw [hs] at hold
    obtain ⟨h1, h2, h3, h4⟩ := hold
    rcases hdest with rfl | rfl | rfl <;>
      simp [Ledgered, h1, h2, h3, h4]
  | cancelApproved actor hs =>
    rw [hs] at hold
    obtain ⟨h1, h2, h3, h4⟩ := hold
    rw [requestTotals_writes, writesTotals_releaseWrites]
    simp [Ledgered, h1, h2, h3, h4]
  | claim now hs =>
    rw [hs] at hold
    simpa [Ledgered] using hold
  | settle to_ response actor hs =>
    -- Approved, executing and unknown requests hold the whole amount.
    have hheld : Ledgered .approved row.amount_minor (campaignTotals db id row) := by
      rcases hs with hs | hs | hs <;> rw [hs] at hold <;> exact hold
    obtain ⟨h1, h2, h3, h4⟩ := hheld
    rw [requestTotals_writes, writesTotals_settlement]
    cases to_ with
    | paid ref => simp [Ledgered, Settlement.set, h1, h2, h3, h4]
    | failed => simp [Ledgered, Settlement.set, h1, h2, h3, h4]
  | toUnknown response hs =>
    have hheld : Ledgered .unknown row.amount_minor (campaignTotals db id row) := by
      rcases hs with hs | hs <;> rw [hs] at hold <;> exact hold
    simpa using hheld
  | refund amount note ref actor hs hle =>
    rw [hs] at hold ⊢
    rw [requestTotals_write]
    exact hold.refund hle
  | startReturn op key hs => simpa using hold
  | completeReturn op hopen hop hle =>
    simp only [hret hopen] at hold ⊢
    rw [requestTotals_write]
    exact hold.refund hle
  | closeReturn status hopen hstatus => simpa using hold

/-- Only a paid request has an open return after a move. -/
theorem SpendMove.returning (h : SpendMove db id row row' rows ops)
    (hret : ReturnOpen row → row.status = .paid) (hopen : ReturnOpen row') :
    row'.status = .paid := by
  cases h with
  | settle to_ response actor hs =>
    cases to_ with
    | paid ref => rfl
    | failed =>
      rcases hs with hs | hs | hs <;> exact nomatch (hret hopen).symm.trans hs
  | firstApproval => exact hret hopen
  | refund _ _ _ _ hs => exact hs
  | startReturn _ _ hs => exact hs
  | completeReturn op h => exact hret h
  | closeReturn _ h => exact hret h
  | finalApproval a campaign now actor hs => exact nomatch (hret hopen).symm.trans hs
  | close dest now hs => exact nomatch (hret hopen).symm.trans hs
  | cancelApproved actor hs => exact nomatch (hret hopen).symm.trans hs
  | claim now hs => exact nomatch (hret hopen).symm.trans hs
  | toUnknown response hs =>
    rcases hs with hs | hs <;> exact nomatch (hret hopen).symm.trans hs

/-! ## The invariant -/

theorem SpendInv.move (hinv : SpendInv db) (hrow : db.requests.lookup id = some row)
    (hmove : SpendMove db id row row' rows ops) (hstored : Stored db db' id row')
    (hledger : db'.ledger = db.ledger ++ rows) : SpendInv db' := by
  have hret := hinv.returning id row hrow
  have hbelong := hmove.rows_belong
  have hother : ∀ {i}, i ≠ id → requestTotals db'.ledger i = requestTotals db.ledger i := by
    intro i hi
    rw [hledger, requestTotals_append, requestTotals_other (fun e he => (hbelong e he).1) hi,
      Totals.add_zero]
  refine ⟨?_, ?_, ?_, ?_, ?_⟩
  · intro i r hr
    rw [hstored i] at hr
    split at hr
    · cases hr
      simpa [hmove.fields_eq] using hinv.positive id row hrow
    · exact hinv.positive i r hr
  · intro i r hr
    rw [hstored i] at hr
    split at hr
    · rename_i hi
      cases hr
      have hold := hinv.ledgered id row hrow
      rw [← campaignTotals_eq hinv hrow] at hold
      have hnew := hmove.ledgered hret hold
      rwa [campaignTotals_eq hinv hrow, ← requestTotals_append, ← hledger, ← hi] at hnew
    · rename_i hi
      rw [hother hi]
      exact hinv.ledgered i r hr
  · intro e he
    rw [hledger, List.mem_append] at he
    rw [hstored e.spend_request_id]
    rcases he with he | he
    · obtain ⟨r, hr, hb⟩ := hinv.owned e he
      by_cases hi : e.spend_request_id = id
      · -- A row of this request: the request is not pending, so its period is kept.
        rw [if_pos hi]
        rw [hi] at hr
        obtain rfl : row = r := Option.some.inj (hrow.symm.trans hr)
        have hnp : row.status ≠ .pending := fun hp => hinv.untouched id row hrow hp e he hi
        refine ⟨row', rfl, ?_, ?_, ?_⟩
        · rw [hb.1, hmove.fields_eq]
        · rw [hb.2.1, hmove.fields_eq]
        · rw [hb.2.2, hmove.period_eq hnp]
      · rw [if_neg hi]
        exact ⟨r, hr, hb⟩
    · rw [if_pos (hbelong e he).1]
      exact ⟨row', rfl, (hbelong e he).2⟩
  · intro i r hr hp e he
    rw [hledger, List.mem_append] at he
    rw [hstored i] at hr
    split at hr
    · rename_i hi
      cases hr
      obtain ⟨hpending, rfl⟩ := hmove.of_pending hret hp
      rw [hi]
      exact hinv.untouched id row hrow hpending e (by simpa using he)
    · rename_i hi
      rcases he with he | he
      · exact hinv.untouched i r hr hp e he
      · rw [(hbelong e he).1]
        exact Ne.symm hi
  · intro i r hr
    rw [hstored i] at hr
    split at hr
    · cases hr
      exact hmove.returning hret
    · exact hinv.returning i r hr

theorem SpendInv.create (hinv : SpendInv db) (hfresh : db.requests.lookup id = none)
    (hnew : NewRequest row) (hstored : Stored db db' id row)
    (hledger : db'.ledger = db.ledger) : SpendInv db' := by
  obtain ⟨hstatus, -, hpos, hret, -⟩ := hnew
  -- No ledger row refers to an id that was free.
  have hnone : ∀ e ∈ db.ledger, e.spend_request_id ≠ id := by
    intro e he hi
    obtain ⟨r, hr, -⟩ := hinv.owned e he
    rw [hi, hfresh] at hr
    cases hr
  refine ⟨?_, ?_, ?_, ?_, ?_⟩
  · intro i r hr
    rw [hstored i] at hr
    split at hr
    · cases hr
      exact hpos
    · exact hinv.positive i r hr
  · intro i r hr
    rw [hledger]
    rw [hstored i] at hr
    split at hr
    · rename_i hi
      cases hr
      have hzero : requestTotals db.ledger i = Totals.zero :=
        totalsOf_eq_zero fun e he => by simpa [hi] using hnone e he
      rw [hstatus, hzero]
      exact ⟨rfl, rfl, rfl, rfl⟩
    · exact hinv.ledgered i r hr
  · intro e he
    rw [hledger] at he
    rw [hstored, if_neg (hnone e he)]
    exact hinv.owned e he
  · intro i r hr hp e he
    rw [hledger] at he
    rw [hstored i] at hr
    split at hr
    · rename_i hi
      exact hi ▸ hnone e he
    · exact hinv.untouched i r hr hp e he
  · intro i r hr hopen
    rw [hstored i] at hr
    split at hr
    · cases hr
      rcases hopen with h | h <;> exact nomatch hret.symm.trans h
    · exact hinv.returning i r hr hopen

theorem SpendInv.effect (hinv : SpendInv db) (h : SpendEffect db db') : SpendInv db' := by
  cases h with
  | idle hreq hled =>
    refine ⟨?_, ?_, ?_, ?_, ?_⟩ <;> rw [hreq]
    · exact hinv.positive
    · rw [hled]; exact hinv.ledgered
    · rw [hled]; exact hinv.owned
    · rw [hled]; exact hinv.untouched
    · exact hinv.returning
  | create id row hfresh hnew hstored hled => exact hinv.create hfresh hnew hstored hled
  | move id row row' rows ops hrow hmove hstored hled => exact hinv.move hrow hmove hstored hled

/-- The invariant holds in every reachable state. -/
theorem spendInv_reachable (h : (spendSystem env).Reachable db) : SpendInv db := by
  refine h.invariant (fun db₀ hinit => ?_) fun s a s' _ hinv hstep =>
    hinv.effect (spendSystem_effect hstep)
  obtain ⟨hreq, hled, -⟩ := hinit
  refine ⟨?_, ?_, ?_, ?_, ?_⟩ <;> simp [hreq, hled]

/-- Release and capture stay within the reservation, refunds within the capture. -/
theorem Ledgered.bounds {status : SpendStatus} {A : Nat} {t : Totals} (h : Ledgered status A t) :
    t.release ≤ t.reserve ∧ t.refund ≤ t.capture ∧ t.capture ≤ t.reserve := by
  cases status <;> simp only [Ledgered] at h <;> omega

theorem SpendInv.bounds (hinv : SpendInv db) (i : Uuid) :
    (requestTotals db.ledger i).release ≤ (requestTotals db.ledger i).reserve ∧
      (requestTotals db.ledger i).refund ≤ (requestTotals db.ledger i).capture ∧
      (requestTotals db.ledger i).capture ≤ (requestTotals db.ledger i).reserve := by
  cases hrow : db.requests.lookup i with
  | some row => exact (hinv.ledgered i row hrow).bounds
  | none =>
    have hzero : requestTotals db.ledger i = Totals.zero := by
      refine totalsOf_eq_zero fun e he => ?_
      obtain ⟨r, hr, -⟩ := hinv.owned e he
      simp only [beq_eq_false_iff_ne]
      rintro rfl
      exact nomatch hrow.symm.trans hr
    rw [hzero]
    exact ⟨le_rfl, le_rfl, le_rfl⟩

/-- In every reachable state, after every order of transactions, the ledger sums of a request
    are those of its status: nothing is released twice, captured without a reservation or
    refunded beyond the capture. -/
theorem ledger_matches_status (h : (spendSystem env).Reachable db)
    (hrow : db.requests.lookup id = some row) :
    Ledgered row.status row.amount_minor (requestTotals db.ledger id) ∧
      (requestTotals db.ledger id).release ≤ (requestTotals db.ledger id).reserve ∧
      (requestTotals db.ledger id).refund ≤ (requestTotals db.ledger id).capture ∧
      (requestTotals db.ledger id).capture ≤ (requestTotals db.ledger id).reserve := by
  have hinv := spendInv_reachable h
  exact ⟨hinv.ledgered id row hrow, hinv.bounds id⟩

/-- A request that two people approved, that was paid and of which 30 came back. -/
theorem ledger_matches_status_refunded :
    ∃ db row, (spendSystem Sample.runtime).Reachable db ∧ db.requests.lookup 7 = some row ∧
      row.status = .paid ∧ (requestTotals db.ledger 7).refund = 30 ∧
      Ledgered row.status row.amount_minor (requestTotals db.ledger 7) := by
  obtain ⟨db, hreach, hcheck⟩ := Sample.exists_reachable
    [Sample.requestAds, Sample.approveAds Sample.alice, Sample.approveAds Sample.bob,
      .markPaid 7 "acme" Sample.alice "tx-1" "",
      .refund 7 "acme" Sample.alice (.integer 30) "unused" ""]
    (fun db => (db.requests.lookup 7).any (·.status = .paid) &&
      (requestTotals db.ledger 7).refund = 30) (by decide)
  simp only [Bool.and_eq_true, Option.any_eq_true, decide_eq_true_eq] at hcheck
  obtain ⟨⟨row, hrow, hpaid⟩, hrefund⟩ := hcheck
  exact ⟨db, row, hreach, hrow, hpaid, hrefund, (ledger_matches_status hreach hrow).1⟩

end WorkflowBoard.Marketing
