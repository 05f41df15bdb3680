import WorkflowBoard.Native.Spend

/-!
# What a spend transaction can do

An abstract machine for spend requests. `SpendMove` says what a transaction may do to
one request: the row it leaves behind, the ledger rows it appends and the return
operation it starts. `SpendEffect` lifts this to the store: nothing, a new pending
request, or one move of one request.

The invariants in the other modules are proved over moves and never look at the
transactions again.
-/

namespace WorkflowBoard.Marketing

variable {env : SpendEnv} {db db' : Db} {id : Uuid} {row row' : SpendRequest}

/-- A user may add this approval: not the requester and not an approver already. -/
def ApprovalAllowed (row : SpendRequest) (a : Approval) : Prop :=
  ¬ (row.requested_by_type = .user ∧ row.requested_by_id = a.user_id) ∧
    ∀ b ∈ row.approvals, b.user_id ≠ a.user_id

/-- The sums of a request as the transactions compute them, over the campaign's ledger. -/
def campaignTotals (db : Db) (id : Uuid) (row : SpendRequest) : Totals :=
  requestTotals (loadLedger db row.campaign_id) id

/-- The limits let the amount of the request through at this moment. -/
def WithinLimits (db : Db) (campaign : Campaign) (row : SpendRequest) (now : Date) : Prop :=
  spendViolations campaign.caps (loadLedger db row.campaign_id) now row.amount_minor row.currency
    row.channel_id ((activeAllocation db row.campaign_id row.channel_id).map (·.amount_minor)) = []

/-- A return is open: executing or unresolved. -/
def ReturnOpen (row : SpendRequest) : Prop :=
  row.return_status = .executing ∨ row.return_status = .unknown

/-- `SpendMove db id row row' rows ops`: in the store `db` the request `id` may go from `row`
    to `row'`, appending the ledger rows `rows` and starting the return operations `ops`. -/
inductive SpendMove (db : Db) (id : Uuid) (row : SpendRequest) :
    SpendRequest → List LedgerEntry → List Uuid → Prop where
  | firstApproval (a : Approval) :
      row.status = .pending → ApprovalAllowed row a →
      SpendMove db id row { row with approvals := row.approvals ++ [a] } [] []
  | finalApproval (a : Approval) (campaign : Campaign) (now : Date) (actor : MarketingActor) :
      row.status = .pending → ApprovalAllowed row a →
      db.campaigns.lookup row.campaign_id = some campaign →
      (dualRequired campaign row = true → 2 ≤ (row.approvals ++ [a]).length) →
      WithinLimits db campaign row now →
      SpendMove db id row
        { row with status := .approved, approvals := row.approvals ++ [a], decided_at := some now,
                   period_key := periodKey campaign.caps.budget_period now }
        [(ledgerBase id row (periodKey campaign.caps.budget_period now)).entry actor
          ⟨.reserve, row.amount_minor, .approved⟩] []
  | close (dest : SpendStatus) (now : Date) :
      row.status = .pending → dest = .denied ∨ dest = .expired ∨ dest = .cancelled →
      SpendMove db id row { row with status := dest, decided_at := some now } [] []
  | cancelApproved (actor : MarketingActor) :
      row.status = .approved →
      SpendMove db id row { row with status := .cancelled }
        ((releaseWrites (campaignTotals db id row) .cancelledBeforeSending).map
          ((ledgerBase id row row.period_key).entry actor)) []
  | claim (now : Date) :
      row.status = .approved →
      SpendMove db id row { row with status := .executing, executing_at := some now } [] []
  | settle (to_ : Settlement) (response : ProviderResponse) (actor : MarketingActor) :
      row.status = .approved ∨ row.status = .executing ∨ row.status = .unknown →
      SpendMove db id row (to_.set response row)
        ((to_.writes row (campaignTotals db id row)).map
          ((ledgerBase id row row.period_key).entry actor)) []
  | toUnknown (response : ProviderResponse) :
      row.status = .executing ∨ row.status = .unknown →
      SpendMove db id row { row with status := .unknown, provider_response := response } [] []
  | refund (amount : Nat) (note ref : String) (actor : MarketingActor) :
      row.status = .paid →
      (amount : Int) ≤ (campaignTotals db id row).capture - (campaignTotals db id row).refund →
      SpendMove db id row row
        [(ledgerBase id row row.period_key).entry actor ⟨.refund, amount, .refund note ref⟩] []
  | startReturn (op : ReturnOperation) (targetKey : String) :
      row.status = .paid → ¬ ReturnOpen row → op.id ∉ db.operations →
      SpendMove db id row
        { row with target_key := targetKey, return_status := .executing,
                   return_operation := some op } [] [op.id]
  | completeReturn (op : ReturnOperation) :
      ReturnOpen row → row.return_operation = some op →
      (op.amount_minor : Int) ≤
        (campaignTotals db id row).capture - (campaignTotals db id row).refund →
      SpendMove db id row { row with return_status := .completed }
        [(ledgerBase id row row.period_key).entry op.actor
          ⟨.refund, op.amount_minor, .returned op.note op.id⟩] []
  | closeReturn (status : ReturnStatus) :
      ReturnOpen row → status = .failed ∨ status = .unknown →
      SpendMove db id row { row with return_status := status } [] []

/-- A request as it is first stored. -/
def NewRequest (row : SpendRequest) : Prop :=
  row.status = .pending ∧ row.approvals = [] ∧ 0 < row.amount_minor ∧
    row.return_status = .none ∧ row.return_operation = none

/-- `db'` has the request table of `db` with `row` stored under `id`. -/
def Stored (db db' : Db) (id : Uuid) (row : SpendRequest) : Prop :=
  ∀ i, db'.requests.lookup i = if i = id then some row else db.requests.lookup i

/-- What a transaction does to the request table, the ledger and the operation ids. -/
inductive SpendEffect (db db' : Db) : Prop where
  | idle :
      db'.requests = db.requests → db'.ledger = db.ledger → db'.operations = db.operations →
      SpendEffect db db'
  | create (id : Uuid) (row : SpendRequest) :
      db.requests.lookup id = none → NewRequest row →
      Stored db db' id row → db'.ledger = db.ledger → db'.operations = db.operations →
      SpendEffect db db'
  | move (id : Uuid) (row row' : SpendRequest) (rows : List LedgerEntry) (ops : List Uuid) :
      db.requests.lookup id = some row → SpendMove db id row row' rows ops →
      Stored db db' id row' → db'.ledger = db.ledger ++ rows →
      db'.operations = ops ++ db.operations → SpendEffect db db'

/-! ## Inversion of the shared helpers -/

theorem stored_of_insert (h : db'.requests = db.requests.insert id row) : Stored db db' id row := by
  intro i
  rw [h]
  by_cases hi : i = id
  · rw [hi, AList.lookup_insert, if_pos rfl]
  · rw [AList.lookup_insert_ne hi, if_neg hi]

theorem stored_self (hrow : db.requests.lookup id = some row) (h : db'.requests = db.requests) :
    Stored db db' id row := by
  intro i
  rw [h]
  by_cases hi : i = id
  · rw [hi, if_pos rfl, hrow]
  · rw [if_neg hi]

@[simp] theorem setRequest_requests : (setRequest db id row).requests = db.requests.insert id row :=
  rfl

@[simp] theorem setRequest_ledger : (setRequest db id row).ledger = db.ledger := rfl

@[simp] theorem findRequest_eq_ok :
    findRequest db id = .ok row ↔ db.requests.lookup id = some row := by
  simp [findRequest]

variable {accountId : String} {actor : MarketingActor} {now : Date} {planProblem : Option String}
  {credentialOk : Bool} {operationId : Uuid} {report : SpendReport}

@[simp] theorem getRequest_eq_ok :
    getRequest db id accountId = .ok row ↔
      db.requests.lookup id = some row ∧ accountId ≠ "" ∧ row.account_id = accountId := by
  simp only [getRequest, bind_eq_ok, orThrow_eq_ok, require_eq_ok, pure_eq_ok]
  constructor
  · rintro ⟨r, hr, _, hacc, rfl⟩
    simpa [hr] using hacc
  · rintro ⟨hr, hacc⟩
    exact ⟨row, hr, (), by simpa using hacc, rfl⟩

theorem casUpdate_eq_some {s : SpendStatus} {set : SpendRequest → SpendRequest} :
    casUpdate db id s set = some db' ↔
      ∃ row, db.requests.lookup id = some row ∧ row.status = s ∧
        db' = setRequest db id (set row) := by
  unfold casUpdate
  cases h : db.requests.lookup id with
  | none => simp
  | some row =>
    by_cases hs : row.status = s
    · simp [hs, eq_comm]
    · simp [hs]

theorem moneyError_eq_ok {α : Type} {x : Except String α} {a : α} :
    moneyError x = .ok a ↔ x = .ok a := by
  cases x <;> simp [moneyError, Except.mapError]

theorem appendWrites_eq_ok {ledger : List LedgerEntry} {base : LedgerBase}
    {writes : List LedgerWrite}
    (h : appendWrites db ledger base writes actor = .ok db') :
    db' = { db with ledger := db.ledger ++ writes.map (base.entry actor) } := by
  unfold appendWrites at h
  split at h
  · rename_i hnil
    rw [pure_eq_ok] at h
    subst h
    simp [hnil]
  · exact appendLedger_eq_ok h

theorem rememberIssuedCard_frame {cardId : String}
    (h : rememberIssuedCard env db row cardId = .ok db') :
    db'.requests = db.requests ∧ db'.ledger = db.ledger ∧ db'.operations = db.operations := by
  simp only [rememberIssuedCard] at h
  split at h
  · simp only [bind_eq_ok, require_eq_ok, lockCampaign_eq_ok] at h
    obtain ⟨_, _, campaign, _, h⟩ := h
    split at h <;> rw [pure_eq_ok] at h <;> subst h <;> exact ⟨rfl, rfl, rfl⟩
  · rw [pure_eq_ok] at h
    subst h
    exact ⟨rfl, rfl, rfl⟩

theorem settle_effect {to_ : Settlement} {from_ : SpendStatus}
    {response : ProviderResponse} (hrow : db.requests.lookup id = some row)
    (hfrom : from_ = .approved ∨ from_ = .executing ∨ from_ = .unknown)
    (h : settle env db id row to_ actor from_ response = .ok db') : SpendEffect db db' := by
  simp only [settle, bind_eq_ok, orThrow_eq_ok, casUpdate_eq_some] at h
  obtain ⟨_, ⟨row₀, hrow₀, hs, rfl⟩, db₂, hcard, happ⟩ := h
  obtain rfl : row = row₀ := Option.some.inj (hrow.symm.trans hrow₀)
  have hframe : db₂.requests = db.requests.insert id (to_.set response row) ∧
      db₂.ledger = db.ledger ∧ db₂.operations = db.operations := by
    cases to_ with
    | paid ref => exact rememberIssuedCard_frame hcard
    | failed =>
      cases hcard
      exact ⟨rfl, rfl, rfl⟩
  obtain ⟨hreq, hled, hops⟩ := hframe
  have htot : requestTotals (loadLedger db₂ row.campaign_id) id = campaignTotals db id row := by
    simp only [campaignTotals, loadLedger, hled]
  rw [htot] at happ
  have hdb' := appendWrites_eq_ok happ
  subst hdb'
  exact .move id row _ _ [] hrow (.settle to_ response actor (hs ▸ hfrom)) (stored_of_insert hreq)
    (by simp [hled]) (by simp [hops])

/-! ## One lemma for each transaction -/

variable {prepared : Option (Payload × String)}

/-- The amount of a new request was parsed, so it is positive. -/
theorem requestFields_pos {campaignId : Uuid} {reads : RequestReads} {body : SpendBody}
    {fields : SpendFields} {payee : Payee}
    (h : requestFields env campaignId reads body actor now prepared = .ok (fields, payee)) :
    0 < fields.amount_minor := by
  simp only [requestFields, bind_eq_ok, moneyError_eq_ok, pure_eq_ok] at h
  obtain ⟨_, _, _, _, amount, hamount, h⟩ := h
  obtain ⟨_, _, _, _, _, _, _, _, _, _, _, _, _, _, _, _, _, _, hf⟩ := h
  obtain rfl := (Prod.mk.inj hf).1
  exact (parseMinorAmount_bounds hamount).1

theorem request_effect {campaignId : Uuid} {reads : RequestReads} {body : SpendBody} {newId : Uuid}
    (h : request env db campaignId reads body actor now prepared newId = .ok db') :
    SpendEffect db db' := by
  simp only [request, bind_eq_ok] at h
  obtain ⟨_, _, _, _, h⟩ := h
  split at h
  · rw [pure_eq_ok] at h
    subst h
    exact .idle rfl rfl rfl
  · simp only [bind_eq_ok, require_eq_ok, pure_eq_ok] at h
    obtain ⟨⟨fields, payee⟩, hfields, _, _, _, _, _, hfresh, rfl⟩ := h
    exact .create newId _ (by simpa using hfresh)
      ⟨rfl, rfl, requestFields_pos hfields, rfl, rfl⟩ (stored_of_insert rfl) rfl rfl

/-- What `approve` has checked when it goes on to write. -/
theorem approveChecks_spec {campaign : Campaign} {sha : String} {u : Unit}
    (h : approveChecks env db campaign row actor sha now planProblem = .ok u) :
    row.status = .pending ∧ ApprovalAllowed row ⟨actor.id, actor.name, now⟩ ∧
      WithinLimits db campaign row now := by
  simp only [approveChecks, bind_eq_ok, require_eq_ok, refuseIf_eq_ok] at h
  obtain ⟨_, hstatus, _, _, _, _, _, _, _, _, _, hself, _, hnew, _, _, _, _, _, _, hlimits⟩ := h
  refine ⟨by simpa using hstatus, ⟨?_, ?_⟩, by simpa [WithinLimits] using hlimits⟩
  · simpa [imp_iff_not_or] using hself
  · simpa using hnew

theorem approve_effect {sha : String} {final : Bool}
    (h : approve env db id accountId actor sha now planProblem = .ok (db', final)) :
    SpendEffect db db' := by
  simp only [approve, bind_eq_ok, getRequest_eq_ok, lockCampaign_eq_ok,
    findRequest_eq_ok] at h
  obtain ⟨_, _, pre, ⟨hpre, _⟩, campaign, hcampaign, row, hrow, _, hchecks, h⟩ := h
  obtain rfl : pre = row := Option.some.inj (hpre.symm.trans hrow)
  obtain ⟨hstatus, hallowed, hlimits⟩ := approveChecks_spec hchecks
  split at h
  · -- The first of two approvals: only the list of approvals grows.
    simp only [bind_eq_ok, orThrow_eq_ok, casUpdate_eq_some, pure_eq_ok,
      Prod.mk.injEq] at h
    obtain ⟨_, ⟨row₀, hrow₀, _, rfl⟩, rfl, _⟩ := h
    obtain rfl : pre = row₀ := Option.some.inj (hrow.symm.trans hrow₀)
    exact .move id pre _ [] [] hrow (.firstApproval _ hstatus hallowed) (stored_of_insert rfl)
      (by simp)
      rfl
  · rename_i hdual
    simp only [bind_eq_ok, orThrow_eq_ok, casUpdate_eq_some, pure_eq_ok,
      Prod.mk.injEq] at h
    obtain ⟨_, ⟨row₀, hrow₀, _, rfl⟩, db₂, happ, rfl, _⟩ := h
    obtain rfl : pre = row₀ := Option.some.inj (hrow.symm.trans hrow₀)
    obtain rfl := appendLedger_eq_ok happ
    refine .move id pre _ _ [] hrow
      (.finalApproval _ campaign now actor hstatus hallowed hcampaign ?_ hlimits)
      (stored_of_insert rfl) rfl rfl
    intro hreq
    rw [hreq, Bool.true_and, decide_eq_true_eq] at hdual
    exact Nat.le_of_not_lt hdual

theorem closePending_effect {dest : SpendStatus}
    (hdest : dest = .denied ∨ dest = .expired ∨ dest = .cancelled)
    (h : closePending db id accountId dest now = .ok db') : SpendEffect db db' := by
  simp only [closePending, bind_eq_ok, orThrow_eq_ok, casUpdate_eq_some] at h
  obtain ⟨_, _, row, hrow, hstatus, rfl⟩ := h
  exact .move id row _ [] [] hrow (.close dest now hstatus hdest) (stored_of_insert rfl)
    (by simp) rfl

theorem cancel_effect {seen : SpendStatus}
    (h : cancel db id accountId actor seen now = .ok db') : SpendEffect db db' := by
  unfold cancel at h
  split at h
  · exact closePending_effect (by simp) h
  · simp only [bind_eq_ok, getRequest_eq_ok, findRequest_eq_ok, orThrow_eq_ok,
      casUpdate_eq_some] at h
    obtain ⟨pre, ⟨hpre, _⟩, _, _, row, hrow, _, _, _, ⟨row₀, hrow₀, hstatus, rfl⟩, happ⟩ := h
    obtain rfl : row = row₀ := Option.some.inj (hrow.symm.trans hrow₀)
    obtain rfl := appendWrites_eq_ok happ
    exact .move id row _ _ [] hrow (.cancelApproved actor hstatus) (stored_of_insert rfl) rfl
      rfl

/-- A request a person may reconcile is approved or unknown. -/
theorem assertReconcilable_spec {u : Unit} (h : assertReconcilable row = .ok u) :
    row.status = .approved ∨ row.status = .executing ∨ row.status = .unknown := by
  simp only [assertReconcilable, require_eq_ok, Bool.or_eq_true, Bool.and_eq_true,
    decide_eq_true_eq] at h
  tauto

theorem markPaid_effect {ref receipt : String}
    (h : markPaid env db id accountId actor ref receipt = .ok db') : SpendEffect db db' := by
  simp only [markPaid, bind_eq_ok, findRequest_eq_ok] at h
  obtain ⟨_, _, _, _, _, _, _, _, row, hrow, _, hrec, hsettle⟩ := h
  exact settle_effect hrow (assertReconcilable_spec hrec) hsettle

theorem markFailed_effect {checked : Option String}
    (h : markFailed env db id accountId actor checked now = .ok db') : SpendEffect db db' := by
  simp only [markFailed, bind_eq_ok, findRequest_eq_ok] at h
  obtain ⟨_, _, _, _, row, hrow, _, hrec, _, _, _, _, hsettle⟩ := h
  exact settle_effect hrow (assertReconcilable_spec hrec) hsettle

theorem refund_effect {amount : RawAmount}
    {note ref : String} (h : refund db id accountId actor amount note ref = .ok db') :
    SpendEffect db db' := by
  simp only [refund, bind_eq_ok, moneyError_eq_ok, findRequest_eq_ok, require_eq_ok] at h
  obtain ⟨n, _, _, _, _, _, _, _, _, _, row, hrow, _, hpaid, _, hle, happ⟩ := h
  obtain rfl := appendLedger_eq_ok happ
  exact .move id row row _ [] hrow
    (.refund n _ _ actor (by simpa using hpaid) (by simpa [campaignTotals] using hle))
    (stored_self hrow rfl) rfl rfl

theorem executeClaim_effect {won : Bool}
    (h : executeClaim env db id planProblem now = .ok (db', won)) : SpendEffect db db' := by
  simp only [executeClaim, bind_eq_ok, findRequest_eq_ok] at h
  obtain ⟨row, hrow, h⟩ := h
  split at h
  · obtain ⟨rfl, _⟩ := Prod.mk.inj (pure_eq_ok.mp h)
    exact .idle rfl rfl rfl
  · simp only [bind_eq_ok] at h
    obtain ⟨_, _, h⟩ := h
    split at h
    · obtain ⟨rfl, _⟩ := Prod.mk.inj (pure_eq_ok.mp h)
      exact .idle rfl rfl rfl
    · split at h
      · simp only [bind_eq_ok, pure_eq_ok, Prod.mk.injEq] at h
        obtain ⟨_, hsettle, rfl, _⟩ := h
        exact settle_effect hrow (by simp) hsettle
      · split at h
        · rename_i hcas
          obtain ⟨rfl, _⟩ := Prod.mk.inj (pure_eq_ok.mp h)
          obtain ⟨row₀, hrow₀, hstatus, rfl⟩ := casUpdate_eq_some.mp hcas
          exact .move id row₀ _ [] [] hrow₀ (.claim now hstatus) (stored_of_insert rfl) (by simp)
            rfl
        · obtain ⟨rfl, _⟩ := Prod.mk.inj (pure_eq_ok.mp h)
          exact .idle rfl rfl rfl

theorem closeUnpersisted_effect (h : closeUnpersisted env db id = .ok db') :
    SpendEffect db db' := by
  simp only [closeUnpersisted, bind_eq_ok, findRequest_eq_ok] at h
  obtain ⟨row, hrow, _, _, h⟩ := h
  split at h
  · exact settle_effect hrow (by simp) h
  · obtain rfl := pure_eq_ok.mp h
    exact .idle rfl rfl rfl

theorem recordOutcome_effect {outcome : PaymentOutcome}
    (h : recordOutcome env db id outcome = .ok db') : SpendEffect db db' := by
  simp only [recordOutcome, bind_eq_ok, findRequest_eq_ok] at h
  obtain ⟨row, hrow, _, _, h⟩ := h
  split at h
  · obtain rfl := pure_eq_ok.mp h
    exact .idle rfl rfl rfl
  · rename_i hstatus
    have hopen : row.status = .executing ∨ row.status = .unknown := by tauto
    cases outcome with
    | paid ref receipt response => exact settle_effect hrow (.inr hopen) h
    | failed error response => exact settle_effect hrow (.inr hopen) h
    | unknown error response =>
      obtain rfl := pure_eq_ok.mp h
      exact .move id row _ [] [] hrow (.toUnknown response hopen) (stored_of_insert rfl) (by simp)
        rfl

theorem markInterrupted_effect (h : markInterrupted db id = .ok db') : SpendEffect db db' := by
  simp only [markInterrupted, bind_eq_ok, findRequest_eq_ok] at h
  obtain ⟨_, _, _, _, h⟩ := h
  split at h
  · rename_i hcas
    obtain rfl := pure_eq_ok.mp h
    obtain ⟨row, hrow, hstatus, rfl⟩ := casUpdate_eq_some.mp hcas
    exact .move id row _ [] [] hrow (.toUnknown row.provider_response (.inl hstatus))
      (stored_of_insert rfl) (by simp) rfl
  · obtain rfl := pure_eq_ok.mp h
    exact .idle rfl rfl rfl

theorem expire_effect (h : expire db id now = .ok db') : SpendEffect db db' := by
  simp only [expire, bind_eq_ok, findRequest_eq_ok] at h
  obtain ⟨_, _, h⟩ := h
  split at h
  · split at h
    · rename_i hcas
      obtain rfl := pure_eq_ok.mp h
      obtain ⟨row, hrow, hstatus, rfl⟩ := casUpdate_eq_some.mp hcas
      exact .move id row _ [] [] hrow (.close .expired now hstatus (by simp))
        (stored_of_insert rfl) (by simp) rfl
    · obtain rfl := pure_eq_ok.mp h
      exact .idle rfl rfl rfl
  · obtain rfl := pure_eq_ok.mp h
    exact .idle rfl rfl rfl

/-- A return starts on a paid request without an open return, under a fresh operation id. -/
theorem returnUnused_spec {body : ReturnBody}
    (h : returnUnused db id accountId actor body report credentialOk now operationId = .ok db') :
    ∃ row op key, db.requests.lookup id = some row ∧ op.id = operationId ∧
      SpendMove db id row { row with target_key := key, return_status := .executing,
                                     return_operation := some op } [] [operationId] ∧
      db' = setRequest { db with operations := operationId :: db.operations } id
        { row with target_key := key, return_status := .executing,
                   return_operation := some op } := by
  simp only [returnUnused, bind_eq_ok, findRequest_eq_ok, require_eq_ok,
    pure_eq_ok] at h
  obtain ⟨_, _, _, _, _, _, amount, _, pre, _, ⟨net, refundable⟩, _, h⟩ := h
  obtain ⟨_, _, _, _, _, _, _, _, _, hfresh, _, _, row, hrow, _, hstatus, _, _, _, _, hdb⟩ := h
  simp only [Bool.and_eq_true, decide_eq_true_eq, List.mem_cons, List.not_mem_nil, or_false]
    at hstatus hfresh
  exact ⟨row, _, _, hrow, rfl, .startReturn _ _ hstatus.1 hstatus.2 hfresh, hdb.symm⟩

theorem returnUnused_effect {body : ReturnBody}
    (h : returnUnused db id accountId actor body report credentialOk now operationId = .ok db') :
    SpendEffect db db' := by
  obtain ⟨row, op, key, hrow, -, hmove, rfl⟩ := returnUnused_spec h
  exact .move id row _ [] _ hrow hmove (stored_of_insert rfl) (by simp) rfl

theorem finishReturn_effect {outcome : PaymentOutcome}
    (h : finishReturn db id operationId outcome = .ok db') : SpendEffect db db' := by
  simp only [finishReturn, bind_eq_ok, findRequest_eq_ok] at h
  obtain ⟨row, hrow, _, _, h⟩ := h
  split at h
  · obtain rfl := pure_eq_ok.mp h
    exact .idle rfl rfl rfl
  · rename_i op hop
    split at h
    · obtain rfl := pure_eq_ok.mp h
      exact .idle rfl rfl rfl
    · rename_i hguard
      simp only [Bool.or_eq_true, decide_eq_true_eq, List.mem_cons, List.not_mem_nil, or_false,
        not_or, not_not] at hguard
      obtain ⟨rfl, hguard⟩ := hguard
      have hopen : ReturnOpen row := by
        unfold ReturnOpen
        tauto
      split at h
      · simp only [bind_eq_ok, require_eq_ok, pure_eq_ok] at h
        obtain ⟨_, hle, _, happ, rfl⟩ := h
        obtain rfl := appendLedger_eq_ok happ
        exact .move id row _ _ [] hrow
          (.completeReturn op hopen hop (by simpa [campaignTotals] using hle))
          (stored_of_insert rfl) rfl rfl
      · obtain rfl := pure_eq_ok.mp h
        exact .move id row _ [] [] hrow (.closeReturn .failed hopen (by simp))
          (stored_of_insert rfl) (by simp) rfl
      · obtain rfl := pure_eq_ok.mp h
        exact .move id row _ [] [] hrow (.closeReturn .unknown hopen (by simp))
          (stored_of_insert rfl) (by simp) rfl

theorem reconcileReturn_effect {confirm : Bool}
    {note : String} {failed noChange : Bool} {seen : SpendRequest}
    (h : reconcileReturn db id accountId actor confirm note failed noChange seen report
      credentialOk now = .ok db') : SpendEffect db db' := by
  simp only [reconcileReturn, bind_eq_ok] at h
  obtain ⟨_, _, _, _, _, _, op, _, _, _, ⟨_, refundable⟩, _, h⟩ := h
  split at h
  · simp only [bind_eq_ok] at h
    obtain ⟨_, _, _, _, h⟩ := h
    exact finishReturn_effect h
  · simp only [bind_eq_ok] at h
    obtain ⟨_, _, h⟩ := h
    exact finishReturn_effect h

/-- Every committed transaction of the service has a `SpendEffect`. -/
theorem spendSystem_effect {a : SpendAction} (h : (spendSystem env).step db a db') :
    SpendEffect db db' := by
  cases a with
  | request => exact request_effect h
  | approve =>
    obtain ⟨⟨db₁, final⟩, happrove, rfl⟩ := except_map_eq_ok.mp h
    exact approve_effect happrove
  | deny => exact closePending_effect (by simp) h
  | cancel => exact cancel_effect h
  | markPaid => exact markPaid_effect h
  | markFailed => exact markFailed_effect h
  | refund => exact refund_effect h
  | executeClaim =>
    obtain ⟨⟨db₁, won⟩, hclaim, rfl⟩ := except_map_eq_ok.mp h
    exact executeClaim_effect hclaim
  | closeUnpersisted => exact closeUnpersisted_effect h
  | recordOutcome => exact recordOutcome_effect h
  | markInterrupted => exact markInterrupted_effect h
  | expire => exact expire_effect h
  | returnUnused => exact returnUnused_effect h
  | finishReturn => exact finishReturn_effect h
  | reconcileReturn => exact reconcileReturn_effect h
  | configure =>
    cases h
    exact .idle rfl rfl rfl

/-! ## A small campaign

One channel with an allocation, one payee paid by hand and one through Meta Ads; the store
the runs in the other modules start from. -/

namespace Sample

def runtime : SpendEnv := ⟨fun s => s, fun s => s, fun _ => "sha"⟩

def payee : Payee := ⟨"ads", "act", none, none, none, none, [], none⟩

def metaPayee : Payee := ⟨"meta", "act_1/2", some .metaAds, some 5, none, none, [], none⟩

def campaign : Campaign where
  account_id := "acme"
  status := .active
  caps := ⟨"USD", 1000, .month, 500, 0⟩
  dual_approval_threshold_minor := 80
  payees := [payee, metaPayee]
  payment_provider := .manual
  payment_credential_id := none

def channel : Channel := ⟨1, "search", .active⟩

def start : Db where
  campaigns := (∅ : AList fun _ : Uuid => Campaign).insert 1 campaign
  channels := (∅ : AList fun _ : Uuid => Channel).insert 2 channel
  allocations := [⟨9, "acme", 1, 2, 300, "USD", .active⟩]
  requests := ∅
  ledger := []
  operations := []

def agent : MarketingActor := ⟨.agent, "bot", "Bot"⟩

def alice : MarketingActor := ⟨.user, "alice", "Alice"⟩

def bob : MarketingActor := ⟨.user, "bob", "Bob"⟩

def requestAds : SpendAction :=
  .request 1 ⟨campaign, some channel, [], some 300⟩
    ⟨"", 2, .integer 100, none, "ads", "launch", "clicks", ⟨"\x7b\x7d", none⟩⟩ agent
    1760000000000 none 7

def approveAds (actor : MarketingActor) : SpendAction :=
  .approve 7 "acme" actor "sha" 1760000001000 none

/-- A ceiling raise of 50 through Meta Ads, below the dual threshold. -/
def requestMeta : SpendAction :=
  .request 1 ⟨campaign, some channel, [], some 300⟩
    ⟨"", 2, .integer 50, none, "meta", "launch", "clicks", ⟨"\x7b\x7d", none⟩⟩ agent
    1760000000000 (some (⟨"plan", none⟩, "meta_ads:act_1/2")) 8

def payMeta : List SpendAction :=
  [requestMeta, .approve 8 "acme" alice "sha" 1760000001000 none,
    .executeClaim 8 none 1760000002000, .recordOutcome 8 (.paid "tx-8" "" .empty)]

def run (db : Db) (a : SpendAction) : Tx Db := a.run runtime db

/-- A run from the sample store ends in a reachable state. -/
theorem exists_reachable (as : List SpendAction) (p : Db → Bool)
    (h : (Transition.runList run start as).toOption.any p = true) :
    ∃ db, (spendSystem runtime).Reachable db ∧ p db = true := by
  obtain ⟨db, hpath, hp⟩ := Transition.exists_path_of_run (M := spendSystem runtime)
    (fun _ _ _ h => h) start as p h
  have hinit : (spendSystem runtime).init start := ⟨rfl, rfl, rfl⟩
  exact ⟨db, (Transition.Reachable.init hinit).path hpath, hp⟩

end Sample

end WorkflowBoard.Marketing
