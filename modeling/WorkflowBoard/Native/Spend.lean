import WorkflowBoard.ForStd.Transition
import WorkflowBoard.Native.Ledger

/-!
# Spend requests (`marketing-spend.service.ts`)

The state machine of a spend request, one function for each transaction of the
service. Operations that span several transactions with an external call between
them appear as their transactions: `execute` is `executeClaim`, the failed-flush
branch `closeUnpersisted` and `recordOutcome`; an unused-budget return is
`returnUnused` and `finishReturn`.

Values the service read before its transaction started may be stale by then. They
are arguments (`seen`, `reads`, `checked`), as are the clock, the provider's answers
and the outcome of the credential check; nothing is assumed about them.
-/

namespace WorkflowBoard.Marketing

def maxPayloadBytes : Nat := 8 * 1024

def spendRequestTtlMs : Int := 72 * 60 * 60000

def stuckExecutingMs : Int := 10 * 60000

def directApprovalMaxAgeMs : Int := 60 * 60000

def directFailGraceMs : Int := 15 * 60000

/-! ## Reads and single-row updates -/

/-- `get`: the request, if it belongs to the account. -/
def getRequest (db : Db) (id : Uuid) (accountId : String) : Tx SpendRequest := do
  let row ← orThrow (db.requests.lookup id) (marketingError 404 "spend request not found")
  require (accountId ≠ "" && row.account_id == accountId)
    (marketingError 404 "spend request not found")
  return row

def findRequest (db : Db) (id : Uuid) : Tx SpendRequest :=
  orThrow (db.requests.lookup id) (marketingError 404 "spend request not found")

def setRequest (db : Db) (id : Uuid) (row : SpendRequest) : Db :=
  { db with requests := db.requests.insert id row }

/-- `UPDATE … WHERE id = :id AND status = :s`; `none` when no row was affected. -/
def casUpdate (db : Db) (id : Uuid) (s : SpendStatus) (set : SpendRequest → SpendRequest) :
    Option Db :=
  match db.requests.lookup id with
  | some row => if row.status = s then some (setRequest db id (set row)) else none
  | none => none

def ledgerBase (id : Uuid) (row : SpendRequest) (key : String) : LedgerBase where
  account_id := row.account_id
  campaign_id := row.campaign_id
  channel_id := row.channel_id
  spend_request_id := id
  currency := row.currency
  period_key := key

/-- The rows the partial unique index on `target_key` covers. -/
def isOpenTarget (row : SpendRequest) : Bool :=
  row.status ∈ [.pending, .approved, .executing, .unknown] ||
    row.return_status ∈ [.executing, .unknown]

/-- Storing an open row under `id` with this key would violate the unique index. -/
def targetTaken (db : Db) (id : Uuid) (key : String) : Bool :=
  key ≠ "" && db.requests.entries.any fun e =>
    e.1 ≠ id && e.2.target_key == key && isOpenTarget e.2

/-- Why a request no longer has the payment route it was requested with. -/
def routeProblem (env : SpendEnv) (campaign : Campaign) (row : SpendFields) : Option String :=
  match findPayee env campaign.payees row.payee with
  | none => some ("payee \"" ++ row.payee ++ "\" is no longer on the campaign allowlist")
  | some payee =>
    if sameRoute row
      (payeeRoute campaign.payment_provider campaign.payment_credential_id payee) then
      directPayeeProblem env row payee
    else
      some ("payee \"" ++ row.payee ++ "\" now has a different payment method, credential or " ++
        "target than when this was requested — ask for a new request")

/-- The id of the card the execution recorded, or the empty text. -/
def recordedCardId (row : SpendRequest) : String :=
  row.provider_response.card_id.getD ""

/-! ## Request -/

structure SpendBody where
  dedupe_key : String
  channel_id : Uuid
  amount_minor : RawAmount
  currency : Option String
  payee : String
  purpose : String
  expected_outcome : String
  payload : Payload

/-- What `request` read before it saves: the campaign, the channel, the ledger of the
    campaign and the channel's active allocation. -/
structure RequestReads where
  campaign : Campaign
  channel : Option Channel
  ledger : List LedgerEntry
  allocation : Option Nat

/-- `/^[A-Za-z0-9:_.-]{1,120}$/`. -/
def isDedupeKey (s : String) : Bool :=
  1 ≤ s.toList.length && s.toList.length ≤ 120 &&
    s.toList.all fun c => c.isAlphanum || c ∈ [':', '_', '.', '-']

/-- The row `request` saves. -/
def pendingRow (env : SpendEnv) (campaign : Campaign) (fields : SpendFields) (targetKey : String)
    (dedupeKey : String) (actor : MarketingActor) (now : Date) : SpendRequest where
  toSpendFields := fields
  account_id := campaign.account_id
  target_key := targetKey
  payload_sha256 := env.spendPayloadHash fields
  status := .pending
  dedupe_key := dedupeKey
  requested_by_type := if actor.type = .agent then .agent else .user
  requested_by_id := actor.id
  dual_required := campaign.dual_approval_threshold_minor > 0 &&
    fields.amount_minor ≥ campaign.dual_approval_threshold_minor
  approvals := []
  decided_at := none
  expires_at := now + spendRequestTtlMs
  period_key := ""
  executing_at := none
  provider_ref := ""
  provider_response := .empty
  return_status := .none
  return_operation := none

def moneyError {α : Type} (x : Except String α) : Tx α :=
  x.mapError (marketingError 400)

def payeeNotAllowed (campaign : Campaign) (name : String) : MarketingError :=
  let names :=
    if campaign.payees = [] then "empty" else ", ".intercalate (campaign.payees.map (·.name))
  marketingError 400 ("payee \"" ++ name ++
        s!"\" is not on the campaign's payee allowlist ({names})" ++
    " — a human adds payees")

/-- The fields of a new request and its payee: every check of the body, the payee's route
    and, for a direct provider, the plan `prepareDirect` made. -/
def requestFields (env : SpendEnv) (campaignId : Uuid) (reads : RequestReads) (body : SpendBody)
    (actor : MarketingActor) (now : Date) (prepared : Option (Payload × String)) :
    Tx (SpendFields × Payee) := do
  let campaign := reads.campaign
  let channel ← orThrow reads.channel (marketingError 404 "channel not found in this campaign")
  require (channel.status = .active) (marketingError 409
    ("channel \"" ++ channel.name ++
      s!"\" is {channel.status.text} — only active channels can be used"))
  let amount ← moneyError (parseMinorAmount body.amount_minor "amount_minor")
  let currency ← moneyError
    (normalizeCurrency env (body.currency.getD campaign.caps.currency) "currency")
  let payeeName := trimText body.payee
  let payee ← orThrow (if payeeName = "" then none else findPayee env campaign.payees payeeName)
    (payeeNotAllowed campaign payeeName)
  let route := payeeRoute campaign.payment_provider campaign.payment_credential_id payee
  let purpose := trimText body.purpose
  require (purpose ≠ "" && utf16Length purpose ≤ 2000)
    (marketingError 400 "purpose is required (max 2000 characters)")
  let expected := trimText body.expected_outcome
  require (utf16Length expected ≤ 2000)
    (marketingError 400 "expected_outcome must be at most 2000 characters")
  require (actor.type ≠ .agent || expected ≠ "") (marketingError 400
    "expected_outcome is required — say what this spend should achieve and how you will measure it")
  require (body.payload.text.utf8ByteSize ≤ maxPayloadBytes)
    (marketingError 400 s!"payload must be at most {maxPayloadBytes} bytes")
  require (!route.provider.isDirect || body.payload.text = "\x7b\x7d")
    (marketingError 400 ("payee \"" ++ payee.name ++
      s!"\" is paid through {route.provider.label} — " ++
      "omit payload; the server reads the target and builds the exact change people approve"))
  let violations :=
    spendViolations campaign.caps reads.ledger now amount currency body.channel_id reads.allocation
  require (violations = []) (marketingError 409
    ("spend request refused: " ++ "; ".intercalate violations))
  let payload ← orThrow
    (if route.provider.isDirect then prepared.map (·.1) else some body.payload)
    (marketingError 409 s!"{route.provider.label} check failed")
  let fields : SpendFields := {
    campaign_id := campaignId, channel_id := body.channel_id, amount_minor := amount,
    currency, payee := payee.name, payee_ref := route.ref, purpose,
    provider := route.provider, provider_credential_id := route.credential_id, payload }
  return (fields, payee)

/-- A reusable card: the route is checked again under the campaign lock. -/
def recheckRoute (env : SpendEnv) (db : Db) (fields : SpendFields) (payee : Payee) : Tx Unit :=
  if fields.provider = .stripeIssuing && payee.card_single_use = some false then do
    let fresh ← lockCampaign db fields.campaign_id
    refuseIf (routeProblem env fresh fields) (marketingError 409)
  else
    pure ()

/-- `request`. A request with the same `dedupe_key` wins: nothing is saved. -/
def request (env : SpendEnv) (db : Db) (campaignId : Uuid) (reads : RequestReads)
    (body : SpendBody) (actor : MarketingActor) (now : Date)
    (prepared : Option (Payload × String)) (newId : Uuid) : Tx Db := do
  let campaign := reads.campaign
  require (campaign.status = .active) (marketingError 409
    s!"campaign is {campaign.status.text} — spend can be requested only on an active campaign")
  let dedupeKey := trimText body.dedupe_key
  require (dedupeKey = "" || isDedupeKey dedupeKey) (marketingError 400
    "dedupe_key must be 1-120 chars of letters, digits, \":\", \"_\", \".\", \"-\"")
  -- Both the read before the checks and the unique index at the insert end here.
  if dedupeKey ≠ "" && db.requests.entries.any fun e =>
      e.2.campaign_id == campaignId && e.2.dedupe_key == dedupeKey then
    return db
  let (fields, payee) ← requestFields env campaignId reads body actor now prepared
  let targetKey := if fields.provider.isDirect then (prepared.map (·.2)).getD "" else ""
  let pending := pendingRow env campaign fields targetKey dedupeKey actor now
  recheckRoute env db fields payee
  require (!targetTaken db newId targetKey) (marketingError 409
    "another spend request for this target is still open — wait until it is decided or reconciled")
  -- The database generates the id: no row has it yet.
  require (db.requests.lookup newId = none) (marketingError 409 "duplicate key")
  return setRequest db newId pending

/-! ## Decisions -/

/-- Dual approval is required: fixed at request time or by the threshold as it is now. -/
def dualRequired (campaign : Campaign) (row : SpendRequest) : Bool :=
  row.dual_required || (campaign.dual_approval_threshold_minor > 0 &&
    row.amount_minor ≥ campaign.dual_approval_threshold_minor)

/-- Every check of `approve` under the campaign lock. -/
def approveChecks (env : SpendEnv) (db : Db) (campaign : Campaign) (row : SpendRequest)
    (actor : MarketingActor) (payloadSha256 : String) (now : Date) (planProblem : Option String) :
    Tx Unit := do
  require (row.status = .pending)
    (marketingError 409 s!"spend request is {row.status.text}, not pending")
  require (now < row.expires_at) (marketingError 409 "spend request has expired")
  require (payloadSha256 ≠ "" && payloadSha256 == row.payload_sha256) (marketingError 409
    "payload_sha256 does not match this request — reload and review it again")
  require (env.spendPayloadHash row.toSpendFields == row.payload_sha256) (marketingError 409
    "stored request does not match its hash — refusing to approve")
  require (campaign.status = .active) (marketingError 409 s!"campaign is {campaign.status.text}")
  require (!(row.requested_by_type = .user && row.requested_by_id == actor.id))
    (marketingError 403 "the person who requested a spend cannot approve it")
  require (!row.approvals.any fun a => a.user_id == actor.id) (marketingError 409
    "you have already approved this request — a different person must give the second approval")
  refuseIf (routeProblem env campaign row.toSpendFields) (marketingError 409)
  refuseIf (if row.provider.isDirect then planProblem else none)
    fun problem => marketingError 409 ("cannot approve: " ++ problem)
  let channel := db.channels.lookup row.channel_id
  require (channel.any (·.status = .active)) (marketingError 409
    ("the channel is " ++ (channel.map (·.status.text)).getD "gone" ++
      " — only active channels can be paid for"))
  let violations := spendViolations campaign.caps (loadLedger db row.campaign_id) now
    row.amount_minor row.currency row.channel_id
    ((activeAllocation db row.campaign_id row.channel_id).map (·.amount_minor))
  require (violations = []) (marketingError 409
    ("cannot approve: " ++ "; ".intercalate violations))

/-- `approve`. The result says whether the approval was final; under dual approval the
    first one is only recorded. -/
def approve (env : SpendEnv) (db : Db) (id : Uuid) (accountId : String) (actor : MarketingActor)
    (payloadSha256 : String) (now : Date) (planProblem : Option String) : Tx (Db × Bool) := do
  require (actor.type = .user && actor.id ≠ "")
    (marketingError 403 "only a signed-in person can approve spend")
  let pre ← getRequest db id accountId
  let campaign ← lockCampaign db pre.campaign_id
  let row ← findRequest db id
  approveChecks env db campaign row actor payloadSha256 now planProblem
  let approvals := row.approvals ++ [⟨actor.id, actor.name, now⟩]
  if dualRequired campaign row && approvals.length < 2 then
    let db ← orThrow (casUpdate db id .pending fun r => { r with approvals := approvals })
      (marketingError 409 "spend request was decided concurrently")
    return (db, false)
  let key := periodKey campaign.caps.budget_period now
  let ledger := loadLedger db row.campaign_id
  let db ← orThrow
    (casUpdate db id .pending fun r =>
      { r with status := .approved, approvals := approvals, decided_at := some now,
               period_key := key })
    (marketingError 409 "spend request was decided concurrently")
  let db ← appendLedger db ledger (ledgerBase id row key)
    [⟨.reserve, row.amount_minor, .approved⟩] actor
  return (db, true)

/-- `closePending`: deny or cancel a request nobody approved yet. -/
def closePending (db : Db) (id : Uuid) (accountId : String) (dest : SpendStatus) (now : Date) :
    Tx Db := do
  let row ← getRequest db id accountId
  orThrow (casUpdate db id .pending fun r => { r with status := dest, decided_at := some now })
    (marketingError 409 s!"spend request is {row.status.text}, not pending")

def deny (db : Db) (id : Uuid) (accountId : String) (now : Date) : Tx Db :=
  closePending db id accountId .denied now

/-- The release of what a request still holds, if it holds anything. -/
def releaseWrites (totals : Totals) (note : LedgerNote) : List LedgerWrite :=
  if totals.release < totals.reserve then
    [⟨.release, totals.reserve - totals.release, note⟩]
  else
    []

/-- Append, unless there is nothing to write. -/
def appendWrites (db : Db) (ledger : List LedgerEntry) (base : LedgerBase)
    (writes : List LedgerWrite) (actor : MarketingActor) : Tx Db :=
  if writes = [] then return db else appendLedger db ledger base writes actor

/-- `cancel`: `seen` is the status read before the transaction. -/
def cancel (db : Db) (id : Uuid) (accountId : String) (actor : MarketingActor)
    (seen : SpendStatus) (now : Date) : Tx Db := do
  if seen ≠ .approved then
    closePending db id accountId .cancelled now
  else
    let pre ← getRequest db id accountId
    let _ ← lockCampaign db pre.campaign_id
    let row ← findRequest db id
    require (row.status = .approved) (marketingError 409
      s!"spend request is {row.status.text} — it can no longer be cancelled")
    let db ← orThrow (casUpdate db id .approved fun r => { r with status := .cancelled })
      (marketingError 409 "spend request changed concurrently")
    let ledger := loadLedger db row.campaign_id
    appendWrites db ledger (ledgerBase id row row.period_key)
      (releaseWrites (requestTotals ledger id) .cancelledBeforeSending) actor

/-! ## Settlement -/

/-- Give the first payee of that name a card. -/
def bindCard (env : SpendEnv) (name cardId : String) : List Payee → List Payee
  | [] => []
  | p :: ps =>
    if env.toLowerCase p.name == env.toLowerCase (trimText name) then
      { p with card_id := some cardId } :: ps
    else
      p :: bindCard env name cardId ps

/-- Bind a first reusable card to its payee; a person's replacement is not overwritten. -/
def rememberIssuedCard (env : SpendEnv) (db : Db) (row : SpendRequest) (cardId : String) :
    Tx Db :=
  let firstIssue := row.payload.card.any fun plan =>
    !plan.single_use && plan.card_id.getD "" = ""
  if row.provider = .stripeIssuing && firstIssue then do
    require (isCardId cardId) (marketingError 409
      "record the Stripe card id (ic_…) to bind this reusable card to its payee")
    let campaign ← lockCampaign db row.campaign_id
    if (routeProblem env campaign row.toSpendFields).isSome then
      return db
    else
      let campaign := { campaign with payees := bindCard env row.payee cardId campaign.payees }
      return { db with campaigns := db.campaigns.insert row.campaign_id campaign }
  else
    return db

inductive Settlement where
  | paid (providerRef : String)
  | failed
deriving DecidableEq

/-- The columns a settlement sets. -/
def Settlement.set (to_ : Settlement) (response : ProviderResponse) (row : SpendRequest) :
    SpendRequest :=
  match to_ with
  | .paid ref => { row with status := .paid, provider_ref := ref, provider_response := response }
  | .failed => { row with status := .failed, provider_response := response }

/-- The rows of a settlement: paid is release and capture, failed is release. -/
def Settlement.writes (to_ : Settlement) (row : SpendRequest) (totals : Totals) :
    List LedgerWrite :=
  match to_ with
  | .paid ref =>
    releaseWrites totals .convertedToCapture ++
      [⟨.capture, row.amount_minor, if ref = "" then .paid else .txn ref⟩]
  | .failed => releaseWrites totals .paymentFailed

/-- A paid settlement remembers the card it issued. -/
def Settlement.remember (to_ : Settlement) (env : SpendEnv) (db : Db) (row : SpendRequest) :
    Tx Db :=
  match to_ with
  | .paid ref => rememberIssuedCard env db row ref
  | .failed => .ok db

/-- `settle`: the status change, the card and the ledger rows in one transaction. -/
def settle (env : SpendEnv) (db : Db) (id : Uuid) (row : SpendRequest) (to_ : Settlement)
    (actor : MarketingActor) (from_ : SpendStatus) (response : ProviderResponse) : Tx Db := do
  let db ← orThrow (casUpdate db id from_ (to_.set response))
    (marketingError 409 "spend request changed concurrently")
  let db ← to_.remember env db row
  let ledger := loadLedger db row.campaign_id
  appendWrites db ledger (ledgerBase id row row.period_key)
    (to_.writes row (requestTotals ledger id)) actor

/-- Only an approved request of the manual provider or an unknown one is reconciled by a
    person. -/
def assertReconcilable (row : SpendRequest) : Tx Unit :=
  require (row.status = .unknown || (row.status = .approved && row.provider = .manual))
    (marketingError 409 (if row.status = .approved then
      "this request is executed by the server — wait for its result (or reconcile it once it " ++
        "is unknown)"
    else
      s!"spend request is {row.status.text} — only approved (manual) or unknown requests can be " ++
        "reconciled"))

/-- The provider may still show a late change: no failure within the grace period. -/
def assertFailureRecordable (row : SpendRequest) (now : Date) : Tx Unit :=
  match row.executing_at with
  | some executingAt =>
    let allowedAt := executingAt + directFailGraceMs
    let label := row.provider.label
    let at_ := Date.toISOString allowedAt
    require (row.status ≠ .unknown || !row.provider.isDirect || allowedAt ≤ now)
      (marketingError 409 (if row.provider.isCard then
        s!"a card request without a clear answer can still show up at {label} — record a " ++
          s!"failure after {at_}, once \"inspect\" finds no card for this request (record " ++
          "\"paid\" now if it shows the card)"
      else
        s!"a ceiling change can take up to 15 minutes to show on {label} — record a failure " ++
          s!"after {at_}, once \"inspect\" still shows the old value (record \"paid\" now if it " ++
          "already shows the new one)"))
  | none => pure ()

def isHttpUrl (s : String) : Bool :=
  "http://".toList.isPrefixOf s.toList || "https://".toList.isPrefixOf s.toList

/-- `markPaid`: a person records the payment, with the transaction id. -/
def markPaid (env : SpendEnv) (db : Db) (id : Uuid) (accountId : String) (actor : MarketingActor)
    (providerRef receiptUrl : String) : Tx Db := do
  let ref := sliceText 200 (trimText providerRef)
  require (ref ≠ "") (marketingError 400 "provider_ref (the payment/transaction id) is required")
  let receipt := trimText receiptUrl
  require (receipt = "" || isHttpUrl receipt)
    (marketingError 400 "receipt_url must be an http(s) URL")
  let pre ← getRequest db id accountId
  let _ ← lockCampaign db pre.campaign_id
  let row ← findRequest db id
  assertReconcilable row
  settle env db id row (.paid ref) actor row.status .empty

/-- `markFailed`: `checked` is the card id of the row the card check looked at, if the
    check was made. -/
def markFailed (env : SpendEnv) (db : Db) (id : Uuid) (accountId : String)
    (actor : MarketingActor) (checked : Option String) (now : Date) : Tx Db := do
  let pre ← getRequest db id accountId
  let _ ← lockCampaign db pre.campaign_id
  let row ← findRequest db id
  assertReconcilable row
  assertFailureRecordable row now
  require (!row.provider.isCard || checked = some (recordedCardId row)) (marketingError 409
    "the request changed while its card was being checked — reload and try again")
  settle env db id row .failed actor row.status .empty

/-- `refund`: within what was captured; direct providers return unused budget instead. -/
def refund (db : Db) (id : Uuid) (accountId : String) (actor : MarketingActor)
    (amountMinor : RawAmount) (note providerRef : String) : Tx Db := do
  let amount ← moneyError (parseMinorAmount amountMinor "amount_minor")
  let note := sliceText 1000 (trimText note)
  require (note ≠ "") (marketingError 400 "note is required (why the money came back)")
  let ref := sliceText 200 (trimText providerRef)
  let pre ← getRequest db id accountId
  require (!pre.provider.isDirect) (marketingError 409 (pre.provider.label ++
    (if pre.provider.isCard then
      " issued a card with that limit — returning unused budget needs the card to be canceled " ++
        "and its spending reconciled"
    else
      " raised a spending ceiling — returning unused budget needs the ceiling to be lowered " ++
        "first") ++
    ", use the spending reconciliation and return-unused action; the ledger keeps the full " ++
    "approved amount"))
  let _ ← lockCampaign db pre.campaign_id
  let row ← findRequest db id
  require (row.status = .paid) (marketingError 409
    s!"only paid requests can be refunded (this one is {row.status.text})")
  let ledger := loadLedger db row.campaign_id
  let totals := requestTotals ledger id
  require ((amount : Int) ≤ totals.capture - totals.refund)
    (marketingError 409 (s!"refund {formatMinorAmount amount row.currency} exceeds what is left " ++
      s!"to refund {formatMinorAmount (totals.capture - totals.refund) row.currency}"))
  appendLedger db ledger (ledgerBase id row row.period_key)
    [⟨.refund, amount, .refund note ref⟩] actor

/-! ## Unused-budget returns -/

/-- What `spendingReconciliation` finds refundable: the net capture, within what the target
    has left over its spending. A card's spending counts in full against the request. -/
def refundableMinor (row : SpendRequest) (net : Int) (report : SpendReport) : Int :=
  let exposure := report.spend_minor + report.pending_minor
  if row.provider = .stripeIssuing then
    max 0 (min (net - exposure) (report.ceiling_minor - exposure))
  else
    max 0 (min net (report.ceiling_minor - exposure))

/-- `spendingReconciliation`, up to the display fields: net capture and refundable amount.
    `credentialOk`: the credential resolves and has the fingerprint of the plan. -/
def spendingReconciliation (db : Db) (id : Uuid) (row : SpendRequest) (report : SpendReport)
    (credentialOk : Bool) : Tx (Int × Int) := do
  require (row.provider.isDirect && row.status = .paid)
    (marketingError 409 "only paid direct-provider requests can return unused budget")
  require credentialOk
    (marketingError 409 "the payment credential changed; reconcile using the original credential")
  let totals := requestTotals db.ledger id
  let net : Int := totals.capture - totals.refund
  require (isSafeInteger (report.spend_minor + report.pending_minor))
    (marketingError 409 "provider exposure exceeds safe integer range")
  return (net, refundableMinor row net report)

structure ReturnBody where
  confirm : Bool
  note : String
  amount_minor : RawAmount
  expected_ceiling : String
  expected_net_capture_minor : Int

/-- A person acts: signed in, with an id. -/
def isPerson (actor : MarketingActor) : Bool := actor.type = .user && actor.id ≠ ""

/-- `returnUnused` up to its commit: the claim of the target, before anything is sent. -/
def returnUnused (db : Db) (id : Uuid) (accountId : String) (actor : MarketingActor)
    (body : ReturnBody) (report : SpendReport) (credentialOk : Bool) (now : Date)
    (operationId : Uuid) : Tx Db := do
  require (isPerson actor) (marketingError 403 "a human must approve unused-budget returns")
  require body.confirm (marketingError 400 "explicit confirmation is required")
  let note := sliceText 1000 (trimText body.note)
  require (note ≠ "") (marketingError 400 "note is required")
  let amount ← moneyError (parseMinorAmount body.amount_minor "amount_minor")
  let pre ← getRequest db id accountId
  let (net, refundable) ← spendingReconciliation db id pre report credentialOk
  require (body.expected_ceiling == report.ceiling_units)
    (marketingError 409 "the ceiling changed; read the spending reconciliation again")
  require (isSafeInteger body.expected_net_capture_minor && body.expected_net_capture_minor == net)
    (marketingError 409 "the refundable ledger balance changed; read the reconciliation again")
  require (report.complete && (amount : Int) ≤ refundable)
    (marketingError 409 "amount exceeds the verified unused budget")
  let cardId := report.card_id.getD ""
  let targetKey :=
    if pre.provider = .stripeIssuing then "stripe_issuing:" ++ cardId else pre.target_key
  require (targetKey ≠ "" && (pre.provider ≠ .stripeIssuing || isCardId cardId))
    (marketingError 409 "the provider target could not be identified")
  -- `randomUUID`: an id no operation has had.
  require (operationId ∉ db.operations) (marketingError 500 "randomUUID")
  let operation : ReturnOperation := {
    id := operationId, amount_minor := amount, expected_ceiling := report.ceiling_units,
    expected_ceiling_minor := report.ceiling_minor, expected_status := report.status,
    expected_net_capture_minor := net, note, actor, started_at := now }
  let _ ← lockCampaign db pre.campaign_id
  let row ← findRequest db id
  require (row.status = .paid && row.return_status ∉ [.executing, .unknown])
    (marketingError 409 "a return is already executing or needs reconciliation")
  let totals := requestTotals (loadLedger db row.campaign_id) id
  let left : Int := totals.capture - totals.refund
  require (body.expected_net_capture_minor == left && (amount : Int) ≤ left &&
      (row.provider ≠ .stripeIssuing ||
        (amount : Int) ≤ left - report.spend_minor - report.pending_minor))
    (marketingError 409 "the refundable balance changed")
  require (!targetTaken db id targetKey)
    (marketingError 409 "this target already has an open spend or return operation")
  let db := { db with operations := operationId :: db.operations }
  return setRequest db id
    { row with target_key := targetKey, return_status := .executing,
               return_operation := some operation }

/-- A card return is recorded only if the card is canceled and its spending leaves room. -/
def provenOutcome (row : SpendRequest) (op : ReturnOperation) (totals : Totals)
    (outcome : PaymentOutcome) : PaymentOutcome :=
  match outcome with
  | .paid _ _ response =>
    let proven := response.report.any fun latest =>
      latest.complete && latest.status == "canceled" &&
        (op.amount_minor : Int) ≤
          totals.capture - totals.refund - latest.spend_minor - latest.pending_minor
    if row.provider = .stripeIssuing && !proven then
      .unknown "post-cancellation exposure exceeds this request attribution; no refund recorded"
        response
    else
      outcome
  | _ => outcome

/-- `finishReturn`: nothing happens unless this very operation is still open. -/
def finishReturn (db : Db) (id : Uuid) (operationId : Uuid) (outcome : PaymentOutcome) :
    Tx Db := do
  let row ← findRequest db id
  let _ ← lockCampaign db row.campaign_id
  match row.return_operation with
  | none => return db
  | some op =>
    if op.id ≠ operationId || row.return_status ∉ [.executing, .unknown] then
      return db
    else
      let ledger := loadLedger db row.campaign_id
      let totals := requestTotals ledger id
      match provenOutcome row op totals outcome with
      | .paid .. =>
        require ((op.amount_minor : Int) ≤ totals.capture - totals.refund)
          (marketingError 409 "refund exceeds the remaining capture")
        let db ← appendLedger db ledger (ledgerBase id row row.period_key)
          [⟨.refund, op.amount_minor, .returned op.note operationId⟩] op.actor
        return setRequest db id { row with return_status := .completed }
      | .failed .. => return setRequest db id { row with return_status := .failed }
      | .unknown .. => return setRequest db id { row with return_status := .unknown }

/-- `reconcileReturn`: a person closes an unresolved return by reading the provider back. `seen` is
    the row as read before, and its operation is the one that is finished. -/
def reconcileReturn (db : Db) (id : Uuid) (accountId : String) (actor : MarketingActor)
    (confirm : Bool) (note : String) (closeAsFailed confirmNoChange : Bool) (seen : SpendRequest)
    (report : SpendReport) (credentialOk : Bool) (now : Date) : Tx Db := do
  require (isPerson actor) (marketingError 403 "a human must reconcile returns")
  require (confirm && trimText note ≠ "")
    (marketingError 400 "confirmation and a reconciliation note are required")
  let _ ← getRequest db id accountId
  let op ← orThrow (if seen.return_status ∈ [.executing, .unknown] then seen.return_operation
      else none) (marketingError 409 "there is no unresolved return")
  require (seen.return_status ≠ .executing || stuckExecutingMs ≤ now - op.started_at)
    (marketingError 409 "the return is still executing; wait before reconciliation")
  let (_, refundable) ← spendingReconciliation db id seen report credentialOk
  let response : ProviderResponse := ⟨none, some report⟩
  if closeAsFailed then
    require (confirmNoChange && directFailGraceMs ≤ now - op.started_at)
      (marketingError 409 "confirm no change after the 15-minute provider grace period")
    require (report.complete && report.ceiling_units == op.expected_ceiling &&
        (seen.provider ≠ .stripeIssuing || report.status == op.expected_status))
      (marketingError 409 "the provider state changed; this return cannot be closed as unchanged")
    finishReturn db id op.id
      (.failed "human confirmed unchanged provider state after grace period" response)
  else
    let proven := if seen.provider = .stripeIssuing then
        report.status == "canceled" && report.complete && (op.amount_minor : Int) ≤ refundable
      else
        report.complete && report.ceiling_minor == op.expected_ceiling_minor - op.amount_minor
    require proven (marketingError 409
      ("the provider does not yet prove this return; keep the target locked and reconcile its " ++
        "state on the provider"))
    finishReturn db id op.id (.paid (toString op.id) "" response)

/-! ## Execution -/

/-- Why an approved request may not be sent now. -/
def executeBlocker (env : SpendEnv) (db : Db) (campaign : Campaign) (row : SpendRequest)
    (planProblem : Option String) (now : Date) : Option String :=
  let channel := db.channels.lookup row.channel_id
  if campaign.status ≠ .active then
    some s!"the campaign is {campaign.status.text}"
  else if let some problem := routeProblem env campaign row.toSpendFields then
    some problem
  else if !channel.any (·.status = .active) then
    some ("the channel is " ++ (channel.map (·.status.text)).getD "gone")
  else if env.spendPayloadHash row.toSpendFields ≠ row.payload_sha256 then
    some "the stored request no longer matches the approved hash"
  else if row.provider.isDirect then
    if planProblem.isSome then planProblem
    else if row.decided_at.all (now - · > directApprovalMaxAgeMs) then
      some ("it was approved more than an hour ago — a stale approval is not executed; ask for " ++
        "a new request")
    else none
  else
    none

/-- The first transaction of `execute`. The result says whether this executor won the claim;
    only then does it go on to send. -/
def executeClaim (env : SpendEnv) (db : Db) (id : Uuid) (planProblem : Option String)
    (now : Date) : Tx (Db × Bool) := do
  let row ← findRequest db id
  if !row.provider.isAutomatic then
    return (db, false)
  let campaign ← lockCampaign db row.campaign_id
  if row.status ≠ .approved then
    return (db, false)
  match executeBlocker env db campaign row planProblem now with
  | some _ =>
    let db ← settle env db id row .failed systemMarketingActor .approved .empty
    return (db, false)
  | none =>
    match casUpdate db id .approved fun r =>
        { r with status := .executing, executing_at := some now } with
    | some db => return (db, true)
    | none => return (db, false)

/-- The claim could not be made durable: nothing was sent, so the request fails. -/
def closeUnpersisted (env : SpendEnv) (db : Db) (id : Uuid) : Tx Db := do
  let row ← findRequest db id
  let _ ← lockCampaign db row.campaign_id
  if row.status = .executing then
    settle env db id row .failed systemMarketingActor .executing .empty
  else
    return db

/-- `recordOutcome`. A result that comes after a person reconciled the request changes
    nothing; one that comes after the system gave up settles the unknown request. -/
def recordOutcome (env : SpendEnv) (db : Db) (id : Uuid) (outcome : PaymentOutcome) :
    Tx Db := do
  let row ← findRequest db id
  let _ ← lockCampaign db row.campaign_id
  if row.status ≠ .executing ∧ row.status ≠ .unknown then
    return db
  else
    match outcome with
    | .paid ref _ response =>
      settle env db id row (.paid ref) systemMarketingActor row.status response
    | .failed _ response => settle env db id row .failed systemMarketingActor row.status response
    | .unknown _ response =>
      return setRequest db id { row with status := .unknown, provider_response := response }

/-! ## Sweep -/

/-- `markInterrupted`: nobody recorded a result. -/
def markInterrupted (db : Db) (id : Uuid) : Tx Db := do
  let row ← findRequest db id
  let _ ← lockCampaign db row.campaign_id
  match casUpdate db id .executing fun r => { r with status := .unknown } with
  | some db => return db
  | none => return db

/-- The sweep closes a request nobody decided. -/
def expire (db : Db) (id : Uuid) (now : Date) : Tx Db := do
  let row ← findRequest db id
  if row.expires_at < now then
    match casUpdate db id .pending fun r =>
        { r with status := .expired, decided_at := some now } with
    | some db => return db
    | none => return db
  else
    return db

/-! ## The service as a transition system -/

/-- One committed transaction. `configure` stands for every other service and for people who
    edit campaigns, channels and allocations: these tables become anything. -/
inductive SpendAction where
  | request (campaignId : Uuid) (reads : RequestReads) (body : SpendBody) (actor : MarketingActor)
      (now : Date) (prepared : Option (Payload × String)) (newId : Uuid)
  | approve (id : Uuid) (accountId : String) (actor : MarketingActor) (payloadSha256 : String)
      (now : Date) (planProblem : Option String)
  | deny (id : Uuid) (accountId : String) (now : Date)
  | cancel (id : Uuid) (accountId : String) (actor : MarketingActor) (seen : SpendStatus)
      (now : Date)
  | markPaid (id : Uuid) (accountId : String) (actor : MarketingActor)
      (providerRef receiptUrl : String)
  | markFailed (id : Uuid) (accountId : String) (actor : MarketingActor)
      (checked : Option String) (now : Date)
  | refund (id : Uuid) (accountId : String) (actor : MarketingActor) (amountMinor : RawAmount)
      (note providerRef : String)
  | executeClaim (id : Uuid) (planProblem : Option String) (now : Date)
  | closeUnpersisted (id : Uuid)
  | recordOutcome (id : Uuid) (outcome : PaymentOutcome)
  | markInterrupted (id : Uuid)
  | expire (id : Uuid) (now : Date)
  | returnUnused (id : Uuid) (accountId : String) (actor : MarketingActor) (body : ReturnBody)
      (report : SpendReport) (credentialOk : Bool) (now : Date) (operationId : Uuid)
  | finishReturn (id : Uuid) (operationId : Uuid) (outcome : PaymentOutcome)
  | reconcileReturn (id : Uuid) (accountId : String) (actor : MarketingActor) (confirm : Bool)
      (note : String) (closeAsFailed confirmNoChange : Bool) (seen : SpendRequest)
      (report : SpendReport) (credentialOk : Bool) (now : Date)
  | configure (campaigns : AList fun _ : Uuid => Campaign)
      (channels : AList fun _ : Uuid => Channel) (allocations : List Allocation)

/-- The transaction of an action. -/
def SpendAction.run (env : SpendEnv) (db : Db) : SpendAction → Tx Db
  | .request campaignId reads body actor now prepared newId =>
    Marketing.request env db campaignId reads body actor now prepared newId
  | .approve id accountId actor sha now planProblem =>
    (·.1) <$> Marketing.approve env db id accountId actor sha now planProblem
  | .deny id accountId now => Marketing.deny db id accountId now
  | .cancel id accountId actor seen now => Marketing.cancel db id accountId actor seen now
  | .markPaid id accountId actor ref receipt =>
    Marketing.markPaid env db id accountId actor ref receipt
  | .markFailed id accountId actor checked now =>
    Marketing.markFailed env db id accountId actor checked now
  | .refund id accountId actor amount note ref =>
    Marketing.refund db id accountId actor amount note ref
  | .executeClaim id planProblem now => (·.1) <$> Marketing.executeClaim env db id planProblem now
  | .closeUnpersisted id => Marketing.closeUnpersisted env db id
  | .recordOutcome id outcome => Marketing.recordOutcome env db id outcome
  | .markInterrupted id => Marketing.markInterrupted db id
  | .expire id now => Marketing.expire db id now
  | .returnUnused id accountId actor body report ok now op =>
    Marketing.returnUnused db id accountId actor body report ok now op
  | .finishReturn id op outcome => Marketing.finishReturn db id op outcome
  | .reconcileReturn id accountId actor confirm note failed noChange seen report ok now =>
    Marketing.reconcileReturn db id accountId actor confirm note failed noChange seen report ok now
  | .configure campaigns channels allocations =>
    .ok { db with campaigns := campaigns, channels := channels, allocations := allocations }

/-- The spend service over one store: it starts without requests and ledger rows, and every
    committed transaction is a step. A transaction that fails rolls back and is no step. -/
def spendSystem (env : SpendEnv) : Transition Db SpendAction where
  init db := db.requests = ∅ ∧ db.ledger = [] ∧ db.operations = []
  step db a db' := a.run env db = .ok db'

end WorkflowBoard.Marketing
