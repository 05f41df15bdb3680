import WorkflowBoard.Native.Payment

/-!
# Marketing tables and the ledger (`marketing-ledger.ts`)

`Db` holds the tables the spend and budget services read and write. A transaction
is a function from `Db` to `Except MarketingError Db`: an error rolls back, so it
leaves no trace. `lockCampaign` serialises the transactions of one campaign, on
Postgres by a row lock and on sql.js by the transaction queue, and that is why one
transaction is one step of the model. It bumps `spend_version`, a column nothing
reads, so the model has no such column.

Rows of the ledger are appended and never changed.
-/

namespace WorkflowBoard.Marketing

inductive CampaignStatus where
  | draft
  | active
  | paused
  | archived
deriving DecidableEq

def CampaignStatus.text : CampaignStatus → String
  | .draft => "draft"
  | .active => "active"
  | .paused => "paused"
  | .archived => "archived"

inductive ChannelStatus where
  | proposed
  | awaitingCredential
  | active
  | paused
  | rejected
deriving DecidableEq

def ChannelStatus.text : ChannelStatus → String
  | .proposed => "proposed"
  | .awaitingCredential => "awaiting_credential"
  | .active => "active"
  | .paused => "paused"
  | .rejected => "rejected"

inductive AllocationStatus where
  | proposed
  | active
  | superseded
  | rejected
deriving DecidableEq

def AllocationStatus.text : AllocationStatus → String
  | .proposed => "proposed"
  | .active => "active"
  | .superseded => "superseded"
  | .rejected => "rejected"

inductive SpendStatus where
  | pending
  | approved
  | executing
  | paid
  | failed
  | unknown
  | denied
  | expired
  | cancelled
deriving DecidableEq

def SpendStatus.text : SpendStatus → String
  | .pending => "pending"
  | .approved => "approved"
  | .executing => "executing"
  | .paid => "paid"
  | .failed => "failed"
  | .unknown => "unknown"
  | .denied => "denied"
  | .expired => "expired"
  | .cancelled => "cancelled"

/-- `return_status`; the empty text of the column is `none`. -/
inductive ReturnStatus where
  | none
  | executing
  | unknown
  | completed
  | failed
deriving DecidableEq

structure Campaign where
  account_id : String
  status : CampaignStatus
  caps : BudgetCaps
  dual_approval_threshold_minor : Nat
  payees : List Payee
  payment_provider : PaymentProvider
  payment_credential_id : Option Uuid
deriving DecidableEq

structure Channel where
  campaign_id : Uuid
  name : String
  status : ChannelStatus

/-- A row of `marketing_budget_allocations`; rows stand in the order of `created_at`. -/
structure Allocation where
  id : Uuid
  account_id : String
  campaign_id : Uuid
  channel_id : Uuid
  amount_minor : Nat
  currency : String
  status : AllocationStatus
deriving DecidableEq

structure Approval where
  user_id : String
  name : String
  at_ : Date

/-- The provider's answer to a read of the target: what is spent and pending there. -/
structure SpendReport where
  complete : Bool
  status : String
  card_id : Option String
  ceiling_units : String
  ceiling_minor : Int
  spend_minor : Int
  pending_minor : Int
deriving DecidableEq

/-- The summary of a provider's answer that is stored or carried with an outcome. -/
structure ProviderResponse where
  card_id : Option String
  report : Option SpendReport
deriving DecidableEq

def ProviderResponse.empty : ProviderResponse := ⟨none, none⟩

inductive PaymentOutcome where
  | paid (transactionId receiptUrl : String) (response : ProviderResponse)
  | failed (error : String) (response : ProviderResponse)
  | unknown (error : String) (response : ProviderResponse)
deriving DecidableEq

/-- An unused-budget return a person approved. -/
structure ReturnOperation where
  id : Uuid
  amount_minor : Nat
  expected_ceiling : String
  expected_ceiling_minor : Int
  expected_status : String
  expected_net_capture_minor : Int
  note : String
  actor : MarketingActor
  started_at : Date

/-- A row of `marketing_spend_requests`; its id is the key it is stored under. -/
structure SpendRequest extends SpendFields where
  account_id : String
  target_key : String
  payload_sha256 : String
  status : SpendStatus
  dedupe_key : String
  requested_by_type : ActorType
  requested_by_id : String
  dual_required : Bool
  approvals : List Approval
  decided_at : Option Date
  expires_at : Date
  period_key : String
  executing_at : Option Date
  provider_ref : String
  provider_response : ProviderResponse
  return_status : ReturnStatus
  return_operation : Option ReturnOperation

structure Db where
  campaigns : AList fun _ : Uuid => Campaign
  channels : AList fun _ : Uuid => Channel
  allocations : List Allocation
  requests : AList fun _ : Uuid => SpendRequest
  ledger : List LedgerEntry
  /-- The ids `randomUUID` has given to return operations so far. -/
  operations : List Uuid

/-- A step of a transaction. -/
abbrev Tx := Except MarketingError

def lockCampaign (db : Db) (campaignId : Uuid) : Tx Campaign :=
  orThrow (db.campaigns.lookup campaignId) (marketingError 404 "campaign not found")

@[simp] theorem lockCampaign_eq_ok {db : Db} {campaign : Campaign} {c : Uuid} :
    lockCampaign db c = .ok campaign ↔ db.campaigns.lookup c = some campaign := by
  simp [lockCampaign]

def loadLedger (db : Db) (campaignId : Uuid) : List LedgerEntry :=
  db.ledger.filter (·.campaign_id == campaignId)

/-- The newest active allocation of a channel. -/
def activeAllocation (db : Db) (campaignId channelId : Uuid) : Option Allocation :=
  (db.allocations.filter fun a =>
    a.campaign_id == campaignId && a.channel_id == channelId && a.status == .active).getLast?

structure LedgerWrite where
  kind : LedgerKind
  amount_minor : Nat
  note : LedgerNote

/-- The columns the rows of one request share. -/
structure LedgerBase where
  account_id : String
  campaign_id : Uuid
  channel_id : Uuid
  spend_request_id : Uuid
  currency : String
  period_key : String

def LedgerBase.entry (base : LedgerBase) (actor : MarketingActor) (w : LedgerWrite) :
    LedgerEntry where
  account_id := base.account_id
  campaign_id := base.campaign_id
  channel_id := base.channel_id
  spend_request_id := base.spend_request_id
  kind := w.kind
  amount_minor := w.amount_minor
  currency := base.currency
  period_key := base.period_key
  actor := actor
  note := w.note

/-- `for (const w of writes) { check; totals[w.kind] += w.amount_minor }`. -/
def addWrites (totals : Totals) : List LedgerWrite → Tx Totals
  | [] => return totals
  | w :: ws => do
    require (isSafeInteger w.amount_minor && 0 < w.amount_minor)
      (marketingError 500 s!"invalid ledger amount for {w.kind.text}")
    addWrites (totals.bump w.kind w.amount_minor) ws

/-- Append the rows of one request, after the per-request rules: release within reserve,
    capture within reserve, refund within capture. -/
def appendLedger (db : Db) (existing : List LedgerEntry) (base : LedgerBase)
    (writes : List LedgerWrite) (actor : MarketingActor) : Tx Db := do
  let totals ← addWrites (requestTotals existing base.spend_request_id) writes
  require (totals.release ≤ totals.reserve)
    (marketingError 409 "ledger invariant: release would exceed reserve")
  require (totals.capture ≤ totals.reserve)
    (marketingError 409 "ledger invariant: capture would exceed the approved amount")
  require (totals.refund ≤ totals.capture)
    (marketingError 409 "ledger invariant: refund would exceed what was paid")
  return { db with ledger := db.ledger ++ writes.map (base.entry actor) }

theorem appendLedger_eq_ok {db db' : Db} {existing : List LedgerEntry} {base : LedgerBase}
    {writes : List LedgerWrite} {actor : MarketingActor}
    (h : appendLedger db existing base writes actor = .ok db') :
    db' = { db with ledger := db.ledger ++ writes.map (base.entry actor) } := by
  simp only [appendLedger, bind_eq_ok, pure_eq_ok] at h
  obtain ⟨_, _, _, _, _, _, _, _, rfl⟩ := h
  rfl

end WorkflowBoard.Marketing
