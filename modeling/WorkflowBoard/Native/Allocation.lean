import WorkflowBoard.ForStd.Transition
import WorkflowBoard.Native.Ledger

/-!
# Budget allocations (`marketing-budget.service.ts`)

An allocation of a channel is proposed, then approved or rejected by a person. An
approval retires the channel's previous allocation and refuses to let the active
allocations of the campaign exceed the cap.

`propose` and `reject` do not take the campaign lock, so they may commit between the
reads of an approval and its writes. The model therefore splits `approve` there:
`approveBegin` locks the campaign, reads and checks, `approveCommit` writes. While an
approval is in flight no other one of the same campaign starts.
-/

namespace WorkflowBoard.Marketing

def maxAllocationsPerProposal : Nat := 20

/-- `getAllocation`. -/
def getAllocation (db : Db) (id : Uuid) (accountId : String) : Tx Allocation := do
  let row ← orThrow (db.allocations.find? (·.id == id)) (marketingError 404 "allocation not found")
  require (accountId ≠ "" && row.account_id == accountId)
    (marketingError 404 "allocation not found")
  return row

/-- Set the status of the rows that satisfy `p`. -/
def markAllocations (p : Allocation → Bool) (status : AllocationStatus) (rows : List Allocation) :
    List Allocation :=
  rows.map fun a => if p a then { a with status := status } else a

/-! ## Propose -/

structure AllocationEntry where
  channel_id : Uuid
  amount_minor : RawAmount

/-- The loop over the entries of a proposal: no channel twice, only approved channels of the
    campaign, and a parsed amount. `channels` is the table as read before the transaction. -/
def parseEntries (channels : AList fun _ : Uuid => Channel) (campaignId : Uuid)
    (seen : List Uuid) (i : Nat) : List AllocationEntry → Tx (List (Uuid × Nat))
  | [] => return []
  | entry :: rest => do
    let path := "allocations[" ++ toString i ++ "]"
    require (entry.channel_id ∉ seen) (marketingError 400 (path ++ ": channel listed twice"))
    let channel ← orThrow
      ((channels.lookup entry.channel_id).filter (·.campaign_id == campaignId))
      (marketingError 404 (path ++ ": channel not found in this campaign"))
    require (channel.status = .active || channel.status = .paused) (marketingError 409
      (path ++ ": channel \"" ++ channel.name ++ "\" is " ++ channel.status.text ++
        " — only approved channels get budget"))
    let amount ← (parseMinorAmount entry.amount_minor (path ++ ".amount_minor") true).mapError
      (marketingError 400)
    let parsed ← parseEntries channels campaignId (entry.channel_id :: seen) (i + 1) rest
    return (entry.channel_id, amount) :: parsed

/-- The rows a proposal inserts. -/
def proposedRows (campaignId : Uuid) (campaign : Campaign) :
    List (Uuid × Nat) → List Uuid → List Allocation
  | (channelId, amount) :: parsed, id :: ids =>
    ⟨id, campaign.account_id, campaignId, channelId, amount, campaign.caps.currency, .proposed⟩ ::
      proposedRows campaignId campaign parsed ids
  | _, _ => []

/-- `propose`: undecided proposals for the same channels are superseded. The database gives
    the new rows ids no row has. -/
def propose (db : Db) (campaignId : Uuid) (campaign : Campaign)
    (channels : AList fun _ : Uuid => Channel) (list : List AllocationEntry) (rationale : String)
    (actor : MarketingActor) (ids : List Uuid) : Tx Db := do
  require (list ≠ []) (marketingError 400
    "allocations must be a non-empty array of \x7b channel_id, amount_minor \x7d")
  require (list.length ≤ maxAllocationsPerProposal)
    (marketingError 400 s!"at most {maxAllocationsPerProposal} allocations per proposal")
  require (actor.type ≠ .agent || rationale ≠ "") (marketingError 400
    "rationale is required — cite the results that justify this allocation")
  let parsed ← parseEntries channels campaignId [] 0 list
  require (ids.length = list.length ∧ ids.Nodup ∧ ∀ id ∈ ids, id ∉ db.allocations.map (·.id))
    (marketingError 409 "duplicate key")
  let replaced := fun a : Allocation => a.campaign_id == campaignId &&
    (parsed.map (·.1)).contains a.channel_id && a.status == .proposed
  return { db with
    allocations := markAllocations replaced .superseded db.allocations ++
      proposedRows campaignId campaign parsed ids }

/-! ## Decide -/

/-- The cap an approval checks against: the period cap if there is one, else the total. -/
def BudgetCaps.allocationCap (caps : BudgetCaps) : Nat :=
  let periodCap := if caps.hasPeriodCap then caps.budget_period_minor else 0
  if periodCap ≠ 0 then periodCap else caps.budget_total_minor

/-- What an approval has decided to write. -/
structure ApprovalPlan where
  campaign_id : Uuid
  id : Uuid
  previous : Option Uuid
deriving DecidableEq

/-- The active allocations of a campaign. -/
def activeAllocations (db : Db) (campaignId : Uuid) : List Allocation :=
  db.allocations.filter fun a => a.campaign_id == campaignId && a.status == .active

/-- `approve` up to its first write: lock, read, check. -/
def approveBegin (db : Db) (id : Uuid) (accountId : String) : Tx ApprovalPlan := do
  let pre ← getAllocation db id accountId
  let campaign ← lockCampaign db pre.campaign_id
  let row ← orThrow (db.allocations.find? (·.id == id))
    (marketingError 409 "allocation is gone, not proposed")
  require (row.status = .proposed)
    (marketingError 409 s!"allocation is {row.status.text}, not proposed")
  require (row.currency == campaign.caps.currency)
    (marketingError 409 "allocation currency no longer matches the campaign")
  let channel := db.channels.lookup row.channel_id
  require (channel.any fun ch => ch.status = .active || ch.status = .paused)
    (marketingError 409 "the channel is no longer approved")
  let others := activeAllocations db pre.campaign_id
  let previous := others.find? (·.channel_id == row.channel_id)
  let sum := ((others.filter (·.channel_id != row.channel_id)).map (·.amount_minor)).sum +
    row.amount_minor
  let cap := campaign.caps.allocationCap
  let capName := if campaign.caps.hasPeriodCap then campaign.caps.budget_period.text ++ " cap"
    else "campaign budget"
  require (!(cap > 0 && sum > cap)) (marketingError 409
    (s!"allocations would total {formatMinorAmount sum campaign.caps.currency}, above the " ++
      s!"{capName} {formatMinorAmount cap campaign.caps.currency}"))
  require (!(cap == 0 && row.amount_minor > 0))
    (marketingError 409 "the campaign has no budget — set budget_total_minor first")
  return ⟨pre.campaign_id, id, previous.map (·.id)⟩

/-- The writes of `approve`: the proposal becomes active, the previous allocation retires. -/
def approveCommit (db : Db) (plan : ApprovalPlan) : Tx Db := do
  let won := fun a : Allocation => a.id == plan.id && a.status == .proposed
  require (db.allocations.any won)
    (marketingError 409 "allocation was decided concurrently")
  let rows := markAllocations won .active db.allocations
  let retired := fun a : Allocation => plan.previous = some a.id && a.status == .active
  return { db with allocations := markAllocations retired .superseded rows }

/-- `reject`. -/
def rejectAllocation (db : Db) (id : Uuid) (accountId : String) : Tx Db := do
  let row ← getAllocation db id accountId
  let won := fun a : Allocation => a.id == id && a.status == .proposed
  require (db.allocations.any won)
    (marketingError 409 s!"allocation is {row.status.text}, not proposed")
  return { db with allocations := markAllocations won .rejected db.allocations }

/-! ## The service as a transition system -/

/-- The tables and the approvals between their reads and their writes. -/
structure BudgetState where
  db : Db
  inFlight : List ApprovalPlan

inductive BudgetAction where
  | propose (campaignId : Uuid) (campaign : Campaign) (channels : AList fun _ : Uuid => Channel)
      (list : List AllocationEntry) (rationale : String) (actor : MarketingActor)
      (ids : List Uuid)
  | approveBegin (id : Uuid) (accountId : String)
  | approveCommit (plan : ApprovalPlan)
  | approveAbort (plan : ApprovalPlan)
  | reject (id : Uuid) (accountId : String)
  | configure (campaigns : AList fun _ : Uuid => Campaign)
      (channels : AList fun _ : Uuid => Channel)
  | deleteCampaign (campaignId : Uuid)

/-- The campaign's row is not locked by an approval. -/
def BudgetState.unlocked (s : BudgetState) (campaignId : Uuid) : Bool :=
  s.inFlight.all (·.campaign_id ≠ campaignId)

/-- One statement or transaction of the service. Campaigns and channels change freely, except
    that the row lock of an approval in flight keeps its campaign as it is. -/
def BudgetAction.run (s : BudgetState) : BudgetAction → Tx BudgetState
  | .propose campaignId campaign channels list rationale actor ids => do
    let db ← Marketing.propose s.db campaignId campaign channels list rationale actor ids
    return { s with db }
  | .approveBegin id accountId => do
    let plan ← Marketing.approveBegin s.db id accountId
    require (s.unlocked plan.campaign_id) (marketingError 409 "locked")
    return { s with inFlight := plan :: s.inFlight }
  | .approveCommit plan => do
    require (plan ∈ s.inFlight) (marketingError 409 "not in flight")
    let db ← Marketing.approveCommit s.db plan
    return ⟨db, s.inFlight.erase plan⟩
  | .approveAbort plan => return { s with inFlight := s.inFlight.erase plan }
  | .reject id accountId => do
    let db ← rejectAllocation s.db id accountId
    return { s with db }
  | .configure campaigns channels => do
    require (s.inFlight.all fun p =>
        campaigns.lookup p.campaign_id = s.db.campaigns.lookup p.campaign_id)
      (marketingError 409 "locked")
    return { s with db := { s.db with campaigns := campaigns, channels := channels } }
  | .deleteCampaign campaignId => do
    require (s.unlocked campaignId) (marketingError 409 "locked")
    return { s with db := { s.db with
      campaigns := s.db.campaigns.erase campaignId
      allocations := s.db.allocations.filter (·.campaign_id != campaignId) } }

def budgetSystem : Transition BudgetState BudgetAction where
  init s := s.db.allocations = [] ∧ s.inFlight = []
  step s a s' := a.run s = .ok s'

end WorkflowBoard.Marketing
