import WorkflowBoard.ForStd.SumWhere
import WorkflowBoard.Native.Allocation

/-!
# Active allocations stay within the cap

In every reachable state a channel has at most one active allocation, and an approval
in flight still knows the active allocations as they are: proposals and rejections that
commit meanwhile do not touch them. So what an approval checked when it read is true when
it writes, and the active allocations of a campaign with an unchanged cap never exceed
it.
-/

namespace WorkflowBoard.Marketing

variable {s s' t : BudgetState} {db : Db} {rows : List Allocation} {c : Uuid}
  {plan : ApprovalPlan}

/-- The row is an active allocation of the campaign. -/
def isActiveIn (c : Uuid) (a : Allocation) : Bool := a.campaign_id == c && a.status == .active

theorem activeAllocations_eq : activeAllocations db c = db.allocations.filter (isActiveIn c) := rfl

/-- The sum of the active allocations of a campaign. -/
def activeSum (db : Db) (c : Uuid) : Nat := sumWhere (·.amount_minor) (isActiveIn c) db.allocations

/-- The sum of the active allocations of the other channels. -/
def othersSum (db : Db) (c channelId : Uuid) : Nat :=
  sumWhere (·.amount_minor) (fun a => isActiveIn c a && a.channel_id != channelId) db.allocations

/-- A plan in flight: its proposal exists, its previous allocation is the active one of the
    channel, and what it checked against the cap still holds. -/
def PlanOk (db : Db) (plan : ApprovalPlan) : Prop :=
  ∃ row campaign, row ∈ db.allocations ∧ row.id = plan.id ∧ row.campaign_id = plan.campaign_id ∧
    db.campaigns.lookup plan.campaign_id = some campaign ∧
    plan.previous =
      ((activeAllocations db plan.campaign_id).find? (·.channel_id == row.channel_id)).map (·.id) ∧
    (0 < campaign.caps.allocationCap →
      othersSum db plan.campaign_id row.channel_id + row.amount_minor ≤
        campaign.caps.allocationCap) ∧
    (campaign.caps.allocationCap = 0 → row.amount_minor = 0)

/-- A channel of a campaign has one active allocation. -/
def SingleActive (rows : List Allocation) : Prop :=
  ∀ a ∈ rows, ∀ b ∈ rows, a.status = .active → b.status = .active →
    a.campaign_id = b.campaign_id → a.channel_id = b.channel_id → a.id = b.id

structure AllocInv (s : BudgetState) : Prop where
  ids : (s.db.allocations.map (·.id)).Nodup
  single : SingleActive s.db.allocations
  locks : (s.inFlight.map (·.campaign_id)).Nodup
  plans : ∀ plan ∈ s.inFlight, PlanOk s.db plan

/-! ## Writes that leave the active rows alone -/

theorem markAllocations_ids (p : Allocation → Bool) (status : AllocationStatus) :
    (markAllocations p status rows).map (·.id) = rows.map (·.id) := by
  simp only [markAllocations, List.map_map]
  refine List.map_congr_left fun a _ => ?_
  simp only [Function.comp_apply]
  split <;> rfl

variable {status : AllocationStatus} {a : Allocation} {db' : Db} {campaign : Campaign}
  {ids : List Uuid} {parsed : List (Uuid × Nat)}

/-- Marking inactive rows with an inactive status keeps the list of active rows. -/
theorem filter_markAllocations {p : Allocation → Bool}
    (hp : ∀ a, p a = true → a.status ≠ .active) (hstatus : status ≠ .active) :
    (markAllocations p status rows).filter (isActiveIn c) = rows.filter (isActiveIn c) := by
  induction rows with
  | nil => rfl
  | cons a rest ih =>
    simp only [markAllocations, List.map_cons] at ih ⊢
    rw [List.filter_cons, List.filter_cons, ih]
    by_cases h : p a = true
    · -- A marked row is inactive before and after.
      simp [h, isActiveIn, hp a h, hstatus]
    · simp [h]

theorem mem_markAllocations {p : Allocation → Bool}
    (ha : a ∈ rows) : ∃ b ∈ markAllocations p status rows, b.id = a.id ∧
      b.campaign_id = a.campaign_id ∧ b.channel_id = a.channel_id ∧
      b.amount_minor = a.amount_minor := by
  refine ⟨_, List.mem_map_of_mem ha, ?_⟩
  split <;> exact ⟨rfl, rfl, rfl, rfl⟩

/-- `SingleActive` only depends on the active rows. -/
theorem singleActive_of_filter {rows' : List Allocation} (h : SingleActive rows)
    (heq : ∀ c, rows'.filter (isActiveIn c) = rows.filter (isActiveIn c)) :
    SingleActive rows' := by
  have hback : ∀ a ∈ rows', a.status = .active → a ∈ rows := by
    intro a ha hactive
    have hmem : a ∈ rows'.filter (isActiveIn a.campaign_id) :=
      List.mem_filter.mpr ⟨ha, by simp [isActiveIn, hactive]⟩
    rw [heq] at hmem
    exact (List.mem_filter.mp hmem).1
  intro a ha b hb hactive hactive'
  exact h a (hback a ha hactive) b (hback b hb hactive') hactive hactive'

/-- A plan stays good while its proposal, its campaign and the active rows stay. -/
theorem PlanOk.mono (h : PlanOk db plan)
    (hrows : ∀ a ∈ db.allocations, a.campaign_id = plan.campaign_id →
      ∃ b ∈ db'.allocations, b.id = a.id ∧ b.campaign_id = a.campaign_id ∧
        b.channel_id = a.channel_id ∧ b.amount_minor = a.amount_minor)
    (hcampaign : db'.campaigns.lookup plan.campaign_id = db.campaigns.lookup plan.campaign_id)
    (hactive : db'.allocations.filter (isActiveIn plan.campaign_id) =
      db.allocations.filter (isActiveIn plan.campaign_id)) : PlanOk db' plan := by
  obtain ⟨row, campaign, hrow, hid, hc, hlookup, hprev, hcap, hzero⟩ := h
  obtain ⟨row', hrow', hid', hc', hch', ham'⟩ := hrows row hrow hc
  refine ⟨row', campaign, hrow', hid'.trans hid, hc'.trans hc, hcampaign.trans hlookup, ?_, ?_, ?_⟩
  · rw [activeAllocations_eq, hactive, hch']
    exact hprev
  · intro hpos
    have hothers : othersSum db' plan.campaign_id row.channel_id =
        othersSum db plan.campaign_id row.channel_id := by
      have hsplit : ∀ d : Db, othersSum d plan.campaign_id row.channel_id =
          sumWhere (·.amount_minor) (·.channel_id != row.channel_id)
            (d.allocations.filter (isActiveIn plan.campaign_id)) := by
        intro d
        simp [othersSum, sumWhere, List.filter_filter, Bool.and_comm]
      rw [hsplit, hsplit, hactive]
    rw [hch', ham', hothers]
    exact hcap hpos
  · rw [ham']
    exact hzero

/-! ## The commit of an approval -/

/-- What a commit does to one row. -/
def commitRow (plan : ApprovalPlan) (a : Allocation) : Allocation :=
  let b := if a.id == plan.id && a.status == .proposed then { a with status := .active } else a
  if plan.previous = some b.id && b.status == .active then { b with status := .superseded } else b

theorem approveCommit_eq_ok (h : approveCommit db plan = .ok db') :
    (∃ a ∈ db.allocations, a.id = plan.id ∧ a.status = .proposed) ∧
      db' = { db with allocations := db.allocations.map (commitRow plan) } := by
  simp only [approveCommit, bind_eq_ok, require_eq_ok, pure_eq_ok] at h
  obtain ⟨_, hany, rfl⟩ := h
  refine ⟨by simpa using hany, ?_⟩
  simp only [markAllocations, List.map_map]
  rfl

theorem commitRow_fields (plan : ApprovalPlan) (a : Allocation) :
    (commitRow plan a).id = a.id ∧ (commitRow plan a).campaign_id = a.campaign_id ∧
      (commitRow plan a).channel_id = a.channel_id ∧
      (commitRow plan a).amount_minor = a.amount_minor := by
  unfold commitRow
  dsimp only
  split <;> split <;> exact ⟨rfl, rfl, rfl, rfl⟩

/-- A row that is active after a commit is the approved one or was active and not retired. -/
theorem commitRow_active (h : (commitRow plan a).status = .active) :
    (a.id = plan.id ∧ a.status = .proposed) ∨ (a.status = .active ∧ plan.previous ≠ some a.id) := by
  unfold commitRow at h
  dsimp only at h
  split at h
  · split at h
    · cases h
    · rename_i hnew _
      left
      simpa using hnew
  · split at h
    · cases h
    · rename_i hprev
      right
      simpa [h] using hprev

/-- Rows of other ids and without the retired id are left alone. -/
theorem commitRow_eq_self (hid : a.id ≠ plan.id)
    (hprev : plan.previous ≠ some a.id) : commitRow plan a = a := by
  simp [commitRow, hid, hprev]

/-- The retired row is active, of the campaign and of the channel of the proposal. -/
theorem previous_spec {row a : Allocation} (hprev : plan.previous =
      ((activeAllocations db plan.campaign_id).find? (·.channel_id == row.channel_id)).map (·.id))
    (hids : (db.allocations.map (·.id)).Nodup) (ha : a ∈ db.allocations)
    (h : plan.previous = some a.id) :
    a.campaign_id = plan.campaign_id ∧ a.status = .active ∧ a.channel_id = row.channel_id := by
  rw [h] at hprev
  obtain ⟨b, hb, hab⟩ := Option.map_eq_some_iff.mp hprev.symm
  have hmem := List.mem_filter.mp (List.mem_of_find?_eq_some hb)
  have hch : b.channel_id = row.channel_id := by simpa using List.find?_some hb
  obtain rfl : b = a := List.inj_on_of_nodup_map hids hmem.1 ha hab
  have hact := hmem.2
  simp only [Bool.and_eq_true, beq_iff_eq] at hact
  exact ⟨hact.1, hact.2, hch⟩

/-- An active row of the proposal's channel is the retired one. -/
theorem previous_of_active {row a : Allocation} (hsingle : SingleActive db.allocations)
    (hprev : plan.previous =
      ((activeAllocations db plan.campaign_id).find? (·.channel_id == row.channel_id)).map (·.id))
    (ha : a ∈ db.allocations) (hactive : a.status = .active)
    (hc : a.campaign_id = plan.campaign_id) (hch : a.channel_id = row.channel_id) :
    plan.previous = some a.id := by
  cases hfind : (activeAllocations db plan.campaign_id).find? (·.channel_id == row.channel_id) with
  | none =>
    have hmem : a ∈ activeAllocations db plan.campaign_id :=
      List.mem_filter.mpr ⟨ha, by simp [hc, hactive]⟩
    simpa [hch] using List.find?_eq_none.mp hfind a hmem
  | some b =>
    have hmem := List.mem_filter.mp (List.mem_of_find?_eq_some hfind)
    have hchb : b.channel_id = row.channel_id := by simpa using List.find?_some hfind
    have hact := hmem.2
    simp only [Bool.and_eq_true, beq_iff_eq] at hact
    rw [hprev, hfind, Option.map_some]
    exact congrArg some (hsingle b hmem.1 a ha hact.2 hactive (hact.1.trans hc.symm)
      (hchb.trans hch.symm))

/-- After a commit a channel still has one active allocation. -/
theorem singleActive_commit (hids : (db.allocations.map (·.id)).Nodup)
    (hsingle : SingleActive db.allocations) (hplan : PlanOk db plan) :
    SingleActive (db.allocations.map (commitRow plan)) := by
  obtain ⟨row, campaign, hrow, hid, hc, -, hprev, -⟩ := hplan
  -- The approved row and an old active row of its channel cannot both stay active.
  have hmixed : ∀ a ∈ db.allocations, ∀ b ∈ db.allocations, a.id = plan.id →
      b.status = .active → plan.previous ≠ some b.id → a.campaign_id = b.campaign_id →
      a.channel_id = b.channel_id → False := by
    intro a ha b hb haid hbact hnot hcamp hchan
    obtain rfl : a = row := List.inj_on_of_nodup_map hids ha hrow (haid.trans hid.symm)
    exact hnot (previous_of_active hsingle hprev hb hbact (hcamp.symm.trans hc) hchan.symm)
  intro a' ha' b' hb' hacta hactb hcamp hchan
  obtain ⟨a, ha, rfl⟩ := List.mem_map.mp ha'
  obtain ⟨b, hb, rfl⟩ := List.mem_map.mp hb'
  obtain ⟨hida, hca, hcha, -⟩ := commitRow_fields plan a
  obtain ⟨hidb, hcb, hchb, -⟩ := commitRow_fields plan b
  rw [hca, hcb] at hcamp
  rw [hcha, hchb] at hchan
  rw [hida, hidb]
  rcases commitRow_active hacta with ⟨hna, -⟩ | ⟨hoa, hra⟩ <;>
    rcases commitRow_active hactb with ⟨hnb, -⟩ | ⟨hob, hrb⟩
  · exact hna.trans hnb.symm
  · exact (hmixed a ha b hb hna hob hrb hcamp hchan).elim
  · exact (hmixed b hb a ha hnb hoa hra hcamp.symm hchan.symm).elim
  · exact hsingle a ha b hb hoa hob hcamp hchan

/-- After a commit the campaign's active sum is within what the plan checked. -/
theorem activeSum_commit (hids : (db.allocations.map (·.id)).Nodup)
    (hsingle : SingleActive db.allocations) {row : Allocation} (hrow : row ∈ db.allocations)
    (hid : row.id = plan.id)
    (hprev : plan.previous =
      ((activeAllocations db plan.campaign_id).find? (·.channel_id == row.channel_id)).map
        (·.id)) :
    sumWhere (·.amount_minor) (isActiveIn plan.campaign_id)
        (db.allocations.map (commitRow plan)) ≤
      othersSum db plan.campaign_id row.channel_id + row.amount_minor := by
  rw [sumWhere_map fun a => (commitRow_fields plan a).2.2.2]
  have hkey := sumWhere_key_le (w := (·.amount_minor)) hids hrow
  refine (sumWhere_le_add fun a ha hact => ?_).trans (Nat.add_le_add_left hkey _)
  simp only [Function.comp_apply, isActiveIn, (commitRow_fields plan a).2.1, Bool.and_eq_true,
    beq_iff_eq] at hact
  obtain ⟨hc, hactive⟩ := hact
  rcases commitRow_active hactive with ⟨hnew, -⟩ | ⟨hold, hnot⟩
  · right
    simpa using hnew.trans hid.symm
  · left
    have hch : a.channel_id ≠ row.channel_id :=
      fun h => hnot (previous_of_active hsingle hprev ha hold hc h)
    simp [isActiveIn, hc, hold, hch]

/-- A commit leaves the active rows of other campaigns alone. -/
theorem filter_commit_other (hids : (db.allocations.map (·.id)).Nodup) (hplan : PlanOk db plan)
    (hc : c ≠ plan.campaign_id) :
    (db.allocations.map (commitRow plan)).filter (isActiveIn c) =
      db.allocations.filter (isActiveIn c) := by
  obtain ⟨row, campaign, hrow, hid, hrowc, -, hprev, -⟩ := hplan
  rw [List.filter_map]
  have hsame : ∀ a ∈ db.allocations, a.campaign_id = c → commitRow plan a = a := by
    intro a ha hac
    refine commitRow_eq_self (fun h => hc ?_) fun h => hc ?_
    · obtain rfl : a = row := List.inj_on_of_nodup_map hids ha hrow (h.trans hid.symm)
      exact hac.symm.trans hrowc
    · exact hac.symm.trans (previous_spec hprev hids ha h).1
  have hfilter : db.allocations.filter (isActiveIn c ∘ commitRow plan) =
      db.allocations.filter (isActiveIn c) := by
    refine List.filter_congr fun a ha => ?_
    by_cases hac : a.campaign_id = c
    · simp [hsame a ha hac]
    · have hne : (a.campaign_id == c) = false := beq_eq_false_iff_ne.mpr hac
      simp [isActiveIn, (commitRow_fields plan a).2.1, hne]
  rw [hfilter]
  refine (List.map_congr_left fun a ha => ?_).trans (List.map_id _)
  have ha := List.mem_filter.mp ha
  have hact := ha.2
  simp only [isActiveIn, Bool.and_eq_true, beq_iff_eq] at hact
  exact hsame a ha.1 hact.1

/-! ## The invariant -/

/-- The checks of an approval in flight, at the moment it read. -/
theorem approveBegin_planOk {id : Uuid} {accountId : String}
    (h : approveBegin db id accountId = .ok plan) : PlanOk db plan := by
  simp only [approveBegin, bind_eq_ok, lockCampaign_eq_ok, orThrow_eq_ok, require_eq_ok,
    pure_eq_ok] at h
  obtain ⟨pre, hpre, campaign, hcampaign, row, hrow, _, _, _, _, _, _, _, hcap, _, hzero, rfl⟩ := h
  -- The row was read twice in one transaction.
  obtain rfl : pre = row := by
    simp only [getAllocation, bind_eq_ok, orThrow_eq_ok, pure_eq_ok] at hpre
    obtain ⟨_, hfind, _, _, rfl⟩ := hpre
    exact Option.some.inj (hfind.symm.trans hrow)
  have hid : pre.id = id := by simpa using List.find?_some hrow
  refine ⟨pre, campaign, List.mem_of_find?_eq_some hrow, hid, rfl, hcampaign, rfl, ?_, ?_⟩
  · intro hpos
    have hsum : othersSum db pre.campaign_id pre.channel_id =
        (((activeAllocations db pre.campaign_id).filter
          (·.channel_id != pre.channel_id)).map (·.amount_minor)).sum := by
      simp [othersSum, sumWhere, activeAllocations_eq, List.filter_filter, Bool.and_comm]
    rw [hsum]
    simpa [hpos] using hcap
  · intro hnone
    simpa [hnone] using hzero

/-- A transaction that keeps the campaigns, the existing rows up to their status, and the
    active rows of every campaign. -/
structure Quiet (db db' : Db) : Prop where
  campaigns : db'.campaigns = db.campaigns
  ids : (db.allocations.map (·.id)).Nodup → (db'.allocations.map (·.id)).Nodup
  survive : ∀ a ∈ db.allocations, ∃ b ∈ db'.allocations, b.id = a.id ∧
    b.campaign_id = a.campaign_id ∧ b.channel_id = a.channel_id ∧
    b.amount_minor = a.amount_minor
  active : ∀ c, db'.allocations.filter (isActiveIn c) = db.allocations.filter (isActiveIn c)

theorem proposedRows_status :
    ∀ a ∈ proposedRows c campaign parsed ids, a.status = .proposed := by
  induction parsed generalizing ids with
  | nil => intro a ha; simp [proposedRows] at ha
  | cons p parsed ih =>
    cases ids with
    | nil => intro a ha; simp [proposedRows] at ha
    | cons id ids =>
      intro a ha
      simp only [proposedRows, List.mem_cons] at ha
      rcases ha with rfl | ha
      · rfl
      · exact ih a ha

theorem proposedRows_ids : ((proposedRows c campaign parsed ids).map (·.id)).Sublist ids := by
  induction parsed generalizing ids with
  | nil => simp [proposedRows]
  | cons p parsed ih =>
    cases ids with
    | nil => simp [proposedRows]
    | cons id ids => simpa [proposedRows] using ih

theorem propose_quiet {channels : AList fun _ : Uuid => Channel}
    {list : List AllocationEntry} {rationale : String} {actor : MarketingActor}
    (h : propose db c campaign channels list rationale actor ids = .ok db') : Quiet db db' := by
  simp only [propose, bind_eq_ok, require_eq_ok, pure_eq_ok, decide_eq_true_eq] at h
  obtain ⟨_, _, _, _, _, _, parsed, _, _, ⟨_, hnodup, hfresh⟩, rfl⟩ := h
  refine ⟨rfl, ?_, ?_, ?_⟩
  · intro hids
    rw [List.map_append, markAllocations_ids, List.nodup_append]
    refine ⟨hids, hnodup.sublist proposedRows_ids, ?_⟩
    rintro i hi j hj rfl
    exact hfresh i (proposedRows_ids.subset hj) hi
  · intro a ha
    obtain ⟨b, hb, hab⟩ := mem_markAllocations ha
    exact ⟨b, List.mem_append_left _ hb, hab⟩
  · intro c'
    rw [List.filter_append, filter_markAllocations _ (by decide)]
    · have hnew : (proposedRows c campaign parsed ids).filter (isActiveIn c') = [] := by
        rw [List.filter_eq_nil_iff]
        intro a ha
        simp [isActiveIn, proposedRows_status a ha]
      rw [hnew, List.append_nil]
    · intro a ha
      simp only [Bool.and_eq_true, beq_iff_eq] at ha
      rw [ha.2]
      decide

theorem reject_quiet {id : Uuid} {accountId : String}
    (h : rejectAllocation db id accountId = .ok db') : Quiet db db' := by
  simp only [rejectAllocation, bind_eq_ok, require_eq_ok, pure_eq_ok] at h
  obtain ⟨_, _, _, _, rfl⟩ := h
  refine ⟨rfl, fun hids => by rwa [markAllocations_ids], fun a ha => mem_markAllocations ha,
    fun c' => filter_markAllocations (fun a ha => ?_) (by decide)⟩
  simp only [Bool.and_eq_true, beq_iff_eq] at ha
  rw [ha.2]
  decide

theorem AllocInv.quiet (hinv : AllocInv s) (h : Quiet s.db db') :
    AllocInv { s with db := db' } where
  ids := h.ids hinv.ids
  single := singleActive_of_filter hinv.single h.active
  locks := hinv.locks
  plans plan hplan := (hinv.plans plan hplan).mono (fun a ha _ => h.survive a ha)
    (by rw [h.campaigns]) (h.active _)

/-- A commit keeps the invariant; its plan is done. -/
theorem AllocInv.commit (hinv : AllocInv s) (hplan : plan ∈ s.inFlight)
    (h : approveCommit s.db plan = .ok db') : AllocInv ⟨db', s.inFlight.erase plan⟩ := by
  obtain ⟨-, rfl⟩ := approveCommit_eq_ok h
  have hok := hinv.plans plan hplan
  have hids : ((s.db.allocations.map (commitRow plan)).map (·.id)) =
      s.db.allocations.map (·.id) := by
    rw [List.map_map]
    exact List.map_congr_left fun a _ => (commitRow_fields plan a).1
  refine ⟨by rw [hids]; exact hinv.ids, singleActive_commit hinv.ids hinv.single hok,
    hinv.locks.sublist (List.erase_sublist.map _), ?_⟩
  intro other hother
  -- The campaigns of the plans in flight are different.
  have hmem : other ∈ s.inFlight := List.mem_of_mem_erase hother
  have hne : other.campaign_id ≠ plan.campaign_id := by
    intro heq
    obtain rfl : other = plan := List.inj_on_of_nodup_map hinv.locks hmem hplan heq
    exact hinv.locks.of_map.not_mem_erase hother
  refine (hinv.plans other hmem).mono (fun a ha _ => ?_) rfl
    (filter_commit_other hinv.ids hok hne)
  exact ⟨_, List.mem_map_of_mem ha, commitRow_fields plan a⟩

/-- Deleting a campaign nobody has locked keeps the invariant. -/
theorem AllocInv.deleteCampaign (hinv : AllocInv s) (hunlocked : s.unlocked c = true) :
    AllocInv { s with db := { s.db with
      campaigns := s.db.campaigns.erase c
      allocations := s.db.allocations.filter (·.campaign_id != c) } } where
  ids := hinv.ids.sublist (List.filter_sublist.map _)
  single a ha b hb := hinv.single a (List.mem_filter.mp ha).1 b (List.mem_filter.mp hb).1
  locks := hinv.locks
  plans plan hplan := by
    have hne : plan.campaign_id ≠ c := by
      simpa using List.all_eq_true.mp hunlocked plan hplan
    refine (hinv.plans plan hplan).mono (fun a ha hac => ?_) (AList.lookup_erase_ne hne) ?_
    · exact ⟨a, List.mem_filter.mpr ⟨ha, by simpa [hac] using hne⟩, rfl, rfl, rfl, rfl⟩
    · rw [List.filter_filter]
      refine List.filter_congr fun a _ => ?_
      by_cases hac : a.campaign_id = plan.campaign_id
      · have hkeep : (a.campaign_id != c) = true := by simpa [hac] using hne
        simp [hkeep]
      · have hdrop : (a.campaign_id == plan.campaign_id) = false := beq_eq_false_iff_ne.mpr hac
        simp [isActiveIn, hdrop]

theorem AllocInv.step {a : BudgetAction} (hinv : AllocInv s) (h : budgetSystem.step s a s') :
    AllocInv s' := by
  cases a with
  | propose campaignId campaign channels list rationale actor ids =>
    obtain ⟨db', hdb', hs'⟩ := bind_eq_ok.mp h
    obtain rfl := pure_eq_ok.mp hs'
    exact hinv.quiet (propose_quiet hdb')
  | reject id accountId =>
    obtain ⟨db', hdb', hs'⟩ := bind_eq_ok.mp h
    obtain rfl := pure_eq_ok.mp hs'
    exact hinv.quiet (reject_quiet hdb')
  | approveBegin id accountId =>
    obtain ⟨plan, hplan, h⟩ := bind_eq_ok.mp h
    obtain ⟨_, hunlocked, hs'⟩ := bind_eq_ok.mp h
    obtain rfl := pure_eq_ok.mp hs'
    rw [require_eq_ok] at hunlocked
    refine ⟨hinv.ids, hinv.single, ?_, ?_⟩
    · rw [List.map_cons, List.nodup_cons]
      refine ⟨fun hmem => ?_, hinv.locks⟩
      obtain ⟨p, hp, heq⟩ := List.mem_map.mp hmem
      simpa [heq] using List.all_eq_true.mp hunlocked p hp
    · intro p hp
      rcases List.mem_cons.mp hp with rfl | hp
      · exact approveBegin_planOk hplan
      · exact hinv.plans p hp
  | approveCommit plan =>
    obtain ⟨_, hmem, h⟩ := bind_eq_ok.mp h
    obtain ⟨db', hdb', hs'⟩ := bind_eq_ok.mp h
    obtain rfl := pure_eq_ok.mp hs'
    exact hinv.commit (by simpa using hmem) hdb'
  | approveAbort plan =>
    obtain rfl := pure_eq_ok.mp h
    exact ⟨hinv.ids, hinv.single, hinv.locks.sublist (List.erase_sublist.map _),
      fun p hp => hinv.plans p (List.mem_of_mem_erase hp)⟩
  | configure campaigns channels =>
    obtain ⟨_, hlocked, hs'⟩ := bind_eq_ok.mp h
    obtain rfl := pure_eq_ok.mp hs'
    rw [require_eq_ok] at hlocked
    refine ⟨hinv.ids, hinv.single, hinv.locks, fun p hp => ?_⟩
    refine (hinv.plans p hp).mono (fun a ha _ => ⟨a, ha, rfl, rfl, rfl, rfl⟩) ?_ rfl
    simpa using List.all_eq_true.mp hlocked p hp
  | deleteCampaign campaignId =>
    obtain ⟨_, hunlocked, hs'⟩ := bind_eq_ok.mp h
    obtain rfl := pure_eq_ok.mp hs'
    exact hinv.deleteCampaign (require_eq_ok.mp hunlocked)

/-- The invariant of the service. -/
theorem allocInv_reachable (h : budgetSystem.Reachable s) : AllocInv s := by
  refine h.invariant (fun s₀ hinit => ?_) fun _ _ _ _ hinv hstep => hinv.step hstep
  obtain ⟨hrows, hflight⟩ := hinit
  exact ⟨by simp [hrows], by simp [hrows, SingleActive], by simp [hflight], by simp [hflight]⟩

/-! ## Runs with an unchanged cap -/

/-- The step leaves the cap of the campaign alone. -/
def KeepsCap (c : Uuid) (s : BudgetState) (_ : BudgetAction) (s' : BudgetState) : Prop :=
  (s'.db.campaigns.lookup c).map (·.caps.allocationCap) =
    (s.db.campaigns.lookup c).map (·.caps.allocationCap)

/-- The active allocations of the campaign are within its cap. -/
def WithinCap (c : Uuid) (s : BudgetState) : Prop :=
  ∀ cap, (s.db.campaigns.lookup c).map (·.caps.allocationCap) = some cap →
    activeSum s.db c ≤ cap

theorem activeSum_congr
    (h : db'.allocations.filter (isActiveIn c) = db.allocations.filter (isActiveIn c)) :
    activeSum db' c = activeSum db c := by
  simp only [activeSum, sumWhere, h]

theorem othersSum_le (db : Db) (c channelId : Uuid) :
    othersSum db c channelId ≤ activeSum db c := by
  refine (sumWhere_le_add (q := isActiveIn c) (r := fun _ => false) fun a _ ha => ?_).trans ?_
  · rw [Bool.and_eq_true] at ha
    exact .inl ha.1
  · simp [activeSum, sumWhere]

/-- The commit of an approval of the campaign keeps the sum within an unchanged cap. -/
theorem withinCap_commit (hinv : AllocInv s) (hwithin : WithinCap plan.campaign_id s)
    (hplan : plan ∈ s.inFlight) (h : approveCommit s.db plan = .ok db') :
    WithinCap plan.campaign_id ⟨db', s.inFlight.erase plan⟩ := by
  obtain ⟨-, rfl⟩ := approveCommit_eq_ok h
  obtain ⟨row, campaign, hrow, hid, hc, hcampaign, hprev, hpos, hzero⟩ := hinv.plans plan hplan
  have hsum := activeSum_commit hinv.ids hinv.single hrow hid hprev
  intro cap hcap
  simp only [hcampaign, Option.map_some, Option.some.injEq] at hcap
  subst hcap
  refine hsum.trans ?_
  rcases Nat.eq_zero_or_pos campaign.caps.allocationCap with h0 | h0
  · -- Without a budget every active amount is zero, and so is the new one.
    have hold := hwithin campaign.caps.allocationCap (by simp [hcampaign])
    have hothers := othersSum_le s.db plan.campaign_id row.channel_id
    have hrow0 := hzero h0
    omega
  · exact hpos h0

/-- A step that leaves the cap alone keeps the active allocations within it. -/
theorem WithinCap.step {a : BudgetAction} (hinv : AllocInv s) (hwithin : WithinCap c s)
    (h : budgetSystem.step s a s') (hkeep : KeepsCap c s a s') : WithinCap c s' := by
  -- It is enough that the active rows of the campaign stay.
  have hsame : s'.db.allocations.filter (isActiveIn c) = s.db.allocations.filter (isActiveIn c) →
      WithinCap c s' := by
    intro hfilter cap hcap
    rw [activeSum_congr hfilter]
    exact hwithin cap (hkeep ▸ hcap)
  cases a with
  | propose campaignId campaign channels list rationale actor ids =>
    obtain ⟨db', hdb', hs'⟩ := bind_eq_ok.mp h
    obtain rfl := pure_eq_ok.mp hs'
    exact hsame ((propose_quiet hdb').active c)
  | reject id accountId =>
    obtain ⟨db', hdb', hs'⟩ := bind_eq_ok.mp h
    obtain rfl := pure_eq_ok.mp hs'
    exact hsame ((reject_quiet hdb').active c)
  | approveBegin id accountId =>
    obtain ⟨plan, _, h⟩ := bind_eq_ok.mp h
    obtain ⟨_, _, hs'⟩ := bind_eq_ok.mp h
    obtain rfl := pure_eq_ok.mp hs'
    exact hsame rfl
  | approveCommit plan =>
    obtain ⟨_, hmem, h⟩ := bind_eq_ok.mp h
    obtain ⟨db', hdb', hs'⟩ := bind_eq_ok.mp h
    obtain rfl := pure_eq_ok.mp hs'
    have hplan : plan ∈ s.inFlight := by simpa using hmem
    by_cases hc : c = plan.campaign_id
    · subst hc
      exact withinCap_commit hinv hwithin hplan hdb'
    · obtain ⟨-, rfl⟩ := approveCommit_eq_ok hdb'
      exact hsame (filter_commit_other hinv.ids (hinv.plans plan hplan) hc)
  | approveAbort plan =>
    obtain rfl := pure_eq_ok.mp h
    exact hsame rfl
  | configure campaigns channels =>
    obtain ⟨_, _, hs'⟩ := bind_eq_ok.mp h
    obtain rfl := pure_eq_ok.mp hs'
    exact hsame rfl
  | deleteCampaign campaignId =>
    obtain ⟨_, _, hs'⟩ := bind_eq_ok.mp h
    obtain rfl := pure_eq_ok.mp hs'
    intro cap hcap
    -- The sum over the rows that are left is at most the sum before.
    have hle : activeSum { s.db with
        campaigns := s.db.campaigns.erase campaignId
        allocations := s.db.allocations.filter (·.campaign_id != campaignId) } c ≤
        activeSum s.db c := by
      have hconj : ((s.db.allocations.filter (·.campaign_id != campaignId)).filter
          (isActiveIn c)).Sublist (s.db.allocations.filter (isActiveIn c)) :=
        List.filter_sublist.filter _
      exact (hconj.map _).sum_le_sum fun _ _ => Nat.zero_le _
    exact hle.trans (hwithin cap (hkeep ▸ hcap))

/-- Take any run of proposals, approvals and rejections, interleaved in any order, from a
    reachable state in which the campaign has no active allocation, that leaves the
    campaign's cap alone. At its end every channel of the campaign has at most one active
    allocation, and the active allocations sum to at most the cap approvals check against. -/
theorem allocations_within_cap {as : List BudgetAction} {campaign : Campaign}
    (hs : budgetSystem.Reachable s)
    (hnone : ∀ a ∈ s.db.allocations, a.campaign_id = c → a.status ≠ .active)
    (hp : (budgetSystem.restrict (KeepsCap c)).Path s as t)
    (hcampaign : t.db.campaigns.lookup c = some campaign) :
    (∀ a ∈ activeAllocations t.db c, ∀ b ∈ activeAllocations t.db c,
        a.channel_id = b.channel_id → a = b) ∧
      ((activeAllocations t.db c).map (·.amount_minor)).sum ≤ campaign.caps.allocationCap := by
  have hreach : budgetSystem.Reachable t := hs.path hp.of_restrict
  have hinv := allocInv_reachable hreach
  have hwithin : WithinCap c t := by
    clear hcampaign hreach hinv
    induction hp with
    | nil =>
      intro cap _
      have hempty : s.db.allocations.filter (isActiveIn c) = [] := by
        rw [List.filter_eq_nil_iff]
        intro a ha hact
        simp only [isActiveIn, Bool.and_eq_true, beq_iff_eq] at hact
        exact hnone a ha hact.1 hact.2
      simp [activeSum, sumWhere, hempty]
    | snoc hp' hstep ih =>
      exact WithinCap.step (allocInv_reachable (hs.path hp'.of_restrict)) ih hstep.1 hstep.2
  refine ⟨?_, hwithin _ (by simp [hcampaign])⟩
  intro a ha b hb hch
  obtain ⟨ha, hacta⟩ := List.mem_filter.mp ha
  obtain ⟨hb, hactb⟩ := List.mem_filter.mp hb
  simp only [Bool.and_eq_true, beq_iff_eq] at hacta hactb
  have hid := hinv.single a ha b hb hacta.2 hactb.2 (hacta.1.trans hactb.1.symm) hch
  exact List.inj_on_of_nodup_map hinv.ids ha hb hid

namespace Sample

def budgetCampaign : Campaign :=
  ⟨"acme", .active, ⟨"USD", 1000, .month, 500, 0⟩, 0, [], .manual, none⟩

/-- A store with one campaign, two channels and no allocation yet. -/
def budgetStart : BudgetState where
  db :=
    { campaigns := (∅ : AList fun _ : Uuid => Campaign).insert 1 budgetCampaign
      channels := ((∅ : AList fun _ : Uuid => Channel).insert 2 ⟨1, "search", .active⟩).insert 3
        ⟨1, "video", .active⟩
      allocations := []
      requests := ∅
      ledger := []
      operations := [] }
  inFlight := []

def proposeFor (channelId : Uuid) (amount : Int) (id : Uuid) : BudgetAction :=
  .propose 1 budgetCampaign budgetStart.db.channels [⟨channelId, .integer amount⟩] ""
    ⟨.user, "ann", "Ann"⟩ [id]

/-- A step of the sample that leaves the cap of campaign 1 alone. -/
def capRun (s : BudgetState) (a : BudgetAction) : Tx BudgetState := do
  let s' ← a.run s
  require ((s'.db.campaigns.lookup 1).map (·.caps.allocationCap) =
    (s.db.campaigns.lookup 1).map (·.caps.allocationCap)) (marketingError 500 "cap changed")
  return s'

theorem capRun_step {a : BudgetAction} (h : capRun s a = .ok s') :
    (budgetSystem.restrict (KeepsCap 1)).step s a s' := by
  simp only [capRun, bind_eq_ok, require_eq_ok, pure_eq_ok, decide_eq_true_eq] at h
  obtain ⟨_, hrun, _, hcap, rfl⟩ := h
  exact ⟨hrun, hcap⟩

end Sample

/-- Two channels get 300 and 200; then 250 replaces the 300, and another proposal comes in
    between the reads and the writes of that approval. -/
theorem allocations_within_cap_replaced :
    ∃ t : BudgetState, ((activeAllocations t.db 1).map (·.amount_minor)).sum = 450 ∧
      ((activeAllocations t.db 1).map (·.amount_minor)).sum ≤ 500 := by
  obtain ⟨t, hpath, hcheck⟩ := Transition.exists_path_of_run
    (M := budgetSystem.restrict (KeepsCap 1)) (fun _ _ _ h => Sample.capRun_step h)
    Sample.budgetStart
    [Sample.proposeFor 2 300 10, Sample.proposeFor 3 200 11,
      .approveBegin 10 "acme", .approveCommit ⟨1, 10, none⟩,
      .approveBegin 11 "acme", .approveCommit ⟨1, 11, none⟩,
      Sample.proposeFor 2 250 12, .approveBegin 12 "acme", Sample.proposeFor 3 400 13,
      .approveCommit ⟨1, 12, some 10⟩]
    (fun t => ((activeAllocations t.db 1).map (·.amount_minor)).sum = 450 &&
      t.db.campaigns.lookup 1 = some Sample.budgetCampaign) (by decide)
  simp only [Bool.and_eq_true, decide_eq_true_eq] at hcheck
  have hinit : budgetSystem.init Sample.budgetStart := ⟨rfl, rfl⟩
  have hcap := allocations_within_cap (Transition.Reachable.init hinit)
    (by simp [Sample.budgetStart]) hpath hcheck.2
  exact ⟨t, hcheck.1, hcap.2⟩

end WorkflowBoard.Marketing
