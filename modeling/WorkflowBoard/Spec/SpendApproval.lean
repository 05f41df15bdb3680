import WorkflowBoard.Spec.SpendLedger

/-!
# Approvals of a spend request

Who approved a request is recorded in its `approvals`. The list only grows while the
request is pending, a user is added at most once and never the requester, and the
final approval has two entries when dual approval is required then.
-/

namespace WorkflowBoard.Marketing

variable {env : SpendEnv} {db db' : Db} {id : Uuid} {row row' : SpendRequest}
  {rows : List LedgerEntry} {ops : List Uuid}

/-- The approvals are by different users, none of them the user who asked for the spend. -/
def ApprovedByOthers (row : SpendRequest) : Prop :=
  (row.approvals.map (·.user_id)).Nodup ∧
    (row.requested_by_type = .user → ∀ a ∈ row.approvals, a.user_id ≠ row.requested_by_id)

theorem SpendMove.requester_eq (h : SpendMove db id row row' rows ops) :
    row'.requested_by_type = row.requested_by_type ∧
      row'.requested_by_id = row.requested_by_id := by
  cases h with
  | settle to_ => cases to_ <;> exact ⟨rfl, rfl⟩
  | _ => exact ⟨rfl, rfl⟩

/-- Approvals are recorded on pending requests only. -/
theorem SpendMove.approvals_eq (h : SpendMove db id row row' rows ops)
    (hp : row.status ≠ .pending) : row'.approvals = row.approvals := by
  cases h with
  | firstApproval a hs => exact absurd hs hp
  | finalApproval a campaign now actor hs => exact absurd hs hp
  | settle to_ => cases to_ <;> rfl
  | _ => rfl

/-- Adding an allowed approval keeps the approvers distinct and other than the requester. -/
theorem ApprovedByOthers.add {a : Approval} (h : ApprovedByOthers row)
    (ha : ApprovalAllowed row a) (happ : row'.approvals = row.approvals ++ [a])
    (hreq : row'.requested_by_type = row.requested_by_type ∧
      row'.requested_by_id = row.requested_by_id) : ApprovedByOthers row' := by
  obtain ⟨hnodup, hother⟩ := h
  obtain ⟨hself, hnew⟩ := ha
  unfold ApprovedByOthers
  rw [happ, hreq.1, hreq.2]
  constructor
  · rw [List.map_append, List.map_singleton, List.nodup_append]
    refine ⟨hnodup, by simp, ?_⟩
    intro u hu v hv
    obtain ⟨b, hb, rfl⟩ := List.mem_map.mp hu
    rw [List.mem_singleton] at hv
    exact hv ▸ hnew b hb
  · intro htype b hb
    rcases List.mem_append.mp hb with hb | hb
    · exact hother htype b hb
    · rw [List.mem_singleton] at hb
      exact hb ▸ fun heq => hself ⟨htype, heq.symm⟩

/-- A move keeps the approvers distinct and other than the requester. -/
theorem SpendMove.approvedByOthers (h : SpendMove db id row row' rows ops)
    (hold : ApprovedByOthers row) : ApprovedByOthers row' := by
  have hreq := h.requester_eq
  cases h with
  | firstApproval a _ ha => exact hold.add ha rfl hreq
  | finalApproval a campaign now actor _ ha => exact hold.add ha rfl hreq
  | settle to_ => cases to_ <;> exact hold
  | _ => exact hold

/-- In every reachable state the approvers of every request are distinct and none of them is
    its requester. -/
theorem approvalInv_reachable (h : (spendSystem env).Reachable db) :
    ∀ id row, db.requests.lookup id = some row → ApprovedByOthers row := by
  refine h.invariant (P := fun db => ∀ id row, db.requests.lookup id = some row →
    ApprovedByOthers row) (fun db₀ hinit => ?_) fun s a s' _ hinv hstep => ?_
  · obtain ⟨hreq, -⟩ := hinit
    simp [hreq]
  · cases spendSystem_effect hstep with
    | idle hreq => rw [hreq]; exact hinv
    | create id row _ hnew hstored =>
      intro i r hr
      rw [hstored i] at hr
      split at hr
      · cases hr
        simp [ApprovedByOthers, hnew.2.1]
      · exact hinv i r hr
    | move id row row' rows ops hrow hmove hstored =>
      intro i r hr
      rw [hstored i] at hr
      split at hr
      · cases hr
        exact hmove.approvedByOthers (hinv id row hrow)
      · exact hinv i r hr

/-! ## From the final approval on -/

/-- A transaction that takes a request to another row makes a move of that request. -/
theorem SpendEffect.move_of_ne (h : SpendEffect db db') (hrow : db.requests.lookup id = some row)
    (hrow' : db'.requests.lookup id = some row') (hne : row ≠ row') :
    ∃ rows ops, SpendMove db id row row' rows ops := by
  cases h with
  | idle hreq =>
    rw [hreq, hrow] at hrow'
    exact absurd (Option.some.inj hrow') hne
  | create i r hfresh _ hstored =>
    rw [hstored id] at hrow'
    split at hrow'
    · rename_i hi
      rw [hi, hfresh] at hrow
      cases hrow
    · exact absurd (Option.some.inj (hrow.symm.trans hrow')) hne
  | move i r r' rows ops hr hmove hstored =>
    rw [hstored id] at hrow'
    split at hrow'
    · rename_i hi
      subst hi
      obtain rfl : row = r := Option.some.inj (hrow.symm.trans hr)
      cases hrow'
      exact ⟨rows, ops, hmove⟩
    · exact absurd (Option.some.inj (hrow.symm.trans hrow')) hne

/-- The move from pending to approved is the final approval. -/
theorem SpendMove.final_approval (h : SpendMove db id row row' rows ops)
    (hret : ReturnOpen row → row.status = .paid)
    (hp : row.status = .pending) (ha : row'.status = .approved) :
    ∃ a campaign, row'.approvals = row.approvals ++ [a] ∧
      db.campaigns.lookup row.campaign_id = some campaign ∧
      (dualRequired campaign row = true → 2 ≤ row'.approvals.length) := by
  cases h with
  | finalApproval a campaign now actor _ _ hcampaign hdual =>
    exact ⟨a, campaign, rfl, hcampaign, hdual⟩
  | settle to_ => cases to_ <;> simp [Settlement.set] at ha
  | close dest now _ hdest => rcases hdest with rfl | rfl | rfl <;> cases ha
  | cancelApproved | claim | toUnknown => cases ha
  | firstApproval | refund | startReturn => exact absurd (hp.symm.trans ha) (by decide)
  | completeReturn op hopen => exact absurd ((hret hopen).symm.trans ha) (by decide)
  | closeReturn status hopen => exact absurd ((hret hopen).symm.trans ha) (by decide)

/-- After it left pending a request keeps its approvals and its requester. -/
theorem approvals_fixed {s t : Db} {as : List SpendAction} {r : SpendRequest}
    (hs : (spendSystem env).Reachable s) (hpath : (spendSystem env).Path s as t)
    (hr : s.requests.lookup id = some r) (hp : r.status ≠ .pending) :
    ∃ later, t.requests.lookup id = some later ∧ later.approvals = r.approvals ∧
      later.requested_by_type = r.requested_by_type ∧
      later.requested_by_id = r.requested_by_id := by
  have key := hs.path_invariant (P := fun u => ∃ later, u.requests.lookup id = some later ∧
    later.status ≠ .pending ∧ later.approvals = r.approvals ∧
      later.requested_by_type = r.requested_by_type ∧ later.requested_by_id = r.requested_by_id)
    hpath ?_ ⟨r, hr, hp, rfl, rfl, rfl⟩
  · obtain ⟨later, hlater, -, h⟩ := key
    exact ⟨later, hlater, h⟩
  · rintro u a u' hu ⟨m, hm, hmp, happ, htype, hid⟩ hstep
    have hret := (spendInv_reachable hu).returning id m hm
    cases spendSystem_effect hstep with
    | idle hreq => exact ⟨m, by rw [hreq]; exact hm, hmp, happ, htype, hid⟩
    | create i row hfresh _ hstored =>
      refine ⟨m, ?_, hmp, happ, htype, hid⟩
      rw [hstored id, if_neg, hm]
      rintro rfl
      rw [hfresh] at hm
      cases hm
    | move i row row' rows ops hrow hmove hstored =>
      by_cases hi : id = i
      · subst hi
        obtain rfl : m = row := Option.some.inj (hm.symm.trans hrow)
        refine ⟨row', by rw [hstored id, if_pos rfl],
          fun hp' => hmp (hmove.of_pending hret hp').1, ?_⟩
        rw [hmove.approvals_eq hmp, hmove.requester_eq.1, hmove.requester_eq.2]
        exact ⟨happ, htype, hid⟩
      · exact ⟨m, by rw [hstored id, if_neg hi]; exact hm, hmp, happ, htype, hid⟩

/-- Take any reachable state and any transaction that moves a request from pending to
    approved. In every later state the request carries at least one approval, at least two
    when dual approval was required at that moment, no two by the same user and none by the
    user who requested it. -/
theorem approvals_after_final_approval {s s' t : Db} {a : SpendAction} {as : List SpendAction}
    (hs : (spendSystem env).Reachable s) (hstep : (spendSystem env).step s a s')
    (hrow : s.requests.lookup id = some row) (hpending : row.status = .pending)
    (hrow' : s'.requests.lookup id = some row') (happroved : row'.status = .approved)
    (hpath : (spendSystem env).Path s' as t) :
    ∃ later campaign, t.requests.lookup id = some later ∧
      s.campaigns.lookup row.campaign_id = some campaign ∧
      1 ≤ later.approvals.length ∧
      (dualRequired campaign row = true → 2 ≤ later.approvals.length) ∧
      (later.approvals.map (·.user_id)).Nodup ∧
      (row.requested_by_type = .user → ∀ a ∈ later.approvals, a.user_id ≠ row.requested_by_id) := by
  have hs' : (spendSystem env).Reachable s' := hs.step hstep
  have hne : row ≠ row' := by
    rintro rfl
    exact absurd (hpending.symm.trans happroved) (by decide)
  obtain ⟨rows, ops, hmove⟩ := (spendSystem_effect hstep).move_of_ne hrow hrow' hne
  obtain ⟨last, campaign, happ, hcampaign, hdual⟩ :=
    hmove.final_approval ((spendInv_reachable hs).returning id row hrow) hpending happroved
  obtain ⟨later, hlater, hsame, htype, hid⟩ :=
    approvals_fixed hs' hpath hrow' (by rw [happroved]; decide)
  have hothers := approvalInv_reachable (hs'.path hpath) id later hlater
  refine ⟨later, campaign, hlater, hcampaign, ?_, ?_, hothers.1, ?_⟩
  · rw [hsame, happ]
    simp
  · rw [hsame]
    exact hdual
  · intro hu
    rw [← hmove.requester_eq.1, ← htype] at hu
    have := hothers.2 hu
    rwa [hid, hmove.requester_eq.2] at this

/-- A request above the dual threshold: Alice approves first, Bob's approval is final, and the
    request still carries both when it is paid. -/
theorem approvals_after_final_approval_dual :
    ∃ t later, (spendSystem Sample.runtime).Reachable t ∧ t.requests.lookup 7 = some later ∧
      later.status = .paid ∧ 2 ≤ later.approvals.length := by
  obtain ⟨s, hs, hcheck⟩ := Sample.exists_reachable
    [Sample.requestAds, Sample.approveAds Sample.alice]
    (fun s => ((s.requests.lookup 7).any fun row => row.status = .pending &&
        (s.campaigns.lookup row.campaign_id).any fun c => dualRequired c row) &&
      (Sample.run s (Sample.approveAds Sample.bob)).toOption.any fun s' =>
        ((s'.requests.lookup 7).any (·.status = .approved)) &&
        (Transition.runList Sample.run s'
          [.markPaid 7 "acme" Sample.alice "tx-1" ""]).toOption.any fun t =>
            (t.requests.lookup 7).any (·.status = .paid)) (by decide)
  simp only [Bool.and_eq_true, Option.any_eq_true, decide_eq_true_eq, except_toOption_eq_some]
    at hcheck
  obtain ⟨⟨row, hrow, hpending, c, hc, hdual⟩, s', hstep, ⟨row', hrow', happroved⟩, t, hrun,
    later, hlater, hpaid⟩ := hcheck
  have hpath : (spendSystem Sample.runtime).Path s' _ t :=
    Transition.Path.append_run (fun _ _ _ h => h) (.nil s') hrun
  obtain ⟨later', campaign, hlater', hcampaign, -, htwo, -⟩ :=
    approvals_after_final_approval hs hstep hrow hpending hrow' happroved hpath
  obtain rfl : later = later' := Option.some.inj (hlater.symm.trans hlater')
  obtain rfl : c = campaign := Option.some.inj (hc.symm.trans hcampaign)
  exact ⟨t, later, (hs.step hstep).path hpath, hlater, hpaid, htwo hdual⟩

end WorkflowBoard.Marketing
