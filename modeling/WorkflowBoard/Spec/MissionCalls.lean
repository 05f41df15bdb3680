import WorkflowBoard.Spec.PumpWrites

/-!
# Calls as sequences of writes

Every call of the runner is a sequence of writes (`run_writes`), so that a property of a
mission over all its runs is a property of single writes (`mission_invariant`).
-/

namespace WorkflowBoard.Orchestration

namespace Runner

/-! ## The checks of the calls -/

section Checks

variable {r : Runner} {key : String} {caller : OrchestrationCaller}

/-- A budget that an update leaves, or one that is not below the attempts used. -/
theorem updateBudget_ok {fresh : Step} {input : StepUpdate} {n : Nat}
    (h : updateBudget fresh input = .ok n) :
    n = fresh.max_attempts ∨ (1 ≤ n ∧ fresh.attempt ≤ n) := by
  unfold updateBudget at h
  split at h
  · simp only [bind_eq_ok, pure_eq_ok] at h
    obtain ⟨_, _, rfl⟩ := h
    exact .inl rfl
  · simp only [bind_eq_ok, require_eq_ok, pure_eq_ok, Bool.and_eq_true,
      decide_eq_true_eq] at h
    obtain ⟨_, ⟨hlo, _⟩, _, hused, rfl⟩ := h
    refine .inr ?_
    omega

/-- What the checks of `updateStep` let through. -/
theorem updateChecks_ok {input : StepUpdate} {fresh : Step} {a : PlanAssignment} {n : Nat}
    (h : r.updateChecks key caller input = .ok (fresh, a, n)) :
    r.stepOf key = some fresh ∧ r.mission.status.isTerminal = false ∧
      updateAssignment r.mission fresh input = .ok a ∧ updateBudget fresh input = .ok n := by
  simp only [updateChecks, bind_eq_ok, orThrow_eq_ok, require_eq_ok, Bool.not_eq_true',
    pure_eq_ok, Prod.mk.injEq] at h
  obtain ⟨_, hstep, _, _, _, hopen, _, ha, _, hn, rfl, rfl, rfl⟩ := h
  exact ⟨hstep, hopen, ha, hn⟩

theorem reportChecks_ok {input : StepReport} {step : Step}
    (h : r.reportChecks key caller input = .ok step) :
    r.stepOf key = some step ∧ r.mission.status.isTerminal = false ∧
      step.status.isTerminal = false ∧ requireFreshLease step input.lease_token = .ok () := by
  simp only [reportChecks, bind_eq_ok, orThrow_eq_ok, require_eq_ok, Bool.not_eq_true',
    pure_eq_ok] at h
  obtain ⟨_, hstep, _, _, _, hopen, _, hlive, _, hlease, _, _, rfl⟩ := h
  exact ⟨hstep, hopen, hlive, hlease⟩

theorem reportProgress_ok {leaseToken : Option Nat} {checkpoint : Option String} {now : Date}
    {r' : Runner} (h : r.reportProgress key caller leaseToken checkpoint now = .ok r') :
    ∃ step, r.stepOf key = some step ∧ step.status.isTerminal = false ∧
      requireFreshLease step leaseToken = .ok () ∧
      r' = r.saveStep (progressed step checkpoint now) := by
  simp only [reportProgress, bind_eq_ok, orThrow_eq_ok, require_eq_ok, Bool.not_eq_true',
    pure_eq_ok] at h
  obtain ⟨step, hstep, _, _, _, hlive, _, hlease, rfl⟩ := h
  exact ⟨step, hstep, hlive, hlease, rfl⟩

/-- An answer that is accepted is the first one, to the visit the gate is open for. -/
theorem confirmChecks_some {input : ConfirmInput} {step : Step} {verdict : ConfirmVerdict}
    (h : r.confirmChecks key input = .ok (some (step, verdict))) :
    r.stepOf key = some step ∧ r.mission.status.isTerminal = false ∧
      isConfirmNode r.mission step.step_key = true ∧ step.status = .awaiting_user ∧
      1 ≤ input.visit ∧ input.visit = step.visit ∧
      readConfirmVerdict input.verdict = some verdict ∧
      ∀ prior, step.confirm_decision = some prior → input.visit ≠ prior.visit := by
  simp only [confirmChecks, bind_eq_ok, orThrow_eq_ok, require_eq_ok, Bool.not_eq_true',
    decide_eq_true_eq] at h
  obtain ⟨verdict', hverdict, _, hvisit, step', hstep, _, hopen, _, hconfirm, h⟩ := h
  split at h
  · simp only [bind_eq_ok, pure_eq_ok] at h
    obtain ⟨_, _, hnone⟩ := h
    cases hnone
  · rename_i hprior
    simp only [bind_eq_ok, require_eq_ok, pure_eq_ok, decide_eq_true_eq,
      Option.some.injEq, Prod.mk.injEq] at h
    obtain ⟨_, hawait, _, hsame, rfl, rfl⟩ := h
    refine ⟨hstep, hopen, hconfirm, ?_, hvisit, hsame, hverdict, fun prior hsome heq => ?_⟩
    · cases hs : step'.status <;> rw [hs] at hawait <;> first | rfl | cases hawait
    · rw [hsome, Option.filter_some, if_pos (decide_eq_true heq)] at hprior
      cases hprior

/-- The grace window of a silent step has passed. -/
def GraceOver (step : Step) (now : Date) (graceMs timeoutMinutes : Int) : Prop :=
  ∃ at_ since, baseline step = some at_ ∧ timeoutMinutes * 60000 ≤ now - at_ ∧
    step.lease_stale_since = some since ∧ graceMs ≤ now - since

/-- What the reconciler does: nothing, a note on the lease, or a recovery. -/
theorem reconcileStaleLease_cases (r : Runner) (key : String) (now : Date)
    (graceMs timeoutMinutes : Int) (fates : String → DispatchFate) :
    (r.reconcileStaleLease key now graceMs timeoutMinutes fates).runner = r ∨
      ∃ step, r.stepOf key = some step ∧ step.status.isInFlight = true ∧
        r.mission.status = .running ∧
        ((∃ since, (r.reconcileStaleLease key now graceMs timeoutMinutes fates).runner =
            r.saveStep { step with lease_stale_since := since }) ∨
          (GraceOver step now graceMs timeoutMinutes ∧ ∃ silentMs,
            r.reconcileStaleLease key now graceMs timeoutMinutes fates =
              r.recoverLease step silentMs now fates)) := by
  unfold reconcileStaleLease
  split
  · exact .inl rfl
  · rename_i step hstep
    split
    · exact .inl rfl
    · rename_i hgo
      rw [not_or, not_not, Bool.not_eq_true, Bool.not_eq_false'] at hgo
      split
      · exact .inl rfl
      · rename_i at_ hat
        dsimp only
        split
        · exact .inr ⟨step, hstep, hgo.1, hgo.2, .inl ⟨none, rfl⟩⟩
        · rename_i hsilent
          split
          · exact .inr ⟨step, hstep, hgo.1, hgo.2, .inl ⟨some now, rfl⟩⟩
          · rename_i since hsince
            split
            · exact .inl rfl
            · rename_i hgrace
              have hover : GraceOver step now graceMs timeoutMinutes :=
                ⟨at_, since, hat, Int.not_lt.mp hsilent, hsince, Int.not_lt.mp hgrace⟩
              exact .inr ⟨step, hstep, hgo.1, hgo.2, .inr ⟨hover, _, rfl⟩⟩

end Checks

/-! ## Calls -/

/-- What the guards ask of a call, on the state it finds. -/
def Meets (G : Guards) (now : Date) (r : Runner) : Action → Prop
  | .updateMission p => ∀ r', r.updateMission p = .ok r' → G.settings r p
  | .pauseMission => ∀ r', r.pauseMission = .ok r' → G.pause r.mission
  | .completeMission caller status summary =>
    ∀ r', r.completeMission caller status summary now = .ok r' → G.complete r
  | .submitPlan caller input _ => ∀ r', r.acceptPlan caller input = .ok r' → G.plan r input r'
  | .patchGraph caller patch _ => ∀ r', r.acceptPatch caller patch = .ok r' → G.patch r r'
  | .updateStep key caller input _ =>
    ∀ fresh a n, r.updateChecks key caller input = .ok (fresh, a, n) →
      (n ≠ fresh.max_attempts → G.budget fresh n) ∧
      (input.action = .reassign → fresh.status.isInFlight = false → (∃ x, a = .assign x) →
        G.reassign { fresh with max_attempts := n }) ∧
      (input.action ∈ [.skip, .cancel, .retry] → G.update { fresh with max_attempts := n })
  | .reopenMission .. => G.reopen r.mission
  | .reportStep key caller input _ =>
    ∀ step, r.reportChecks key caller input = .ok step → G.report r.mission step input ∧
      ∀ t ∈ (r.saveReport step input now).steps,
        GoesBack r.mission (reported step input now) t.step_key → G.back t
  | .submitConfirmDecision key input _ =>
    ∀ step verdict, r.confirmChecks key input = .ok (some (step, verdict)) →
      ∀ t ∈ (r.saveDecision step verdict input now).steps,
        GoesBack r.mission (decided step verdict input now) t.step_key → G.back t
  | .reconcileStaleLease key graceMs timeoutMinutes fates =>
    ∀ step, r.stepOf key = some step → step.status.isInFlight = true →
      r.mission.status = .running → GraceOver step now graceMs timeoutMinutes →
      step.retry_policy = .auto → step.attempt < step.max_attempts →
      (∀ error, fates step.step_key ≠ .refused error) → G.redispatch r.mission
  | .recoverPostActions => r.mission.status.isTerminal = true → G.post r
  | .sweepPostActions =>
    r.mission.status ∈ [.completed, .failed] → r.mission.post_actions_pending = true → G.post r
  | _ => True

section Run

variable {G : Guards} {r : Runner} {now : Date} {fates : String → DispatchFate}

theorem performAction_writes {fresh : Step} {input : StepUpdate} {a : PlanAssignment}
    {r' : Runner} (h : r.performAction fresh input a now = .ok r') (hmem : fresh ∈ r.steps)
    (hopen : r.mission.status.isTerminal = false)
    (hguard : input.action = .reassign → fresh.status.isInFlight = false →
      (∃ x, a = .assign x) → G.reassign fresh)
    (hupdate : input.action ∈ [.skip, .cancel, .retry] → G.update fresh) :
    Writes G r r' ∧ r'.mission = r.mission := by
  unfold performAction at h
  split at h
  · cases h
    exact ⟨.refl, rfl⟩
  all_goals rename_i haction
  · simp only [bind_eq_ok, require_eq_ok, Bool.not_eq_true', pure_eq_ok] at h
    obtain ⟨_, hidle, rfl⟩ := h
    exact ⟨.single (.skip _ now hopen hmem hidle (by simp [haction])
      (hupdate (by simp [haction]))), rfl⟩
  · simp only [bind_eq_ok, require_eq_ok, Bool.not_eq_true', pure_eq_ok] at h
    obtain ⟨_, hidle, rfl⟩ := h
    exact ⟨.single (.skip _ now hopen hmem hidle (by simp [haction])
      (hupdate (by simp [haction]))), rfl⟩
  · simp only [bind_eq_ok, require_eq_ok, Bool.not_eq_true', pure_eq_ok] at h
    obtain ⟨_, hidle, rfl⟩ := h
    exact ⟨.single (.amend input a hopen hmem hidle), rfl⟩
  · split at h
    · rename_i x
      simp only [bind_eq_ok, require_eq_ok, Bool.not_eq_true', pure_eq_ok] at h
      obtain ⟨_, hidle, rfl⟩ := h
      exact ⟨.single (.reassign x hopen hmem hidle (hguard haction hidle ⟨x, rfl⟩)), rfl⟩
    · cases h
  · simp only [bind_eq_ok, require_eq_ok, Bool.not_eq_true', pure_eq_ok,
      decide_eq_true_eq] at h
    obtain ⟨_, hidle, _, hbudget, rfl⟩ := h
    exact ⟨.single (.retry input _ hopen hmem hidle hbudget (hupdate (by simp [haction]))), rfl⟩

theorem updateStep_writes {key : String} {caller : OrchestrationCaller} {input : StepUpdate}
    (hs : r.Sane) (hm : Meets G now r (.updateStep key caller input fates)) :
    Writes G r (r.updateStep key caller input now fates).runner := by
  unfold updateStep
  split
  · exact .refl
  · rename_i fresh a n hchecks
    obtain ⟨hbudget, hreassign, hupdate⟩ := hm fresh a n hchecks
    obtain ⟨hstep, hopen, _, hn⟩ := updateChecks_ok hchecks
    obtain ⟨hmem, _⟩ := stepOf_some hstep
    dsimp only
    -- the budget is saved first, whatever becomes of the action
    have hsaved : Writes G r (r.saveStep { fresh with max_attempts := n }) := by
      by_cases hsame : n = fresh.max_attempts
      · have hself : r.saveStep { fresh with max_attempts := n } = r := by
          rw [hsame]
          exact hs.distinct.saveStep_self hmem
        rw [hself]
      · rcases updateBudget_ok hn with hn | ⟨hlo, hused⟩
        · exact absurd hn hsame
        · exact .single (.budget hopen hmem hlo hused (hbudget hsame))
    have hmem' : { fresh with max_attempts := n } ∈
        (r.saveStep { fresh with max_attempts := n }).steps :=
      saveStep_mem (s := { fresh with max_attempts := n }) (mem_keys (s := fresh) hmem)
    split
    · exact hsaved
    · rename_i r' haction
      obtain ⟨hwrites, hmission⟩ :=
        performAction_writes (G := G) haction hmem' hopen hreassign hupdate
      have hopen' : r'.mission.status.isTerminal = false := by
        rw [hmission]
        exact hopen
      have hunblock : Write G r' r'.unblockAutoBlockedDependents := .unblock hopen'
      have hall : Writes G r _ := (hsaved.trans hwrites).tail hunblock
      exact hall.trans (settle_writes (hall.sane hs) hopen')

theorem recoverLease_writes {step : Step} {silentMs : Int} (hs : r.Sane) (hmem : step ∈ r.steps)
    (hin : step.status.isInFlight = true) (hrun : r.mission.status = .running)
    (hguard : step.retry_policy = .auto → step.attempt < step.max_attempts →
      (∀ error, fates step.step_key ≠ .refused error) → G.redispatch r.mission) :
    Writes G r (r.recoverLease step silentMs now fates).runner := by
  have hopen : ∀ m : Mission, m.status = .running → m.status.isTerminal = false := by
    intro m hm
    rw [hm]
    rfl
  unfold recoverLease
  dsimp only
  split
  · have hwrite : Write G r _ := .expire (leaseExpired silentMs)
      (decide (step.attempt < step.max_attempts)) now hrun hmem hin
    exact .head hwrite (settle_writes (hwrite.sane hs) (hopen _ hrun))
  · rename_i hgo
    rw [not_or] at hgo
    have hauto : step.retry_policy = .auto := by
      cases hp : step.retry_policy with
      | auto => rfl
      | manual => exact absurd hp hgo.1
    have hleft : step.attempt < step.max_attempts := by
      simpa using hgo.2
    have hnote : Write G r (r.saveStep { step with lease_stale_since := none }) :=
      .noteLease none hrun hmem hin
    have hunblock : Write G _ (r.saveStep
        { step with lease_stale_since := none }).unblockAutoBlockedDependents :=
      .unblock (hopen _ hrun)
    have hall : Writes G r _ := (Relation.ReflTransGen.single hnote).tail hunblock
    have hsane := hall.sane hs
    have hmem' : { step with lease_stale_since := none } ∈ (r.saveStep
        { step with lease_stale_since := none }).unblockAutoBlockedDependents.steps := by
      refine mem_saveSteps_of_not (saveStep_mem (s := { step with lease_stale_since := none })
        (mem_keys (s := step) hmem)) ?_
      have hnot : isAutoBlocked { step with lease_stale_since := none } = false := by
        unfold isAutoBlocked
        cases hst : step.status <;> rw [hst] at hin <;> first | rfl | cases hin
      rw [hnot]
      rfl
    have hmission : (r.saveStep
        { step with lease_stale_since := none }).unblockAutoBlockedDependents.mission = r.mission :=
      rfl
    generalize (r.saveStep { step with lease_stale_since := none }).unblockAutoBlockedDependents =
      r₁ at hall hsane hmem' hmission
    have hrun₁ : r₁.mission.status = .running := hmission ▸ hrun
    unfold dispatchStep
    cases hfate : fates step.step_key with
    | delivered =>
      exact hall.tail (.redispatch now hrun₁ hmem' hin hauto hleft
        (hmission ▸ hguard hauto hleft fun error h => by rw [hfate] at h; cases h))
    | refused error =>
      have hwrite : Write G r₁ _ :=
        .expire (leaseExpired silentMs ++ " Re-dispatch also failed: " ++
        error) (decide (step.attempt < step.max_attempts)) now hrun₁ hmem' hin
      exact (hall.tail hwrite).trans (settle_writes (hwrite.sane hsane) (hopen _ hrun₁))
    | undelivered error =>
      have hagain : Write G r₁ _ := .redispatch now hrun₁ hmem' hin hauto hleft
        (hmission ▸ hguard hauto hleft fun error h => by rw [hfate] at h; cases h)
      have hmem₂ : r₁.stamped { step with lease_stale_since := none } now ∈
          (r₁.stampDispatch { step with lease_stale_since := none } now).steps :=
        saveStep_mem (s := r₁.stamped { step with lease_stale_since := none } now)
          (mem_keys (s := { step with lease_stale_since := none }) hmem')
      have hwrite : Write G (r₁.stampDispatch { step with lease_stale_since := none } now) _ :=
        .expire (leaseExpired silentMs ++ " Re-dispatch also failed: " ++ error)
          (decide (step.attempt < step.max_attempts)) now hrun₁ hmem₂ rfl
      exact ((hall.tail hagain).tail hwrite).trans
        (settle_writes (hwrite.sane (hagain.sane hsane)) (hopen _ hrun₁))

/-- A call that meets the guards is a sequence of writes that meet them. -/
theorem run_writes {a : Action} (hs : r.Sane) (hfree : a.locks = true → r.post = none)
    (hm : Meets G now r a) : Writes G r (a.run now r).runner := by
  have hsettled : ∀ x : Except Refusal Runner, (∀ r', x = .ok r' → Writes G r r') →
      Writes G r (r.settled x).runner := by
    intro x hx
    cases x with
    | error e => exact .refl
    | ok r' => exact hx r' rfl
  cases a with
  | updateMission p =>
    exact hsettled _ fun r' h => .single (.life (.settings h (hm r' h)))
  | startMission v => exact .single (.life (.start v now))
  | pauseMission => exact hsettled _ fun r' h => .single (.life (.pause h (hm r' h)))
  | resumeMission fates =>
    refine hsettled _ fun r' h => ?_
    simp only [resumeMission, bind_eq_ok, require_eq_ok, decide_eq_true_eq,
      pure_eq_ok] at h
    obtain ⟨_, hpaused, rfl⟩ := h
    have hwrite : Write G r _ := .life (.resume hpaused)
    exact .head hwrite (pump_writes (hwrite.sane hs))
  | cancelMission reason => exact hsettled _ fun r' h => .single (.life (.cancel h))
  | reopenMission agent v => exact .single (.life (.reopen agent v (hfree rfl) hm))
  | completeMission caller status summary =>
    exact hsettled _ fun r' h => .single (.life (.complete h (hm r' h)))
  | updateCriteria caller updates => exact hsettled _ fun r' h => .single (.life (.criteria h))
  | submitPlan caller input fates =>
    refine hsettled _ fun r' h => ?_
    simp only [submitPlan, bind_eq_ok, pure_eq_ok] at h
    obtain ⟨r₁, haccept, rfl⟩ := h
    have hwrite : Write G r r₁ := .plan haccept (hm r₁ haccept)
    exact .head hwrite (pump_writes (hwrite.sane hs))
  | patchGraph caller patch fates =>
    refine hsettled _ fun r' h => ?_
    simp only [patchGraph, bind_eq_ok, pure_eq_ok] at h
    obtain ⟨r₁, haccept, rfl⟩ := h
    have hwrite : Write G r r₁ := .patch haccept (hm r₁ haccept)
    exact .head hwrite (pump_writes (hwrite.sane hs))
  | updateStep key caller input fates => exact updateStep_writes hs hm
  | reportProgress key caller leaseToken checkpoint =>
    refine hsettled _ fun r' h => ?_
    obtain ⟨step, hstep, hlive, hlease, rfl⟩ := reportProgress_ok h
    exact .single (.progress checkpoint now (stepOf_some hstep).1 hlive hlease)
  | reportStep key caller input fates =>
    refine hsettled _ fun r' h => ?_
    simp only [reportStep, bind_eq_ok, pure_eq_ok] at h
    obtain ⟨step, hchecks, rfl⟩ := h
    obtain ⟨hguard, hback⟩ := hm step hchecks
    obtain ⟨hstep, hopen, hlive, hlease⟩ := reportChecks_ok hchecks
    have hwrite : Write G r (r.saveReport step input now) :=
      .report now hopen (stepOf_some hstep).1 hlive hlease hguard
    obtain ⟨hwrites, hmission⟩ := applyGraphTransitions_writes
      (r := r.saveReport step input now) (reported step input now) hopen hback
    have hall : Writes G r _ := .head hwrite hwrites
    exact hall.trans (settle_writes (hall.sane hs) (by rw [hmission]; exact hopen))
  | submitConfirmDecision key input fates =>
    change Writes G r (r.submitConfirmDecision key input now fates).runner
    unfold submitConfirmDecision
    split
    · exact .refl
    · exact .refl
    · rename_i step verdict hchecks
      obtain ⟨hstep, hopen, hconfirm, hawait, hlo, hvisit, _, hprior⟩ := confirmChecks_some hchecks
      have hwrite : Write G r ((r.saveDecision step verdict input now).record
          [.routed step.step_key]) :=
        .decide verdict now hopen (stepOf_some hstep).1 hconfirm hawait hlo hvisit hprior
      obtain ⟨hwrites, hmission⟩ := applyGraphTransitions_writes
        (r := (r.saveDecision step verdict input now).record [.routed step.step_key])
        (decided step verdict input now) hopen (hm step verdict hchecks)
      have hall : Writes G r _ := .head hwrite hwrites
      exact hall.trans (settle_writes (hall.sane hs) (by rw [hmission]; exact hopen))
  | reconcileStaleLease key graceMs timeoutMinutes fates =>
    change Writes G r (r.reconcileStaleLease key now graceMs timeoutMinutes fates).runner
    rcases reconcileStaleLease_cases r key now graceMs timeoutMinutes fates with heq |
      ⟨step, hstep, hin, hrun, ⟨since, heq⟩ | ⟨hgrace, silentMs, heq⟩⟩
    · rw [heq]
    · rw [heq]
      exact .single (.noteLease since hrun (stepOf_some hstep).1 hin)
    · rw [heq]
      exact recoverLease_writes hs (stepOf_some hstep).1 hin hrun (hm step hstep hin hrun hgrace)
  | failStepExternally key reason fates =>
    change Writes G r (r.failStepExternally key reason now fates).runner
    unfold failStepExternally
    split
    · exact .refl
    · rename_i step hstep
      split
      · exact .refl
      · rename_i hgo
        rw [not_or, Bool.not_eq_true, Bool.not_eq_true] at hgo
        have hwrite : Write G r _ :=
          .failExternally reason now hgo.2 (stepOf_some hstep).1 hgo.1
        exact .head hwrite (settle_writes (hwrite.sane hs) hgo.2)
  | failMissionExternally expectedRunning reason =>
    exact .single (.life (.giveUp expectedRunning reason now))
  | recoverPostActions =>
    change Writes G r r.recoverPostActions
    unfold recoverPostActions
    split
    · rename_i hended
      exact .single (.life (.recover (hfree rfl) hended (hm hended)))
    · exact .refl
  | sweepPostActions =>
    change Writes G r r.sweepPostActions
    unfold sweepPostActions
    split
    · rename_i hdue
      unfold recoverPostActions
      split
      · rename_i hended
        exact .single (.life (.recover (hfree rfl) hended (hm hdue.1 hdue.2)))
      · exact .refl
    · exact .refl
  | postStep fate => exact .single (.life (.postStep now fate))
  | crash => exact .single (.life .crash)

end Run

/-! ## Runs -/

variable {r : Runner} {C : Runner → Date × Action → Runner → Prop}

theorem createMission_ok {input : MissionInput} (h : createMission input = some r) :
    r.mission.status = .draft ∧ r.mission.room_id = none ∧ r.mission.graph_spec = none ∧
      r.steps = [] ∧ r.post = none ∧ r.log = [] := by
  unfold createMission at h
  cases hcriteria : normalizeCompletionCriteria input.completion_criteria with
  | none => rw [hcriteria] at h; cases h
  | some criteria =>
    rw [hcriteria] at h
    cases h
    exact ⟨rfl, rfl, rfl, rfl, rfl, rfl⟩

theorem sane_createMission {input : MissionInput} (h : createMission input = some r) : r.Sane := by
  obtain ⟨_, _, hgraph, hsteps, _, _⟩ := createMission_ok h
  have hkeys : r.keys = [] := by
    unfold keys
    rw [hsteps]
    rfl
  refine ⟨?_, ?_, ?_, ?_, ?_⟩
  · unfold Distinct
    rw [hkeys]
    exact List.nodup_nil
  · rw [hkeys]
    exact nofun
  all_goals
    intro spec hspec
    rw [hgraph] at hspec
    cases hspec

/-- A step of the system that meets the guards is a sequence of writes. -/
theorem step_writes {G : Guards} {r r' : Runner} {now : Date} {a : Action} (hs : r.Sane)
    (h : missionSystem.step r (now, a) r') (hm : Meets G now r a) : Writes G r r' := by
  obtain ⟨hfree, hrun⟩ := h
  rw [← hrun]
  exact run_writes hs hfree hm

/-- What holds of a new mission and is kept by every guarded write holds in every run whose
    calls meet the guards. -/
theorem mission_invariant {P : Runner → Prop} (G : Guards)
    (hC : ∀ r now a r', C r (now, a) r' → Meets G now r a)
    (h0 : ∀ input r, createMission input = some r → P r)
    (hstep : ∀ r r', r.Sane → P r → Write G r r' → P r')
    (h : (missionSystem.restrict C).Reachable r) : r.Sane ∧ P r := by
  refine h.invariant (P := fun r => r.Sane ∧ P r) ?_ ?_
  · rintro r ⟨input, hcreate⟩
    exact ⟨sane_createMission hcreate, h0 input r hcreate⟩
  · rintro r ⟨now, a⟩ r' _ ⟨hs, hp⟩ ⟨hcall, hc⟩
    exact (step_writes hs hcall (hC r now a r' hc)).invariant hstep hs hp

theorem meets_default {now : Date} (a : Action) : Meets {} now r a := by
  cases a with
  | updateStep => exact fun _ _ _ _ => ⟨fun _ => trivial, fun _ _ _ => trivial, fun _ => trivial⟩
  | reportStep => exact fun _ _ => ⟨trivial, fun _ _ _ => trivial⟩
  | submitConfirmDecision => exact fun _ _ _ _ _ _ => trivial
  | reconcileStaleLease => exact fun _ _ _ _ _ _ _ _ => trivial
  | updateMission => exact fun _ _ => trivial
  | pauseMission => exact fun _ _ => trivial
  | completeMission => exact fun _ _ => trivial
  | submitPlan => exact fun _ _ => trivial
  | patchGraph => exact fun _ _ => trivial
  | recoverPostActions => exact fun _ => trivial
  | sweepPostActions => exact fun _ _ => trivial
  | _ => trivial

theorem reachable_invariant {P : Runner → Prop} (h0 : ∀ input r, createMission input = some r → P r)
    (hstep : ∀ r r', r.Sane → P r → Write {} r r' → P r')
    (h : missionSystem.Reachable r) : r.Sane ∧ P r := by
  refine h.invariant (P := fun r => r.Sane ∧ P r) ?_ ?_
  · rintro r ⟨input, hcreate⟩
    exact ⟨sane_createMission hcreate, h0 input r hcreate⟩
  · rintro r ⟨now, a⟩ r' _ ⟨hs, hp⟩ hcall
    exact (step_writes hs hcall (meets_default a)).invariant hstep hs hp

theorem reachable_sane (h : missionSystem.Reachable r) : r.Sane :=
  (reachable_invariant (P := fun _ => True) (fun _ _ _ => trivial) (fun _ _ _ _ _ => trivial) h).1

/-- The call as a partial function, for runs of the system. -/
def runCall (r : Runner) (call : Date × Action) : Except Unit Runner :=
  if call.2.locks ∧ r.post ≠ none then .error () else .ok (call.2.run call.1 r).runner

theorem runCall_step {r r' : Runner} {call : Date × Action} (h : runCall r call = .ok r') :
    missionSystem.step r call r' := by
  unfold runCall at h
  split at h
  · cases h
  · rename_i hfree
    refine ⟨fun hlocks => ?_, Except.ok.inj h⟩
    exact not_not.mp fun hpost => hfree ⟨hlocks, hpost⟩

/-- A run from a new mission whose end passes the check `p` is a reachable state. -/
theorem exists_reachable_of_run (input : MissionInput) (calls : List (Date × Action))
    (p : Runner → Bool) (h : ((createMission input).any fun r =>
      (Transition.runList runCall r calls).toOption.any p) = true) :
    ∃ r, missionSystem.Reachable r ∧ p r = true := by
  obtain ⟨r, hcreate, hrun⟩ := (Option.any_eq_true _ _).mp h
  obtain ⟨t, hpath, hp⟩ := Transition.exists_path_of_run (M := missionSystem)
    (fun _ _ _ hcall => runCall_step hcall) r calls p hrun
  exact ⟨t, Transition.Reachable.path (.init ⟨input, hcreate⟩) hpath, hp⟩

/-- The call, if it passes the check `c`. -/
def checkedCall (c : Runner → Date × Action → Bool) (r : Runner) (call : Date × Action) :
    Except Unit Runner :=
  if c r call then runCall r call else .error ()

theorem checkedCall_step {c : Runner → Date × Action → Bool}
    (hc : ∀ r call r', c r call = true → C r call r') {r r' : Runner} {call : Date × Action}
    (h : checkedCall c r call = .ok r') : (missionSystem.restrict C).step r call r' := by
  unfold checkedCall at h
  split at h
  · rename_i hpass
    exact ⟨runCall_step h, hc r call r' hpass⟩
  · cases h

/-- The same for the runs whose calls pass a check. -/
theorem exists_restricted_of_run
    (c : Runner → Date × Action → Bool) (hc : ∀ r call r', c r call = true → C r call r')
    (input : MissionInput) (calls : List (Date × Action)) (p : Runner → Bool)
    (h : ((createMission input).any fun r =>
      (Transition.runList (checkedCall c) r calls).toOption.any p) = true) :
    ∃ r, (missionSystem.restrict C).Reachable r ∧ p r = true := by
  obtain ⟨r, hcreate, hrun⟩ := (Option.any_eq_true _ _).mp h
  obtain ⟨t, hpath, hp⟩ := Transition.exists_path_of_run (M := missionSystem.restrict C)
    (fun _ _ _ hcall => checkedCall_step hc hcall) r calls p hrun
  exact ⟨t, Transition.Reachable.path (.init ⟨input, hcreate⟩) hpath, hp⟩

end Runner

/-! ## A small mission

One orchestrator and one member on a host, for the runs that show a defect. -/

def smallMember : RosterSlot :=
  { slot_id := "member", name := "Member", max_concurrent := 1
    spec := { manager_agent_id := "host", cli := "cli" } }

def smallOrchestrator : RosterSlot :=
  { slot_id := ORCHESTRATOR_SLOT_ID, name := "Orchestrator", max_concurrent := 1
    spec := { manager_agent_id := "host", cli := "cli", credential_id := "own" } }

def smallView : StartView :=
  { orchestrator := some smallOrchestrator, members := [smallMember]
    host_folders := fun _ => [("host", "/work")], room := "room" }

def smallMission : MissionInput := { projects := [⟨"project", "Project"⟩] }

/-- The session of the agent in a slot of the small mission. -/
def smallCaller (slot : RosterSlot) : OrchestrationCaller :=
  ⟨runtimeIdentityKey { slot.spec with working_dir := "/work", folder_scope := .shared }, none⟩

end WorkflowBoard.Orchestration
