import WorkflowBoard.Spec.PlanAccepted

/-!
# What the runner can write

Every call of the runner is a sequence of single writes, each under the conditions the code
has checked when it makes it. `Write` lists them: the writes of the pump and of what follows
a finished step, the saves of the steps' updates and reports, and the operations on the
mission itself. A property of the rows or of the history that every write keeps is kept by
every call.

A result that needs more of the calls than the code checks names it in `Guards`: `Meets` is
the condition on a call, on the state it finds, and the writes of such a call carry the
guard.
-/

namespace WorkflowBoard.Orchestration

/-- What a result asks of the calls beyond the checks of the code. -/
structure Guards where
  complete : Runner → Prop := fun _ => True
  report : Mission → Step → StepReport → Prop := fun _ _ _ => True
  redispatch : Mission → Prop := fun _ => True
  back : Step → Prop := fun _ => True
  update : Step → Prop := fun _ => True
  reassign : Step → Prop := fun _ => True
  budget : Step → Nat → Prop := fun _ _ => True
  plan : Runner → PlanInput → Runner → Prop := fun _ _ _ => True
  patch : Runner → Runner → Prop := fun _ _ => True
  settings : Runner → MissionPatch → Prop := fun _ _ => True
  pause : Mission → Prop := fun _ => True
  reopen : Mission → Prop := fun _ => True
  post : Runner → Prop := fun _ => True

/-- The operations on the mission itself, each a single write. -/
inductive LifeWrite (G : Guards) (r : Runner) : Runner → Prop where
  | settings {p : MissionPatch} {r' : Runner} :
      r.updateMission p = .ok r' → G.settings r p → LifeWrite G r r'
  | start (v : StartView) (now : Date) : LifeWrite G r (r.startMission v now).runner
  | pause {r' : Runner} : r.pauseMission = .ok r' → G.pause r.mission → LifeWrite G r r'
  | resume : r.mission.status = .paused → LifeWrite G r (r.saveMission
      { r.mission with status := if 0 < r.mission.plan_version then .running else .planning })
  | cancel {reason : String} {now : Date} {r' : Runner} :
      r.cancelMission reason now = .ok r' → LifeWrite G r r'
  | reopen (agent : Option OrchestrationCaller) (v : StartView) :
      r.post = none → G.reopen r.mission → LifeWrite G r (r.reopenMission agent v).runner
  | complete {caller : OrchestrationCaller} {status : CompletionStatus} {summary : String}
      {now : Date} {r' : Runner} :
      r.completeMission caller status summary now = .ok r' → G.complete r → LifeWrite G r r'
  | criteria {caller : OrchestrationCaller} {updates : List CriterionUpdate} {r' : Runner} :
      r.updateCriteria caller updates = .ok r' → LifeWrite G r r'
  | giveUp (expectedRunning : Bool) (reason : String) (now : Date) :
      LifeWrite G r (r.failMissionExternally expectedRunning reason now).runner
  | postStep (now : Date) (fate : LaunchFate) : LifeWrite G r (r.postStep now fate)
  | crash : LifeWrite G r r.crash
  | recover : r.post = none → r.mission.status.isTerminal = true → G.post r →
      LifeWrite G r r.runPostActions

/-- The writes of the pump. -/
inductive PumpWrite : Runner → Runner → Prop where
  | openGate {r : Runner} {step : Step} (now : Date) :
      r.mission.status = .running → step ∈ r.steps → step.isWaiting = true →
      isConfirmNode r.mission step.step_key = true → hasVisitBudget r.mission = true →
      PumpWrite r (r.openConfirmGate step now)
  | dispatch {r : Runner} {step : Step} (now : Date) :
      r.mission.status = .running → step ∈ r.steps → step.isWaiting = true →
      isConfirmNode r.mission step.step_key = false → hasVisitBudget r.mission = true →
      (∀ spec, r.mission.graph_spec = some spec → step.step_key ∈ nodeKeysOf spec.nodes) →
      r.inFlightCount < r.mission.max_parallel_steps →
      loadBySlot r.steps (loadKey step) < slotCap r.mission (step.assignee_slot.getD "") →
      step.assignee_agent_id.all (· = "") = false →
      PumpWrite r (r.stampDispatch step now)
  | markReady {r : Runner} {step : Step} :
      r.mission.status = .running → step ∈ r.steps → step.isWaiting = true →
      PumpWrite r (r.saveStep { step with status := .ready })
  | failDispatch {r : Runner} {step : Step} (error : String) (now : Date) :
      r.mission.status = .running → step ∈ r.steps →
      step.isWaiting = true ∨ step.status = .dispatched →
      PumpWrite r (r.failDispatch step error now)

/-- The single writes of all calls. -/
inductive Write (G : Guards) : Runner → Runner → Prop where
  | pump {r r' : Runner} : PumpWrite r r' → Write G r r'
  | block {r : Runner} (now : Date) : r.mission.status.isTerminal = false →
      Write G r (r.propagateBlocking now)
  | unblock {r : Runner} : r.mission.status.isTerminal = false →
      Write G r r.unblockAutoBlockedDependents
  | reenter {r : Runner} {spec : GraphSpec} {body : List String} :
      r.mission.status.isTerminal = false → r.mission.graph_spec = some spec →
      (∀ key ∈ body, key ∈ r.keys) → (∀ t ∈ r.steps, t.step_key ∈ body → G.back t) →
      Write G r ((r.saveSteps (·.step_key ∈ body) Step.reenter).record (body.map .ended))
  | noteLease {r : Runner} {step : Step} (since : Option Date) :
      r.mission.status = .running → step ∈ r.steps → step.status.isInFlight = true →
      Write G r (r.saveStep { step with lease_stale_since := since })
  | redispatch {r : Runner} {step : Step} (now : Date) :
      r.mission.status = .running → step ∈ r.steps → step.status.isInFlight = true →
      step.retry_policy = .auto → step.attempt < step.max_attempts → G.redispatch r.mission →
      Write G r (r.stampDispatch step now)
  | expire {r : Runner} {step : Step} (reason : String) (budgetLeft : Bool) (now : Date) :
      r.mission.status = .running → step ∈ r.steps → step.status.isInFlight = true →
      Write G r ((r.saveStep (Runner.unrecoverable step reason budgetLeft now)).record
        [.ended step.step_key])
  | failExternally {r : Runner} {step : Step} (reason : String) (now : Date) :
      r.mission.status.isTerminal = false → step ∈ r.steps → step.status.isTerminal = false →
      Write G r ((r.saveStep (Runner.failedExternally step reason now)).record
        [.ended step.step_key])
  | progress {r : Runner} {step : Step} {leaseToken : Option Nat} (checkpoint : Option String)
      (now : Date) :
      step ∈ r.steps → step.status.isTerminal = false →
      Runner.requireFreshLease step leaseToken = .ok () →
      Write G r (r.saveStep (Runner.progressed step checkpoint now))
  | report {r : Runner} {step : Step} {input : StepReport} (now : Date) :
      r.mission.status.isTerminal = false → step ∈ r.steps → step.status.isTerminal = false →
      Runner.requireFreshLease step input.lease_token = .ok () → G.report r.mission step input →
      Write G r (r.saveReport step input now)
  | decide {r : Runner} {step : Step} (verdict : ConfirmVerdict) {input : ConfirmInput}
      (now : Date) :
      r.mission.status.isTerminal = false → step ∈ r.steps →
      isConfirmNode r.mission step.step_key = true → step.status = .awaiting_user →
      1 ≤ input.visit → input.visit = step.visit →
      (∀ prior, step.confirm_decision = some prior → input.visit ≠ prior.visit) →
      Write G r ((r.saveDecision step verdict input now).record [.routed step.step_key])
  | budget {r : Runner} {step : Step} {max_attempts : Nat} :
      r.mission.status.isTerminal = false → step ∈ r.steps → 1 ≤ max_attempts →
      step.attempt ≤ max_attempts → G.budget step max_attempts →
      Write G r (r.saveStep { step with max_attempts })
  | skip {r : Runner} {step : Step} (status : StepStatus) (now : Date) :
      r.mission.status.isTerminal = false → step ∈ r.steps → step.status.isInFlight = false →
      status = .skipped ∨ status = .cancelled → G.update step →
      Write G r ((r.saveStep { step with status, finished_at := some now }).record
        [.ended step.step_key])
  | amend {r : Runner} {step : Step} (input : StepUpdate) (a : PlanAssignment) :
      r.mission.status.isTerminal = false → step ∈ r.steps → step.status.isInFlight = false →
      Write G r (r.saveStep (Runner.reassigned (Runner.reworded step input) a))
  | reassign {r : Runner} {step : Step} (a : Assignment) :
      r.mission.status.isTerminal = false → step ∈ r.steps → step.status.isInFlight = false →
      G.reassign step →
      Write G r ((r.saveStep (Runner.reopenedBy step a)).record [.redone step.step_key])
  | retry {r : Runner} {step : Step} (input : StepUpdate) (a : PlanAssignment) :
      r.mission.status.isTerminal = false → step ∈ r.steps → step.status.isInFlight = false →
      step.attempt < step.max_attempts → G.update step →
      Write G r ((r.saveStep (Runner.retried step input a)).record [.redone step.step_key])
  | plan {r r' : Runner} {caller : OrchestrationCaller} {input : PlanInput} :
      r.acceptPlan caller input = .ok r' → G.plan r input r' → Write G r r'
  | patch {r r' : Runner} {caller : OrchestrationCaller} {patch : GraphPatchInput} :
      r.acceptPatch caller patch = .ok r' → G.patch r r' → Write G r r'
  | life {r r' : Runner} : LifeWrite G r r' → Write G r r'

/-! ## Operations on the mission -/

/-- The step an effect is about. -/
def Effect.stepKey : Effect → Option String
  | .dispatched key _ _ | .ended key | .redone key | .declared key | .added key
  | .unblocked key | .opened key _ | .decided key _ _ | .routed key => some key
  | .closed _ | .reopened | .listed | .actionDispatched _ => none

/-- Nothing of a step has changed. -/
structure Framed (r r' : Runner) : Prop where
  graph : r'.mission.graph_spec = r.mission.graph_spec
  visits : r'.mission.total_visits = r.mission.total_visits
  tokens : r'.tokens = r.tokens
  steps : r'.steps = r.steps
  log : ∃ es, r'.log = r.log ++ es ∧ ∀ e ∈ es, e.stepKey = none

theorem Framed.refl (r : Runner) : Framed r r :=
  ⟨rfl, rfl, rfl, rfl, [], (List.append_nil _).symm, nofun⟩

theorem Framed.trans {r₁ r₂ r₃ : Runner} (h : Framed r₁ r₂) (h' : Framed r₂ r₃) :
    Framed r₁ r₃ := by
  obtain ⟨es, hlog, hes⟩ := h.log
  obtain ⟨es', hlog', hes'⟩ := h'.log
  refine ⟨h'.graph.trans h.graph, h'.visits.trans h.visits, h'.tokens.trans h.tokens,
    h'.steps.trans h.steps, es ++ es', by rw [hlog', hlog, List.append_assoc], fun e he => ?_⟩
  cases List.mem_append.mp he with
  | inl he => exact hes e he
  | inr he => exact hes' e he

namespace Runner

variable {r : Runner}

/-- The mission with a patch and the criteria it gives. -/
def patchedBy (m : Mission) (p : MissionPatch) (criteria : List MissionCompletionCriterion) :
    Mission :=
  let post_actions := match p.post_actions with
    | none => m.post_actions
    | some given => normalizePostActions given
  { m with
    completion_criteria := criteria, post_actions
    post_actions_pending :=
      if p.post_actions.isSome then post_actions ≠ [] else m.post_actions_pending
    projects := p.projects.getD m.projects
    folder_scope := p.folder_scope.getD m.folder_scope
    graph_enabled := p.graph_enabled.getD m.graph_enabled
    confirm_policy := p.confirm_policy.getD m.confirm_policy
    max_parallel_steps :=
      clampInt p.max_parallel_steps m.max_parallel_steps 1 MAX_PARALLEL_CEILING
    max_steps := clampInt p.max_steps m.max_steps 1 MAX_STEPS_CEILING
    max_plan_versions := clampInt p.max_plan_versions m.max_plan_versions 1 50 }

theorem updateMission_ok {p : MissionPatch} {r' : Runner} (h : r.updateMission p = .ok r') :
    (r.mission.status = .draft ∨ p.touchesBrief = false) ∧ ∃ criteria,
      r' = (r.saveMission (patchedBy r.mission p criteria)).record
        (if p.post_actions.isSome then [.listed] else []) := by
  simp only [updateMission, bind_eq_ok, require_eq_ok, Bool.or_eq_true, decide_eq_true_eq,
    Bool.not_eq_true'] at h
  obtain ⟨_, _, _, hbrief, h⟩ := h
  refine ⟨hbrief, ?_⟩
  split at h
  · cases h
    exact ⟨r.mission.completion_criteria, rfl⟩
  · simp only [bind_eq_ok, pure_eq_ok] at h
    obtain ⟨criteria, _, rfl⟩ := h
    exact ⟨criteria, rfl⟩

/-- A start is refused, fails before the briefing with or without a roster, fails at the
    briefing, or gives the mission its room, its orchestrator and its roster. -/
theorem startMission_cases (r : Runner) (v : StartView) (now : Date) :
    (r.startMission v now).runner = r ∨ r.mission.status = .draft ∧
      ((∃ runtime_roster, (r.startMission v now).runner =
          r.saveMission { r.mission with runtime_roster }) ∨
        (∃ agent_id orchestrator_spec, (r.startMission v now).runner = r.saveMission
          { r.mission with
            runtime_roster := none, room_id := none, orchestrator_agent_id := some agent_id
            orchestrator_spec, status := .draft, started_at := none }) ∨
        ∃ roster agent_id orchestrator_spec, (r.startMission v now).runner = r.saveMission
          { r.mission with
            runtime_roster := some roster, room_id := some v.room
            orchestrator_agent_id := some agent_id, orchestrator_spec, status := .planning
            started_at := some now }) := by
  unfold startMission
  dsimp only
  split
  · exact .inl rfl
  · rename_i roster orchestrator hchecks
    have hdraft : r.mission.status = .draft := by
      simp only [startChecks, bind_eq_ok, require_eq_ok, decide_eq_true_eq] at hchecks
      exact hchecks.choose_spec.1
    refine .inr ⟨hdraft, ?_⟩
    cases v.fate with
    | prepare => exact .inl ⟨none, rfl⟩
    | room => exact .inl ⟨some roster, rfl⟩
    | prompt => exact .inr (.inr ⟨_, _, _, rfl⟩)
    | brief => exact .inr (.inl ⟨_, _, rfl⟩)
    | succeeds => exact .inr (.inr ⟨_, _, _, rfl⟩)

/-- A reopened mission was ended; it is a draft again if it has no room, and runs if it has
    one, then with a roster for its projects. -/
theorem reopenMission_cases (r : Runner) (agent : Option OrchestrationCaller) (v : StartView) :
    (r.reopenMission agent v).runner = r ∨ r.mission.status.isTerminal = true ∧
      ((r.mission.room_id.all (· = "") = true ∧ (r.reopenMission agent v).runner = (r.saveMission
          { r.mission with status := .draft, finished_at := none, failure_reason := "" }).record
            [.reopened]) ∨
        (r.mission.room_id.all (· = "") = false ∧ ∃ roster : Option MissionRuntimeRoster,
          (r.mission.projects ≠ [] → roster.isSome = true) ∧
          (r.reopenMission agent v).runner = (r.saveMission { r.mission with
            runtime_roster := roster.or r.mission.runtime_roster, status := .running
            finished_at := none, failure_reason := "" }).record [.reopened])) := by
  unfold reopenMission
  dsimp only
  split
  · exact .inl rfl
  · rename_i hallowed
    have hended : r.mission.status.isTerminal = true := by
      cases agent with
      | none => exact require_eq_ok.mp hallowed
      | some caller =>
        simp only [bind_eq_ok, require_eq_ok] at hallowed
        exact hallowed.choose_spec.2
    by_cases hroom : r.mission.room_id.all (· = "") = true
    · rw [if_pos hroom]
      exact .inr ⟨hended, .inl ⟨hroom, rfl⟩⟩
    · rw [if_neg hroom]
      split
      · exact .inl rfl
      · rename_i roster hroster
        have hsome : r.mission.projects ≠ [] → roster.isSome = true := by
          intro hprojects
          simp only [reopenChecks, bind_eq_ok] at hroster
          obtain ⟨_, _, hroster⟩ := hroster
          rw [if_neg hprojects] at hroster
          simp only [bind_eq_ok, pure_eq_ok] at hroster
          obtain ⟨_, _, rfl⟩ := hroster
          rfl
        cases v.fate with
        | prepare => exact .inl rfl
        | _ => exact .inr ⟨hended, .inr ⟨Bool.eq_false_iff.mpr hroom, roster, hsome, rfl⟩⟩

theorem framed_runPostActions : Framed r r.runPostActions := by
  unfold runPostActions
  split
  · exact .refl r
  · exact ⟨rfl, rfl, rfl, rfl, [], (List.append_nil _).symm, nofun⟩

theorem framed_postStep (now : Date) (fate : LaunchFate) : Framed r (r.postStep now fate) := by
  have hnil : ∀ e ∈ ([] : List Effect), e.stepKey = none := nofun
  have hquiet : ∀ (m : Mission) (post : Option PostRun) (runs : List ActionRun),
      m.graph_spec = r.mission.graph_spec → m.total_visits = r.mission.total_visits →
      Framed r { r with mission := m, post, runs } :=
    fun m post runs hgraph hvisits =>
      ⟨hgraph, hvisits, rfl, rfl, [], (List.append_nil _).symm, hnil⟩
  unfold postStep
  split
  · exact .refl r
  · split
    · exact hquiet _ _ _ rfl rfl
    · split
      · unfold visitEntry
        dsimp only
        split
        · split
          · exact hquiet _ _ _ rfl rfl
          · split <;> exact hquiet _ _ _ rfl rfl
        · split <;> exact hquiet _ _ _ rfl rfl
        · exact hquiet _ _ _ rfl rfl
      · unfold launch
        dsimp only
        split
        · exact hquiet _ _ _ rfl rfl
        all_goals
          refine ⟨rfl, rfl, rfl, rfl, _, rfl, fun e he => ?_⟩
          rw [List.mem_singleton.mp he]
          rfl
      · unfold finishLaunch
        split <;> exact hquiet _ _ _ rfl rfl

@[simp] theorem runPostActions_mission : r.runPostActions.mission = r.mission := by
  unfold runPostActions
  split <;> rfl

/-- The walk over the post-actions saves their list and the flag. -/
theorem postStep_mission (now : Date) (fate : LaunchFate) :
    ∃ post_actions post_actions_pending, (r.postStep now fate).mission =
      { r.mission with post_actions, post_actions_pending } := by
  have hsame : ∃ post_actions post_actions_pending, r.mission =
      { r.mission with post_actions, post_actions_pending } := ⟨_, _, rfl⟩
  unfold postStep
  split
  · exact hsame
  · split
    · exact hsame
    · split
      · unfold visitEntry
        dsimp only
        split
        · split
          · exact hsame
          · split <;> exact ⟨_, _, rfl⟩
        · split <;> exact ⟨_, _, rfl⟩
        · exact hsame
      · unfold launch
        split <;> exact hsame
      · unfold finishLaunch
        split <;> exact ⟨_, _, rfl⟩

theorem completeMission_ok {caller : OrchestrationCaller} {status : CompletionStatus}
    {summary : String} {now : Date} {r' : Runner}
    (h : r.completeMission caller status summary now = .ok r') :
    r.mission.status.isTerminal = false ∧
      (status = .failed ∨ ∀ t ∈ r.steps, t.status.isInFlight = false) ∧
      ∃ result_summary failure_reason, r' = (((r.cancelSteps (·.status.isInFlight) now).saveMission
        { r.mission with
          status := status.toMission, result_summary, finished_at := some now
          failure_reason }).record [.closed .complete]).runPostActions := by
  simp only [completeMission, bind_eq_ok, require_eq_ok, Bool.not_eq_true', Bool.or_eq_true,
    decide_eq_true_eq, List.all_eq_true, pure_eq_ok] at h
  obtain ⟨_, _, _, hopen, _, hflight, _, _, rfl⟩ := h
  exact ⟨hopen, hflight, _, _, rfl⟩

/-- The give-up of the reaper does nothing or closes an open mission. -/
theorem failMissionExternally_cases (r : Runner) (expectedRunning : Bool) (reason : String)
    (now : Date) :
    (r.failMissionExternally expectedRunning reason now).runner = r ∨
      ((r.mission.status = .running ∨ r.mission.status = .planning) ∧
        (r.failMissionExternally expectedRunning reason now).runner =
          ((r.cancelSteps (!·.status.isTerminal) now).saveMission
            { r.mission with
              status := .failed, failure_reason := sliceText 2000 reason
              finished_at := some now }).record [.closed .giveUp]) := by
  unfold failMissionExternally
  dsimp only
  by_cases hskip : r.mission.status ≠ (if expectedRunning then .running else .planning) ∨
      (expectedRunning = true ∧ r.steps.any (·.status.isInFlight) = true)
  · rw [if_pos hskip]
    exact .inl rfl
  · rw [if_neg hskip]
    refine .inr ⟨?_, rfl⟩
    have hstatus := not_not.mp fun h => hskip (.inl h)
    cases expectedRunning with
    | true => exact .inl hstatus
    | false => exact .inr hstatus

end Runner

/-- The steps that a closing operation cancels. -/
def closes (all : Bool) (s : Step) : Bool :=
  if all then !s.status.isTerminal else s.status.isInFlight

/-- What an operation on the mission has checked, and what it saves then. -/
inductive LifeCase (G : Guards) (r : Runner) : Runner → Prop where
  | same : LifeCase G r r
  | settings {p : MissionPatch} (criteria : List MissionCompletionCriterion) :
      r.mission.status = .draft ∨ p.touchesBrief = false → G.settings r p →
      LifeCase G r ((r.saveMission (Runner.patchedBy r.mission p criteria)).record
        (if p.post_actions.isSome then [.listed] else []))
  | prepared (runtime_roster : Option MissionRuntimeRoster) : r.mission.status = .draft →
      LifeCase G r (r.saveMission { r.mission with runtime_roster })
  | unbriefed (agent_id : String) (orchestrator_spec : Option TeamAgentSpec) :
      r.mission.status = .draft → LifeCase G r (r.saveMission { r.mission with
        runtime_roster := none, room_id := none, orchestrator_agent_id := some agent_id
        orchestrator_spec, status := .draft, started_at := none })
  | started (roster : MissionRuntimeRoster) (room agent_id : String)
      (orchestrator_spec : Option TeamAgentSpec) (now : Date) :
      r.mission.status = .draft → LifeCase G r (r.saveMission { r.mission with
        runtime_roster := some roster, room_id := some room
        orchestrator_agent_id := some agent_id, orchestrator_spec, status := .planning
        started_at := some now })
  | paused : r.mission.status.isTerminal = false → G.pause r.mission →
      LifeCase G r (r.saveMission { r.mission with status := .paused })
  | resumed : r.mission.status = .paused → LifeCase G r (r.saveMission
      { r.mission with status := if 0 < r.mission.plan_version then .running else .planning })
  | closed {status : MissionStatus} (failure_reason : String) (how : EndedBy) (now : Date) :
      r.mission.status.isTerminal = false → status.isTerminal = true →
      LifeCase G r (((r.cancelSteps (!·.status.isTerminal) now).saveMission
        { r.mission with status, failure_reason, finished_at := some now }).record [.closed how])
  | redrafted : G.reopen r.mission → r.post = none → r.mission.status.isTerminal = true →
      LifeCase G r ((r.saveMission
        { r.mission with status := .draft, finished_at := none, failure_reason := "" }).record
          [.reopened])
  | reopened {roster : Option MissionRuntimeRoster} : G.reopen r.mission → r.post = none →
      r.mission.status.isTerminal = true → r.mission.room_id.all (· = "") = false →
      (r.mission.projects ≠ [] → roster.isSome = true) →
      LifeCase G r ((r.saveMission { r.mission with
        runtime_roster := roster.or r.mission.runtime_roster, status := .running
        finished_at := none, failure_reason := "" }).record [.reopened])
  | completed {status : MissionStatus} (result_summary failure_reason : String) (now : Date) :
      G.complete r → r.mission.status.isTerminal = false → status.isTerminal = true →
      LifeCase G r (((r.cancelSteps (·.status.isInFlight) now).saveMission
        { r.mission with
          status, result_summary, finished_at := some now
          failure_reason }).record [.closed .complete]).runPostActions
  | criteria (completion_criteria : List MissionCompletionCriterion) :
      LifeCase G r (r.saveMission { r.mission with completion_criteria })
  | postStep (now : Date) (fate : LaunchFate) : LifeCase G r (r.postStep now fate)
  | crash : LifeCase G r r.crash
  | recover : r.post = none → r.mission.status.isTerminal = true → G.post r →
      LifeCase G r r.runPostActions

variable {r r' : Runner}

theorem LifeWrite.lifeCase {G : Guards} (h : LifeWrite G r r') :
    LifeCase G r r' := by
  cases h with
  | settings h hguard =>
    obtain ⟨hbrief, criteria, rfl⟩ := Runner.updateMission_ok h
    exact .settings criteria hbrief hguard
  | start v now =>
    rcases Runner.startMission_cases r v now with heq | ⟨hdraft, ⟨_, heq⟩ | ⟨_, _, heq⟩ |
      ⟨_, _, _, heq⟩⟩ <;> rw [heq]
    · exact .same
    · exact .prepared _ hdraft
    · exact .unbriefed _ _ hdraft
    · exact .started _ _ _ _ _ hdraft
  | pause h hguard =>
    simp only [Runner.pauseMission, bind_eq_ok, require_eq_ok, Bool.not_eq_true',
      pure_eq_ok] at h
    obtain ⟨_, hopen, rfl⟩ := h
    exact .paused hopen hguard
  | resume hpaused => exact .resumed hpaused
  | cancel h =>
    simp only [Runner.cancelMission, bind_eq_ok, require_eq_ok, Bool.not_eq_true',
      pure_eq_ok] at h
    obtain ⟨_, hopen, rfl⟩ := h
    exact .closed _ .cancel _ hopen rfl
  | reopen agent v hpost hguard =>
    rcases Runner.reopenMission_cases r agent v with heq | ⟨hended, ⟨_, heq⟩ |
      ⟨hroom, _, hroster, heq⟩⟩ <;> rw [heq]
    · exact .same
    · exact .redrafted hguard hpost hended
    · exact .reopened hguard hpost hended hroom hroster
  | @complete caller status summary now _ h hguard =>
    obtain ⟨hopen, _, _, _, rfl⟩ := Runner.completeMission_ok h
    exact .completed _ _ _ hguard hopen (by cases status <;> rfl)
  | criteria h =>
    simp only [Runner.updateCriteria, bind_eq_ok, pure_eq_ok] at h
    obtain ⟨_, _, _, _, _, _, _, _, _, _, rfl⟩ := h
    exact .criteria _
  | giveUp expectedRunning reason now =>
    rcases Runner.failMissionExternally_cases r expectedRunning reason now with heq | ⟨hs, heq⟩
      <;> rw [heq]
    · exact .same
    · exact .closed _ .giveUp _ (by rcases hs with hs | hs <;> rw [hs] <;> rfl) rfl
  | postStep now fate => exact .postStep now fate
  | crash => exact .crash
  | recover hpost hended hguard => exact .recover hpost hended hguard

/-- An operation on the mission leaves the steps, or first cancels those that are open or in
    flight. -/
theorem LifeWrite.frame {G : Guards} (h : LifeWrite G r r') :
    Framed r r' ∨ ∃ all now, Framed (r.cancelSteps (closes all) now) r' := by
  have hsaved : ∀ r₀ : Runner, ∀ m : Mission, ∀ es : List Effect,
      m.graph_spec = r₀.mission.graph_spec → m.total_visits = r₀.mission.total_visits →
      (∀ e ∈ es, e.stepKey = none) → Framed r₀ ((r₀.saveMission m).record es) :=
    fun _ _ _ hgraph hvisits hes => ⟨hgraph, hvisits, rfl, rfl, _, rfl, hes⟩
  have hquiet : ∀ m : Mission, m.graph_spec = r.mission.graph_spec →
      m.total_visits = r.mission.total_visits → Framed r (r.saveMission m) :=
    fun m hgraph hvisits =>
      ⟨hgraph, hvisits, rfl, rfl, [], (List.append_nil _).symm, nofun⟩
  have hone : ∀ e₀ : Effect, e₀.stepKey = none → ∀ e ∈ [e₀], e.stepKey = none := by
    intro e₀ hnone e he
    rw [List.mem_singleton.mp he]
    exact hnone
  cases h.lifeCase with
  | same => exact .inl (.refl r)
  | settings criteria _ _ =>
    refine .inl (hsaved r _ _ rfl rfl ?_)
    split
    · exact hone _ rfl
    · exact nofun
  | prepared => exact .inl (hquiet _ rfl rfl)
  | unbriefed => exact .inl (hquiet _ rfl rfl)
  | started => exact .inl (hquiet _ rfl rfl)
  | paused => exact .inl (hquiet _ rfl rfl)
  | resumed => exact .inl (hquiet _ rfl rfl)
  | criteria => exact .inl (hquiet _ rfl rfl)
  | closed _ how now => exact .inr ⟨true, now, hsaved _ _ _ rfl rfl (hone _ rfl)⟩
  | redrafted => exact .inl (hsaved r _ _ rfl rfl (hone _ rfl))
  | reopened => exact .inl (hsaved r _ _ rfl rfl (hone _ rfl))
  | completed _ _ now =>
    refine .inr ⟨false, now, Framed.trans ?_ Runner.framed_runPostActions⟩
    exact hsaved _ _ _ rfl rfl (hone _ rfl)
  | postStep now fate => exact .inl (Runner.framed_postStep now fate)
  | crash => exact .inl ⟨rfl, rfl, rfl, rfl, [], (List.append_nil _).symm, nofun⟩
  | recover => exact .inl Runner.framed_runPostActions

/-! ## Writes of the steps -/

/-- The mission keeps its life, its settings and its post-actions; the history only gains
    effects on steps. -/
structure Kept (r r' : Runner) : Prop where
  mission : ∃ plan_version plan_summary graph_revision graph_spec total_visits status,
    r'.mission = { r.mission with
      plan_version, plan_summary, graph_revision, graph_spec, total_visits, status } ∧
    (status = r.mission.status ∨ (r.mission.status = .planning ∧ status = .running))
  post : r'.post = r.post
  runs : r'.runs = r.runs
  log : ∃ es, r'.log = r.log ++ es ∧ ∀ e ∈ es, e.stepKey ≠ none

theorem Kept.of_visits {es : List Effect} (n : Nat)
    (hmission : r'.mission = { r.mission with total_visits := n }) (hpost : r'.post = r.post)
    (hruns : r'.runs = r.runs) (hlog : r'.log = r.log ++ es) (hes : ∀ e ∈ es, e.stepKey ≠ none) :
    Kept r r' :=
  ⟨⟨_, _, _, _, _, _, hmission, .inl rfl⟩, hpost, hruns, es, hlog, hes⟩

/-- A write of the steps keeps the mission; the others are operations on the mission. -/
theorem Write.kept_or_life {G : Guards} (h : Write G r r') :
    Kept r r' ∨ LifeWrite G r r' := by
  have hone : ∀ e : Effect, e.stepKey ≠ none → ∀ e' ∈ [e], e'.stepKey ≠ none := by
    intro e he e' he'
    rw [List.mem_singleton.mp he']
    exact he
  have hnil : ∀ e ∈ ([] : List Effect), e.stepKey ≠ none := nofun
  have hquiet : ∀ r' : Runner, r'.mission = r.mission → r'.post = r.post → r'.runs = r.runs →
      r'.log = r.log → Kept r r' ∨ LifeWrite G r r' := fun r' hmission hpost hruns hlog =>
    .inl (.of_visits r.mission.total_visits hmission hpost hruns
      (hlog.trans (List.append_nil _).symm) hnil)
  cases h with
  | pump hpump =>
    cases hpump with
    | openGate now => exact .inl (.of_visits _ rfl rfl rfl rfl (hone _ fun h => by cases h))
    | dispatch now => exact .inl (.of_visits _ rfl rfl rfl rfl (hone _ fun h => by cases h))
    | markReady => exact hquiet _ rfl rfl rfl rfl
    | failDispatch error now =>
      exact .inl (.of_visits r.mission.total_visits rfl rfl rfl rfl (hone _ fun h => by cases h))
  | redispatch now => exact .inl (.of_visits _ rfl rfl rfl rfl (hone _ fun h => by cases h))
  | block now => exact hquiet _ rfl rfl rfl rfl
  | noteLease since => exact hquiet _ rfl rfl rfl rfl
  | progress checkpoint now => exact hquiet _ rfl rfl rfl rfl
  | budget => exact hquiet _ rfl rfl rfl rfl
  | amend input a => exact hquiet _ rfl rfl rfl rfl
  | unblock =>
    refine .inl (.of_visits r.mission.total_visits rfl rfl rfl rfl fun e he => ?_)
    obtain ⟨s, _, rfl⟩ := List.mem_map.mp he
    exact nofun
  | reenter =>
    refine .inl (.of_visits r.mission.total_visits rfl rfl rfl rfl fun e he => ?_)
    obtain ⟨key, _, rfl⟩ := List.mem_map.mp he
    exact nofun
  | expire reason budgetLeft now =>
    exact .inl (.of_visits r.mission.total_visits rfl rfl rfl rfl (hone _ fun h => by cases h))
  | failExternally reason now =>
    exact .inl (.of_visits r.mission.total_visits rfl rfl rfl rfl (hone _ fun h => by cases h))
  | report now =>
    exact .inl (.of_visits r.mission.total_visits rfl rfl rfl rfl (hone _ fun h => by cases h))
  | decide verdict now =>
    refine .inl (.of_visits r.mission.total_visits rfl rfl rfl (List.append_assoc _ _ _) ?_)
    intro e he
    cases List.mem_append.mp he with
    | inl he =>
      rw [List.mem_singleton.mp he]
      exact nofun
    | inr he =>
      rw [List.mem_singleton.mp he]
      exact nofun
  | skip status now =>
    exact .inl (.of_visits r.mission.total_visits rfl rfl rfl rfl (hone _ fun h => by cases h))
  | reassign a =>
    exact .inl (.of_visits r.mission.total_visits rfl rfl rfl rfl (hone _ fun h => by cases h))
  | retry input a =>
    exact .inl (.of_visits r.mission.total_visits rfl rfl rfl rfl (hone _ fun h => by cases h))
  | plan hplan _ =>
    obtain ⟨haccepted⟩ := Runner.acceptPlan_ok hplan
    refine .inl ⟨⟨_, _, _, _, _, _, haccepted.mission, ?_⟩, haccepted.post, haccepted.runs, _,
      haccepted.log, fun e he => ?_⟩
    · split
      · rename_i hplanning
        exact .inr ⟨hplanning, rfl⟩
      · exact .inl rfl
    · cases List.mem_append.mp he with
      | inl he =>
        obtain ⟨key, _, rfl⟩ := List.mem_map.mp he
        exact nofun
      | inr he =>
        obtain ⟨key, _, rfl⟩ := List.mem_map.mp he
        exact nofun
  | patch hpatch _ =>
    obtain ⟨_, _, _, _, _, rfl⟩ := Runner.acceptPatch_ok hpatch
    exact .inl ⟨⟨_, _, _, _, _, _, rfl, .inl rfl⟩, rfl, rfl, [], (List.append_nil _).symm, hnil⟩
  | life hlife => exact .inr hlife

end WorkflowBoard.Orchestration
