import WorkflowBoard.Spec.MissionCalls

/-!
# Refused calls

A call is refused by a check, or because a host does not prepare a runtime or a message is not
delivered. Most calls check everything before their first save. Three do not: `startMission`
and `reopenMission` save what the host and the room are to see, and put back only some of it;
`updateStep` saves the attempt budget and then checks the action.
-/

namespace WorkflowBoard.Orchestration

/-- If the call was refused, the rows of the mission and its steps are those of `r`. -/
def Outcome.RefusedUnchanged (o : Outcome) (r : Runner) : Prop :=
  ∀ e, o.reply = .error e → o.runner.mission = r.mission ∧ o.runner.steps = r.steps

namespace Runner

section Refusals

variable {r r' : Runner} {e : Refusal}

theorem refusedUnchanged_refused (hm : r'.mission = r.mission) (hs : r'.steps = r.steps) :
    (r'.refused e).RefusedUnchanged r :=
  fun _ _ => ⟨hm, hs⟩

theorem refusedUnchanged_ok {reply : Reply} : (Outcome.mk r' (.ok reply)).RefusedUnchanged r :=
  nofun

/-- A call that saves nothing before its last check. -/
theorem refusedUnchanged_settled (x : Except Refusal Runner) :
    (r.settled x).RefusedUnchanged r := by
  unfold settled
  cases x with
  | ok r' => exact refusedUnchanged_ok
  | error e => exact refusedUnchanged_refused rfl rfl

/-- A refusal behind a save of the mission leaves the rows only if it saved nothing new. -/
theorem refusedUnchanged_mission (hs : r'.steps = r.steps) :
    (r'.refused e).RefusedUnchanged r ↔ r'.mission = r.mission :=
  ⟨fun h => (h e rfl).1, fun h => refusedUnchanged_refused h hs⟩

end Refusals

/-! ## `startMission` and `reopenMission` -/

/-- A start that fails behind its checks finds in the row what it leaves there. -/
def startClean (m : Mission) (v : StartView) : Prop :=
  ∀ roster orchestrator, startChecks m v = .ok (roster, orchestrator) →
    match v.fate with
    | .succeeds => True
    | .prepare => m.runtime_roster = none
    | .room => m.runtime_roster = some roster
    | .prompt => False
    | .brief => m.runtime_roster = none ∧ m.room_id = none ∧ m.started_at = none ∧
      m.orchestrator_agent_id = some orchestrator.agent_id ∧
      m.orchestrator_spec = some orchestrator.spec

/-- A reopen behind its checks, of a mission that was started, is delivered or fails before it
    has saved. -/
def reopenClean (m : Mission) (agent : Option OrchestrationCaller) (v : StartView) : Prop :=
  (∀ caller, agent = some caller → requireOrchestrator m caller = .ok ()) →
    m.status.isTerminal = true → m.room_id.all (· = "") = false →
    ∀ roster, reopenChecks m v = .ok roster → v.fate = .succeeds ∨ v.fate = .prepare

section Starts

variable {r : Runner} {v : StartView}

theorem startChecks_draft {m : Mission} {x : MissionRuntimeRoster × MissionRuntime}
    (h : startChecks m v = .ok x) : m.status = .draft := by
  simp only [startChecks, bind_eq_ok, require_eq_ok, decide_eq_true_eq] at h
  obtain ⟨_, hdraft, _⟩ := h
  exact hdraft

theorem briefed_eq {m : Mission} {agent : String} {spec : TeamAgentSpec}
    (hstatus : m.status = .draft)
    (h : m.runtime_roster = none ∧ m.room_id = none ∧ m.started_at = none ∧
      m.orchestrator_agent_id = some agent ∧ m.orchestrator_spec = some spec) :
    { m with
      runtime_roster := none, room_id := none, orchestrator_agent_id := some agent
      orchestrator_spec := some spec, status := .draft, started_at := none } = m := by
  obtain ⟨hroster, hroom, hstarted, hagent, hspec⟩ := h
  cases m
  dsimp only at hstatus hroster hroom hstarted hagent hspec
  subst hstatus hroster hroom hstarted hagent hspec
  rfl

/-- A refused start leaves the rows as they were. -/
theorem startMission_unchanged (now : Date) :
    (r.startMission v now).RefusedUnchanged r ↔ startClean r.mission v := by
  unfold startMission startClean
  dsimp only
  cases hchecks : startChecks r.mission v with
  | error e => exact iff_of_true (refusedUnchanged_refused rfl rfl) nofun
  | ok found =>
    obtain ⟨roster, orchestrator⟩ := found
    have hdraft := startChecks_draft hchecks
    have hone : ∀ {P : MissionRuntimeRoster → MissionRuntime → Prop},
        (∀ a b, (Except.ok (roster, orchestrator) : Except Refusal _) = .ok (a, b) → P a b) ↔
          P roster orchestrator := by
      intro P
      refine ⟨fun h => h roster orchestrator rfl, fun h a b hab => ?_⟩
      cases hab
      exact h
    rw [hone]
    cases v.fate with
    | succeeds => exact iff_of_true refusedUnchanged_ok trivial
    | prepare =>
      dsimp only
      refine (refusedUnchanged_mission (by rfl)).trans ⟨fun h => ?_, fun h => ?_⟩
      · exact (congrArg Mission.runtime_roster h).symm
      · change { r.mission with runtime_roster := none } = r.mission
        rw [← h]
    | room =>
      dsimp only
      refine (refusedUnchanged_mission (by rfl)).trans ⟨fun h => ?_, fun h => ?_⟩
      · exact (congrArg Mission.runtime_roster h).symm
      · change { r.mission with runtime_roster := some roster } = r.mission
        rw [← h]
    | prompt =>
      dsimp only
      refine (refusedUnchanged_mission (by rfl)).trans ⟨fun h => ?_, False.elim⟩
      have hstatus := congrArg Mission.status h
      rw [hdraft] at hstatus
      cases hstatus
    | brief =>
      dsimp only
      refine (refusedUnchanged_mission (by rfl)).trans ⟨fun h => ?_, fun h => ?_⟩
      · exact ⟨(congrArg Mission.runtime_roster h).symm, (congrArg Mission.room_id h).symm,
          (congrArg Mission.started_at h).symm, (congrArg Mission.orchestrator_agent_id h).symm,
          (congrArg Mission.orchestrator_spec h).symm⟩
      · exact briefed_eq hdraft h

theorem reopenMission_unchanged {agent : Option OrchestrationCaller} :
    (r.reopenMission agent v).RefusedUnchanged r ↔ reopenClean r.mission agent v := by
  unfold reopenMission reopenClean
  dsimp only
  split
  · -- the caller or the status is refused
    rename_i e hrefused
    refine iff_of_true (refusedUnchanged_refused rfl rfl) fun hcaller hended => ?_
    rw [hended] at hrefused
    cases agent with
    | none => cases hrefused
    | some caller =>
      dsimp only at hrefused
      rw [hcaller caller rfl] at hrefused
      cases hrefused
  · rename_i hallowed
    obtain ⟨hcaller, hended⟩ :
        (∀ caller, agent = some caller → requireOrchestrator r.mission caller = .ok ()) ∧
          r.mission.status.isTerminal = true := by
      cases agent with
      | none =>
        simp only [bind_eq_ok, require_eq_ok] at hallowed
        obtain ⟨_, _, hended⟩ := hallowed
        exact ⟨by rintro _ ⟨⟩, hended⟩
      | some caller =>
        simp only [bind_eq_ok, require_eq_ok] at hallowed
        obtain ⟨_, hcaller, hended⟩ := hallowed
        refine ⟨fun other hother => ?_, hended⟩
        rw [← Option.some.inj hother]
        exact hcaller
    split
    · rename_i hroom
      refine iff_of_true refusedUnchanged_ok fun _ _ h => ?_
      rw [hroom] at h
      cases h
    · rename_i hroom
      split
      · rename_i hchecks
        refine iff_of_true (refusedUnchanged_refused rfl rfl) fun _ _ _ roster h => ?_
        rw [hchecks] at h
        cases h
      · rename_i roster hchecks
        have hclean : (∀ roster', reopenChecks r.mission v = .ok roster' →
            v.fate = .succeeds ∨ v.fate = .prepare) ↔ v.fate = .succeeds ∨ v.fate = .prepare :=
          ⟨fun h => h roster hchecks, fun h _ _ => h⟩
        have hchanged : ∀ {e : Refusal}, ¬(((r.saveMission { r.mission with
            runtime_roster := roster.or r.mission.runtime_roster, status := .running
            finished_at := none, failure_reason := "" }).record [.reopened]).refused
              e).RefusedUnchanged r := by
          intro e h
          have hstatus := congrArg Mission.status (h e rfl).1
          change MissionStatus.running = r.mission.status at hstatus
          rw [← hstatus] at hended
          cases hended
        rw [imp_iff_right hcaller, imp_iff_right hended,
          imp_iff_right (Bool.eq_false_iff.mpr hroom), hclean]
        cases v.fate with
        | succeeds => exact iff_of_true refusedUnchanged_ok (.inl rfl)
        | prepare => exact iff_of_true (refusedUnchanged_refused rfl rfl) (.inr rfl)
        | room => exact iff_of_false hchanged (by simp)
        | prompt => exact iff_of_false hchanged (by simp)
        | brief => exact iff_of_false hchanged (by simp)

end Starts

/-! ## `updateStep` -/

/-- The action of an update is not refused, with this attempt budget. -/
def actionFits (fresh : Step) (input : StepUpdate) (a : PlanAssignment) (max_attempts : Nat) :
    Bool :=
  match input.action, a with
  | .set_retry_budget, _ => true
  | .reassign, .assign _ => !fresh.status.isInFlight
  | .reassign, _ => false
  | .retry, _ => !fresh.status.isInFlight && fresh.attempt < max_attempts
  | _, _ => !fresh.status.isInFlight

/-- The attempt budget stays what it is, or the action is not refused. -/
def updateClean (r : Runner) (key : String) (caller : OrchestrationCaller) (input : StepUpdate) :
    Prop :=
  ∀ fresh a max_attempts, r.updateChecks key caller input = .ok (fresh, a, max_attempts) →
    max_attempts = fresh.max_attempts ∨ actionFits fresh input a max_attempts = true

section Updates

variable {r : Runner} {fresh : Step} {input : StepUpdate} {a : PlanAssignment}

/-- The actions of an update that are not refused. -/
theorem performAction_isOk (now : Date) :
    (∃ r', r.performAction fresh input a now = .ok r') ↔
      actionFits fresh input a fresh.max_attempts = true := by
  unfold performAction actionFits
  cases input.action with
  | set_retry_budget => exact iff_of_true ⟨r, rfl⟩ rfl
  | skip => simp
  | cancel => simp
  | amend => simp
  | reassign => cases a <;> simp
  | retry => simp

theorem updateChecks_stepOf {key : String} {caller : OrchestrationCaller} {max_attempts : Nat}
    (h : r.updateChecks key caller input = .ok (fresh, a, max_attempts)) :
    r.stepOf key = some fresh := by
  simp only [updateChecks, bind_eq_ok, orThrow_eq_ok, pure_eq_ok] at h
  obtain ⟨step, hstep, _, _, _, _, _, _, _, _, h⟩ := h
  obtain ⟨rfl, _⟩ := Prod.mk.inj h
  exact hstep

/-- A saved row leaves the rows only if it is the stored one. -/
theorem Distinct.saveStep_steps {s t : Step} (hd : r.Distinct) (hs : s ∈ r.steps)
    (hkey : t.step_key = s.step_key) : (r.saveStep t).steps = r.steps ↔ t = s := by
  constructor
  · intro hsame
    have hsaved : t ∈ (r.saveStep t).steps := by
      refine saveStep_mem ?_
      rw [hkey]
      exact mem_keys hs
    rw [hsame] at hsaved
    exact hd.eq hsaved hs hkey
  · rintro rfl
    rw [hd.saveStep_self hs]

theorem updateStep_unchanged (hd : r.Distinct) (key : String) (caller : OrchestrationCaller)
    (now : Date) (fates : String → DispatchFate) :
    (r.updateStep key caller input now fates).RefusedUnchanged r ↔
      r.updateClean key caller input := by
  unfold updateStep updateClean
  split
  · rename_i e hchecks
    refine iff_of_true (refusedUnchanged_refused rfl rfl) fun _ _ _ h => ?_
    rw [hchecks] at h
    cases h
  · rename_i fresh a n hchecks
    have hone : (∀ fresh' a' n', r.updateChecks key caller input = .ok (fresh', a', n') →
        n' = fresh'.max_attempts ∨ actionFits fresh' input a' n' = true) ↔
          n = fresh.max_attempts ∨ actionFits fresh input a n = true := by
      refine ⟨fun h => h _ _ _ hchecks, fun h fresh' a' n' hchecks' => ?_⟩
      rw [hchecks] at hchecks'
      obtain ⟨rfl, rfl, rfl⟩ : fresh = fresh' ∧ a = a' ∧ n = n' := by
        simpa using Except.ok.inj hchecks'
      exact h
    rw [hone]
    obtain ⟨hmem, _⟩ := stepOf_some (updateChecks_stepOf hchecks)
    have hsame : (r.saveStep { fresh with max_attempts := n }).steps = r.steps ↔
        { fresh with max_attempts := n } = fresh := hd.saveStep_steps hmem rfl
    have hfits : (∃ r', (r.saveStep { fresh with max_attempts := n }).performAction
        { fresh with max_attempts := n } input a now = .ok r') ↔
          actionFits fresh input a n = true := performAction_isOk now
    dsimp only
    split
    · rename_i e herror
      have hrefused : actionFits fresh input a n ≠ true := fun h => by
        obtain ⟨r', hok⟩ := hfits.mpr h
        rw [hok] at herror
        cases herror
      refine ⟨fun h => .inl ?_, fun h => ?_⟩
      · exact congrArg Step.max_attempts (hsame.mp (h e rfl).2)
      · have hn := h.resolve_right hrefused
        exact refusedUnchanged_refused rfl (hsame.mpr (by rw [hn]))
    · rename_i r' hok
      exact iff_of_true refusedUnchanged_ok (.inr (hfits.mp ⟨r', hok⟩))

end Updates

/-! ## Every call -/

/-- The condition of a call; most calls save nothing before their last check. -/
def cleanRefusal (r : Runner) : Action → Prop
  | .startMission view => startClean r.mission view
  | .reopenMission agent view => reopenClean r.mission agent view
  | .updateStep key caller input _ => r.updateClean key caller input
  | _ => True

variable {fates : String → DispatchFate}

theorem recoverLease_ok {r : Runner} {step : Step} {silentMs : Int} {now : Date} {e : Refusal} :
    (r.recoverLease step silentMs now fates).reply ≠ .error e := by
  unfold recoverLease
  dsimp only
  split
  · simp
  · split <;> simp

/-- Only a step that does not exist refuses the reaper. -/
theorem reconcileStaleLease_unchanged {r : Runner} {key : String} (now : Date)
    {graceMs timeoutMinutes : Int}:
    (r.reconcileStaleLease key now graceMs timeoutMinutes fates).RefusedUnchanged r := by
  unfold reconcileStaleLease
  split
  · exact refusedUnchanged_refused rfl rfl
  · split
    · exact refusedUnchanged_ok
    · split
      · exact refusedUnchanged_ok
      · dsimp only
        split
        · exact refusedUnchanged_ok
        · split
          · exact refusedUnchanged_ok
          · split
            · exact refusedUnchanged_ok
            · exact fun e herror => absurd herror recoverLease_ok

/-- A refused call leaves the rows of a reachable mission as they were, exactly where it finds in
    them what it saves before it is refused. -/
theorem refused_unchanged_iff {r : Runner} (h : missionSystem.Reachable r) (now : Date)
    (call : Action) : (call.run now r).RefusedUnchanged r ↔ r.cleanRefusal call := by
  cases call with
  | startMission view => exact startMission_unchanged now
  | reopenMission agent view => exact reopenMission_unchanged
  | updateStep key caller input fates =>
    exact updateStep_unchanged (reachable_sane h).distinct key caller now fates
  | submitConfirmDecision key input fates =>
    refine iff_of_true ?_ trivial
    unfold Action.run submitConfirmDecision
    dsimp only
    split
    · exact refusedUnchanged_refused rfl rfl
    · exact refusedUnchanged_ok
    · exact refusedUnchanged_ok
  | reconcileStaleLease key graceMs timeoutMinutes fates =>
    exact iff_of_true (reconcileStaleLease_unchanged now) trivial
  | failStepExternally key reason fates =>
    refine iff_of_true ?_ trivial
    unfold Action.run failStepExternally
    dsimp only
    split
    · exact refusedUnchanged_refused rfl rfl
    · split <;> exact refusedUnchanged_ok
  | failMissionExternally expectedRunning reason =>
    refine iff_of_true (fun e herror => ?_) trivial
    unfold Action.run failMissionExternally at herror
    dsimp only at herror
    generalize (if expectedRunning = true then MissionStatus.running else .planning) = expected
      at herror
    split at herror <;> cases herror
  | recoverPostActions => exact iff_of_true refusedUnchanged_ok trivial
  | sweepPostActions => exact iff_of_true refusedUnchanged_ok trivial
  | postStep fate => exact iff_of_true refusedUnchanged_ok trivial
  | crash => exact iff_of_true refusedUnchanged_ok trivial
  | _ => exact iff_of_true (refusedUnchanged_settled _) trivial

/-- A first start whose host does not prepare leaves the draft as it was. -/
theorem refused_unchanged_start : ∃ r, missionSystem.Reachable r ∧
    (r.startMission { smallView with fate := .prepare } 0).reply = .error .notPrepared ∧
      (r.startMission { smallView with fate := .prepare } 0).RefusedUnchanged r := by
  obtain ⟨r, hreach, hcheck⟩ := exists_reachable_of_run smallMission []
    (fun r => (r.startMission { smallView with fate := .prepare } 0).reply = .error .notPrepared &&
      r.mission.runtime_roster = none) (by decide +kernel)
  rw [Bool.and_eq_true, decide_eq_true_eq, decide_eq_true_eq] at hcheck
  refine ⟨r, hreach, hcheck.1, ?_⟩
  exact (refused_unchanged_iff hreach 0 (.startMission { smallView with fate := .prepare })).mpr
    fun _ _ _ => hcheck.2

/-- A cancelled mission is reopened, and the message to its room is not delivered: the call is
    refused, and the mission is running. -/
theorem reopen_half_done : ¬∀ r, missionSystem.Reachable r → ∀ now (call : Action),
    (call.run now r).RefusedUnchanged r := by
  intro hall
  obtain ⟨r, hreach, hcheck⟩ := exists_reachable_of_run smallMission
    [(0, .startMission smallView), (1, .cancelMission "")]
    (fun r => (r.reopenMission none { smallView with fate := .brief }).reply =
        .error .notDelivered &&
      (r.reopenMission none { smallView with fate := .brief }).runner.mission.status ≠
        r.mission.status) (by decide +kernel)
  rw [Bool.and_eq_true, decide_eq_true_eq, decide_eq_true_eq] at hcheck
  have hkept := hall r hreach 2 (.reopenMission none { smallView with fate := .brief }) _ hcheck.1
  exact hcheck.2 (congrArg Mission.status hkept.1)

end Runner

end WorkflowBoard.Orchestration
