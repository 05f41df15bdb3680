import WorkflowBoard.Spec.ApprovalOnce
import WorkflowBoard.Spec.ResumeKept
import WorkflowBoard.Spec.WhiteSpace

/-!
# Nobody approves their own request

A request is told apart by its room: the member of a step asks in the room of the step, the
orchestrator in the room of the mission, and only the first is answered by the orchestrator.
An answer is told apart by the identity of its caller. An identity is made of the CLI, the
folder and the credential, so a member and a trusted orchestrator may have one identity; the
member's session then answers what it has asked. Where no step can be assigned to a runtime
with the identity of a trusted orchestrator, nobody does.
-/

namespace WorkflowBoard.Orchestration

/-! ## Identities -/

/-- An identity has nothing to trim. -/
theorem trimText_runtimeIdentityKey (spec : TeamAgentSpec) :
    trimText (runtimeIdentityKey spec) = runtimeIdentityKey spec := by
  have hlist : (runtimeIdentityKey spec).toList = 'r' :: 't' :: '-' ::
      ((trimText spec.cli).toLower.toList ++ ('\x00' :: (trimText spec.working_dir).toList) ++
        '\x00' :: jsTrim spec.credential_id) := by
    simp [runtimeIdentityKey, trimText]
  have hreverse : (runtimeIdentityKey spec).toList.reverse =
      (jsTrim spec.credential_id).reverse ++ '\x00' :: ((trimText spec.cli).toLower.toList ++
        ('\x00' :: (trimText spec.working_dir).toList)).reverse ++ ['-', 't', 'r'] := by
    rw [hlist]
    simp
  have htrimmed : (jsTrim spec.credential_id).reverse =
      (spec.credential_id.toList.dropWhile isJsSpace).reverse.dropWhile isJsSpace := by
    rw [jsTrim, List.reverse_reverse]
  cases hcredential : (jsTrim spec.credential_id).reverse with
  | nil =>
    rw [hcredential, List.nil_append] at hreverse
    exact trimText_eq_self hlist (by decide) hreverse (by decide)
  | cons d ds =>
    rw [hcredential, List.cons_append] at hreverse
    rw [hcredential] at htrimmed
    exact trimText_eq_self hlist (by decide) hreverse (not_isJsSpace_head_dropWhile htrimmed.symm)

theorem runtimeIdentityKey_ne {spec : TeamAgentSpec} {id : String}
    (h : id.toList.head? ≠ some 'r') : id ≠ runtimeIdentityKey spec := by
  rintro rfl
  simp [runtimeIdentityKey] at h

/-! ## Who asks -/

section Requests

variable {input : ApprovalRequestInput} {caller : ApprovalHostCaller} {read : ApprovalRead}
  {row : OrchestrationApproval}

theorem refuseUnless_eq_ok {ok : Bool} {code : HttpStatus} {u : Unit} :
    refuseUnless ok code = .ok u ↔ ok = true := by
  unfold refuseUnless
  split <;> simp_all

theorem resolveRequester_member {room : ApprovalRoom} {mission : ApprovalMission}
    {step : Option ApprovalStep} {agentId : String}
    (h : resolveRequester room mission read agentId caller = .ok (.member, step)) :
    ∃ t, read.step = some t ∧ t.mission_id = mission.id ∧
      callerHoldsId ⟨agentId, some agentId⟩ t.assignee_agent_id = true := by
  unfold resolveRequester at h
  simp only [bind_eq_ok, refuseUnless_eq_ok] at h
  obtain ⟨_, _, h⟩ := h
  split at h
  · split at h
    · cases h
    · rename_i t ht
      simp only [bind_eq_ok, refuseUnless_eq_ok, decide_eq_true_eq] at h
      obtain ⟨_, hmission, _, hheld, _⟩ := h
      exact ⟨t, (Option.filter_eq_some_iff.mp ht).1, hmission, hheld⟩
  · simp only [bind_eq_ok, refuseUnless_eq_ok, pure_eq_ok] at h
    obtain ⟨_, _, _, _, h⟩ := h
    cases h

/-- The row of a request: nobody has decided it, and what is with the orchestrator was asked by
    the assignee of a step. -/
theorem newApproval_ok (h : newApproval input caller read = .ok (some row)) :
    row.requester_agent_id = input.agent_id ∧ row.decided_by_type = none ∧
      ∃ mission, read.mission = some mission ∧ mission.id = row.mission_id ∧
        (row.route = .orchestrator → mission.trusted = true ∧
          ∃ t, read.step = some t ∧ t.mission_id = mission.id ∧
            callerHoldsId ⟨input.agent_id, some input.agent_id⟩ t.assignee_agent_id = true) := by
  unfold newApproval at h
  simp only [bind_eq_ok, orThrow_eq_ok] at h
  obtain ⟨room, _, missionId, _, _, _, mission, hmission, ⟨role, step⟩, hrequester, h⟩ := h
  split at h
  · cases h
  · split at h
    · cases h
    · cases h
      refine ⟨rfl, rfl, mission, (Option.filter_eq_some_iff.mp hmission).1, rfl, fun hroute => ?_⟩
      cases role with
      | orchestrator => cases hroute
      | member =>
        cases htrusted : mission.trusted with
        | true => exact ⟨rfl, resolveRequester_member hrequester⟩
        | false =>
          simp [approvalRouteFor, htrusted] at hroute

end Requests

/-! ## A mission on a roster -/

/-- A step of the mission can be given to a runtime with this identity. -/
def Assignable (roster : MissionRuntimeRoster) (projects : List ProjectName) (id : String) : Prop :=
  ∃ slot project s run, resolveStepAssignment roster projects slot project = some (s, run) ∧
    run.agent_id = id

/-- An identity as a request stores it; the key of a runtime is short enough. -/
def Nameable (id : String) : Prop := sliceText 200 id = id

instance (id : String) : Decidable (Nameable id) :=
  inferInstanceAs (Decidable (sliceText 200 id = id))

/-- What the calls read of the mission: its orchestrator is that of the roster, with the trust
    of its slot, and its steps are assigned on the roster. -/
structure RunsOn (roster : MissionRuntimeRoster) (projects : List ProjectName) (trusted : Bool)
    (missionId : String) (read : ApprovalRead) : Prop where
  mission : ∀ m, read.mission = some m → m.id = missionId →
    m.orchestrator_agent_id = (orchestratorRuntime roster).map (·.agent_id) ∧ m.trusted = trusted
  step : ∀ t, read.step = some t → t.mission_id = missionId →
    ∀ id, t.assignee_agent_id = some id → Assignable roster projects id

/-- The id of a session is that of a host or of an agent, no runtime's. -/
def IsSession (caller : OrchestrationCaller) : Prop :=
  ∀ spec, caller.agentId ≠ runtimeIdentityKey spec

section Roster

variable {orchestrator : RosterSlot} {members : List RosterSlot} {projects : List MissionProject}
  {scope : MemberFolderScope} {preferred : Option String} {roster : MissionRuntimeRoster}
  {names : List ProjectName} {run own : MissionRuntime}

theorem mem_runtimesOf {slot : RosterSlot} (h : run ∈ runtimesOf slot projects scope) :
    run.agent_id = runtimeIdentityKey run.spec := by
  unfold runtimesOf at h
  simp only [List.mem_filterMap, Option.map_eq_some_iff] at h
  obtain ⟨p, _, folder, _, rfl⟩ := h
  rfl

/-- Every runtime of a resolved roster is known by its identity. -/
theorem roster_identity
    (h : resolveMissionRoster orchestrator members projects scope preferred = some roster)
    (hrun : run ∈ roster.runtimes) : run.agent_id = runtimeIdentityKey run.spec := by
  unfold resolveMissionRoster at h
  split at h
  · cases h
  · rename_i own hown
    split at h
    · cases h
    · cases h
      rcases List.mem_cons.mp hrun with rfl | hrun
      · unfold orchestratorRuntimeFor at hown
        rcases Option.or_eq_some_iff.mp hown with hown | ⟨_, hown⟩
        · exact mem_runtimesOf (List.mem_of_find?_eq_some hown)
        · exact mem_runtimesOf (List.mem_of_mem_head? hown)
      · obtain ⟨slot, _, hrun⟩ := List.mem_flatMap.mp hrun
        exact mem_runtimesOf hrun

theorem mem_of_assignment {slot : String} {project : Option String} {s : RosterSlot}
    (h : resolveStepAssignment roster names slot project = some (s, run)) :
    run ∈ roster.runtimes ∧ run.slot_id ≠ ORCHESTRATOR_SLOT_ID := by
  unfold resolveStepAssignment at h
  simp only [Option.bind_eq_bind] at h
  obtain ⟨⟨t, implied⟩, _, h⟩ := Option.bind_eq_some_iff.mp h
  have hfound : ∀ projectId : Option String,
      (projectId.bind fun id => ((runtimesForSlot roster t.slot_id).find? (·.project_id = id)).bind
        fun runtime => some (t, runtime)) = some (s, run) →
      run ∈ roster.runtimes ∧ run.slot_id ≠ ORCHESTRATOR_SLOT_ID := by
    intro projectId hbind
    simp only [Option.bind_eq_some_iff] at hbind
    obtain ⟨id, _, runtime, hruntime, heq⟩ := hbind
    cases heq
    obtain ⟨hmem, hslot⟩ := List.mem_filter.mp (List.mem_of_find?_eq_some hruntime)
    obtain ⟨hof, hmember⟩ := of_decide_eq_true hslot
    exact ⟨hmem, hof ▸ hmember⟩
  -- whichever way the project is named, the runtime is one of the slot
  dsimp only at h
  split at h
  · exact hfound _ h
  · split at h
    · exact hfound _ h
    · split at h
      · exact hfound _ h
      · exact hfound _ h

section

variable (h : resolveMissionRoster orchestrator members projects scope preferred = some roster)
include h

theorem assignable_identity
    {id : String} (hid : Assignable roster names id) : ∃ spec, id = runtimeIdentityKey spec := by
  obtain ⟨_, _, _, run, hassign, rfl⟩ := hid
  exact ⟨run.spec, roster_identity h (mem_of_assignment hassign).1⟩

theorem orchestrator_identity
    (hown : orchestratorRuntime roster = some own) : own.agent_id = runtimeIdentityKey own.spec :=
  roster_identity h (List.mem_of_find?_eq_some hown)

end

end Roster

theorem runtimeIdentityKey_ne_empty (spec : TeamAgentSpec) : runtimeIdentityKey spec ≠ "" := by
  intro h
  have hlist := congrArg String.toList h
  simp [runtimeIdentityKey] at hlist

/-- Who holds an identity is the session of a runtime with it, or is called by it. -/
theorem callerHoldsId_identity {caller : OrchestrationCaller} {spec : TeamAgentSpec}
    (h : callerHoldsId caller (some (runtimeIdentityKey spec)) = true) :
    caller.agentId = runtimeIdentityKey spec ∨
      caller.runtimeKey = some (runtimeIdentityKey spec) := by
  unfold callerHoldsId at h
  rw [Option.getD_some, trimText_runtimeIdentityKey] at h
  simpa [runtimeIdentityKey_ne_empty] using h

/-! ## Who has asked and who has decided -/

/-- What is with the orchestrator was asked by an assignee while it was trusted; what it has
    decided, it has decided as itself. -/
structure RowLaw (roster : MissionRuntimeRoster) (projects : List ProjectName) (trusted : Bool)
    (own : MissionRuntime) (row : OrchestrationApproval) : Prop where
  asked : row.route = .orchestrator → trusted = true ∧
    Assignable roster projects row.requester_agent_id ∧ Nameable row.requester_agent_id
  decided : row.decided_by_type = some .orchestrator → row.decided_by = some own.agent_id

section Law

variable {orchestrator : RosterSlot} {members : List RosterSlot} {projects : List MissionProject}
  {scope : MemberFolderScope} {preferred : Option String} {roster : MissionRuntimeRoster}
  {names : List ProjectName} {trusted : Bool} {missionId : String} {own : MissionRuntime}
  {row : OrchestrationApproval} {s s' : Approvals}

theorem rowLaw_asked (own : MissionRuntime)
    (h : resolveMissionRoster orchestrator members projects scope preferred = some roster)
    (hasked : row.Asked (RunsOn roster names trusted missionId))
    (hid : row.mission_id = missionId) : RowLaw roster names trusted own row := by
  obtain ⟨given, input, caller, read, hinput, hread, hnew⟩ := hasked
  obtain ⟨hrequester, hundecided, mission, hmission, hsame, hasked⟩ := newApproval_ok hnew
  refine ⟨fun hroute => ?_, fun hdecided => ?_⟩
  · obtain ⟨htrusted, t, ht, hof, hheld⟩ := hasked hroute
    have hmine := hsame.trans hid
    refine ⟨(hread.mission mission hmission hmine).2.symm.trans htrusted, ?_, ?_⟩
    · cases hassignee : t.assignee_agent_id with
      | none =>
        rw [hassignee] at hheld
        simp [callerHoldsId, trimText, jsTrim] at hheld
      | some id =>
        have hassignable := hread.step t ht (hof.trans hmine) id hassignee
        obtain ⟨spec, rfl⟩ := assignable_identity h hassignable
        rw [hassignee] at hheld
        have heq : input.agent_id = runtimeIdentityKey spec := by
          rcases callerHoldsId_identity hheld with heq | heq
          · exact heq
          · exact Option.some.inj heq
        rw [hrequester, heq]
        exact hassignable
    · unfold readRequest at hinput
      simp only [bind_eq_ok, pure_eq_ok] at hinput
      obtain ⟨_, _, rfl⟩ := hinput
      rw [hrequester]
      exact sliceText_sliceText _ _
  · rw [hundecided] at hdecided
    cases hdecided

/-- The orchestrator that decides a row of the mission is that of the roster. -/
theorem decidedBy_own {id : String}
    (h : resolveMissionRoster orchestrator members projects scope preferred = some roster)
    (hown : orchestratorRuntime roster = some own)
    (hby : row.DecidedBy (RunsOn roster names trusted missionId) IsSession id)
    (hid : row.mission_id = missionId) : id = own.agent_id := by
  obtain ⟨caller, read, mission, hsession, hread, hmission, hheld, rfl⟩ := hby
  obtain ⟨hmission, hsame⟩ := Option.filter_eq_some_iff.mp hmission
  have hmine : mission.id = missionId := (of_decide_eq_true hsame).trans hid
  have horchestrator := (hread.mission mission hmission hmine).1
  rw [horchestrator, hown, Option.map_some, orchestrator_identity h hown] at hheld
  rw [orchestrator_identity h hown]
  rcases callerHoldsId_identity hheld with heq | heq
  · exact absurd heq (hsession _)
  · rw [heq, Option.filter_some]
    simp [runtimeIdentityKey_ne_empty]

theorem RowLaw.patch (h : RowLaw roster names trusted own row) {t : ApprovalTransition} (now : Date)
    (hby : ∀ decision id note, t = .finalize decision ⟨.orchestrator, id⟩ note →
      id = own.agent_id) : RowLaw roster names trusted own (t.patch now row) := by
  cases t with
  | finalize decision decider note =>
    refine ⟨h.asked, fun hdecided => ?_⟩
    obtain ⟨type, id⟩ := decider
    obtain rfl : type = .orchestrator := Option.some.inj hdecided
    exact congrArg some (hby decision id note rfl)
  | cancel reason => exact ⟨h.asked, nofun⟩
  | escalate reason note => exact ⟨nofun, h.decided⟩

namespace Approvals

/-- One step keeps the law of every row of the mission. -/
theorem SettledInv.rowLaw {k : Nat} {rows : List OrchestrationApproval} {es : List ApprovalEffect}
    (h : resolveMissionRoster orchestrator members projects scope preferred = some roster)
    (hown : orchestratorRuntime roster = some own)
    (hinv : SettledInv (RunsOn roster names trusted missionId) IsSession s)
    (hlaw : ∀ row ∈ s.rows, row.mission_id = missionId → RowLaw roster names trusted own row)
    (hstep : s.TableStep k rows es) :
    ∀ row ∈ rows, row.mission_id = missionId → RowLaw roster names trusted own row := by
  intro row hrow hid
  cases hstep with
  | keep => exact hlaw row hrow hid
  | answer reply hreply => exact hlaw row hrow hid
  | insert hcall hkey =>
    rcases List.mem_append.mp hrow with hrow | hrow
    · exact hlaw row hrow hid
    · obtain rfl := List.mem_singleton.mp hrow
      obtain ⟨hasked, hdecided⟩ := rowLaw_asked own h (hinv.phases k _ hcall) hid
      exact ⟨hasked, hdecided⟩
  | @move held t next hcall now hwon =>
    obtain ⟨r, hr, ⟨hpr, rfl⟩ | ⟨_, rfl⟩⟩ := mem_updateWhere hrow
    · have hmission : (t.patch now r).mission_id = r.mission_id := by cases t <;> rfl
      rw [hmission] at hid
      refine (hlaw r hr hid).patch now fun decision id note ht => ?_
      -- the row the update met is the one the call holds
      obtain ⟨⟨r', hr', hsame, hof⟩, hby⟩ := (hinv.phases k _ hcall).2 decision id note ht
      have hmet : r.id = held.id := (ApprovalTransition.applies_iff.mp hpr).1
      obtain rfl := hinv.eq_of_id hr hr' (hmet.trans hsame.symm)
      exact decidedBy_own h hown hby (hof.symm.trans hid)
    · exact hlaw row hr hid
  | poll id now =>
    obtain ⟨r, hr, ⟨_, rfl⟩ | ⟨_, rfl⟩⟩ := mem_updateWhere hrow
    · exact ⟨(hlaw r hr hid).asked, (hlaw r hr hid).decided⟩
    · exact hlaw row hr hid
  | notice id now hwon =>
    obtain ⟨r, hr, ⟨_, rfl⟩ | ⟨_, rfl⟩⟩ := mem_updateWhere hrow
    · exact ⟨(hlaw r hr hid).asked, (hlaw r hr hid).decided⟩
    · exact hlaw row hr hid

end Approvals

end Law

/-! ## A session answers itself -/

namespace Approvals

section Self

variable {id : String}

/-- The request of `askedRun`, and the row it inserts. -/
def selfInput (id : String) : ApprovalRequestInput :=
  { room_id := "step-room", agent_id := id, request_key := "tool-1", tool_name := "Bash" }

def selfRow (id : String) : OrchestrationApproval :=
  { account_id := "account", mission_id := "mission", step_id := some "step", room_id := "step-room"
    requester_role := .member, requester_agent_id := id, request_key := "tool-1"
    tool_name := "Bash", can_allow_session := false, route := .orchestrator
    route_reason := .orchestrator_trusted, routed_at := 0, last_polled_at := 0 }

theorem readRequest_self (htrim : trimText id = id) (hslice : sliceText 200 id = id)
    (hne : id ≠ "") : readRequest (selfInput id) = .ok (selfInput id) := by
  have hroom : sliceText 100 (trimText "step-room") = "step-room" := by decide +kernel
  have hkey : sliceText 200 (trimText "tool-1") = "tool-1" := by decide +kernel
  have htool : sliceText 200 (trimText "Bash") = "Bash" := by decide +kernel
  simp [readRequest, selfInput, htrim, hslice, hroom, hkey, htool, refuseUnless, hne]

theorem holds_self (htrim : trimText id = id) (hne : id ≠ "") (agentId : String) :
    callerHoldsId ⟨agentId, some id⟩ (some id) = true := by
  simp [callerHoldsId, htrim, hne]

theorem newApproval_self (htrim : trimText id = id) (hne : id ≠ "") :
    newApproval (selfInput id) {} (smallRead id id) = .ok (some (selfRow id)) := by
  simp [newApproval, selfInput, smallRead, resolveRequester, orThrow, refuseUnless, givenIs,
    assertHost, holds_self htrim hne, bind, Except.bind, approvalRouteFor, selfRow,
    MissionStatus.isTerminal, StepStatus.isInFlight, pure, Except.pure, Option.filter_some]

theorem smallRead_fails (lead member : String) : (smallRead lead member).fails = false := rfl

theorem smallRead_delivered (lead member : String) : (smallRead lead member).delivered = true := rfl

/-- The session asks as the member and answers as the orchestrator. -/
theorem selfRun (htrim : trimText id = id) (hslice : sliceText 200 id = id) (hne : id ≠ "") :
    ∃ s, Transition.runList (checkedRun fun _ _ => true) {}
        (askedRun id id (.answer .allow) ++ [.advance 1 (smallRead id id)]) = .ok s ∧
      s.rows =
        [ApprovalTransition.patch (.finalize .allow ⟨.orchestrator, id⟩ "") 0 (selfRow id)] := by
  have hread := readRequest_self htrim hslice hne
  have hnew := newApproval_self htrim hne
  have hholds := holds_self htrim hne "host"
  have hknown : OrchestrationCaller.known ⟨"host", some id⟩ = true := rfl
  have hmission : (smallRead id id).mission.filter (·.id = "mission") = some
      { id := "mission", account_id := "account", status := .running
        room_id := some "mission-room", orchestrator_agent_id := some id, trusted := true } := rfl
  have hnote : sliceText 2000 (trimText "") = "" := by decide +kernel
  simp only [selfInput] at hread hnew
  simp [askedRun, Transition.runList, checkedRun, ApprovalAction.run, advance, start, checked,
    hread, hnew, rowWith, goTo, orThrow, bind, Except.bind, require, smallRead_fails,
    smallRead_delivered, selfRow, reply, rowOf, decideOn, hnote, hknown, hmission, hholds,
    refuseUnless, compareAndSet, updateWhere, ApprovalTransition.applies]
  have hdecider : ((some id).filter fun x => !decide (x = "")).getD "host" = id := by
    simp [Option.filter_some, hne]
  rw [hdecider]
  rfl

end Self

/-! ## The condition -/

section Condition

variable {orchestrator : RosterSlot} {members : List RosterSlot} {projects : List MissionProject}
  {scope : MemberFolderScope} {preferred : Option String} {roster : MissionRuntimeRoster}
  {own : MissionRuntime} {s : Approvals}

/-- The runs in which the calls read of mission `missionId` what it is on this roster. -/
def rosterSystem (roster : MissionRuntimeRoster) (projects : List ProjectName) (trusted : Bool)
    (missionId : String) : Transition Approvals ApprovalAction :=
  approvalSystem.restrict fun _ a _ =>
    a.Within (RunsOn roster projects trusted missionId) IsSession

/-- No request of the mission was decided by the identity that asked. -/
def NoneSelfApproved (s : Approvals) (missionId : String) : Prop :=
  ∀ row ∈ s.rows, row.mission_id = missionId → row.decided_by_type = some .orchestrator →
    row.decided_by ≠ some row.requester_agent_id

/-- Who has asked and who has decided, in every run. -/
theorem rowLaw_reachable {names : List ProjectName} {trusted : Bool} {missionId : String}
    (h : resolveMissionRoster orchestrator members projects scope preferred = some roster)
    (hown : orchestratorRuntime roster = some own)
    (hreach : (rosterSystem roster names trusted missionId).Reachable s) :
    SettledInv (RunsOn roster names trusted missionId) IsSession s ∧
      ∀ row ∈ s.rows, row.mission_id = missionId → RowLaw roster names trusted own row := by
  refine hreach.invariant
    (P := fun s => SettledInv (RunsOn roster names trusted missionId) IsSession s ∧
      ∀ row ∈ s.rows, row.mission_id = missionId → RowLaw roster names trusted own row)
    (fun s h0 => ?_) fun s a s' _ hi hs => ?_
  · obtain rfl := h0
    exact ⟨settledInv_init, fun _ => nofun⟩
  · obtain ⟨k, es, htable, _⟩ := action_cases hs.1 hs.2 hi.1.phases
    exact ⟨hi.1.step hs.1 hs.2, hi.1.rowLaw h hown hi.2 htable⟩

theorem reachable_of_runList {C : ApprovalAction → Prop} {actions : List ApprovalAction}
    {t : Approvals} (hreach : (approvalSystem.restrict fun _ a _ => C a).Reachable s)
    (h : Transition.runList (checkedRun fun _ _ => true) s actions = .ok t)
    (hall : ∀ a ∈ actions, C a) : (approvalSystem.restrict fun _ a _ => C a).Reachable t := by
  induction actions generalizing s with
  | nil =>
    cases h
    exact hreach
  | cons a actions ih =>
    simp only [Transition.runList] at h
    split at h
    · rename_i s' hs'
      simp only [checkedRun, bind_eq_ok, orThrow_eq_ok] at hs'
      obtain ⟨_, _, hs'⟩ := hs'
      exact ih (hreach.step ⟨hs', hall a List.mem_cons_self⟩) h
        fun b hb => hall b (List.mem_cons_of_mem _ hb)
    · cases h

/-- A trusted orchestrator whose identity a step can be assigned to approves its own request. -/
theorem exists_self_approved {names : List ProjectName}
    (h : resolveMissionRoster orchestrator members projects scope preferred = some roster)
    (hown : orchestratorRuntime roster = some own)
    (hassignable : Assignable roster names own.agent_id) (hname : Nameable own.agent_id) :
    ∃ s, (rosterSystem roster names true "mission").Reachable s ∧
      ¬s.NoneSelfApproved "mission" := by
  have hidentity := orchestrator_identity h hown
  have htrim : trimText own.agent_id = own.agent_id := by
    rw [hidentity]
    exact trimText_runtimeIdentityKey _
  have hne : own.agent_id ≠ "" := by
    rw [hidentity]
    exact runtimeIdentityKey_ne_empty _
  obtain ⟨s, hrun, hrows⟩ := selfRun htrim hname hne
  have hread : RunsOn roster names true "mission" (smallRead own.agent_id own.agent_id) := by
    refine ⟨fun m hm _ => ?_, fun t ht _ id hid => ?_⟩
    · cases hm
      rw [hown]
      exact ⟨rfl, rfl⟩
    · cases ht
      cases hid
      exact hassignable
  refine ⟨s, reachable_of_runList (.init rfl) hrun fun a ha => ?_, fun hnone => ?_⟩
  · simp only [askedRun, List.cons_append, List.nil_append, List.mem_cons, List.not_mem_nil,
      or_false] at ha
    rcases ha with rfl | rfl | rfl | rfl | rfl | rfl | rfl | rfl | rfl
    any_goals exact hread
    · trivial
    · have hhost : "host".toList.head? ≠ some 'r' := by decide
      exact fun spec => runtimeIdentityKey_ne hhost
  · rw [NoneSelfApproved, hrows] at hnone
    exact hnone _ (List.mem_singleton_self _) rfl rfl rfl

/-- Nobody approves its own request, on exactly the rosters where no step can be assigned to the
    identity of a trusted orchestrator. -/
theorem never_self_approved_iff {names : List ProjectName} {trusted : Bool}
    (h : resolveMissionRoster orchestrator members projects scope preferred = some roster)
    (hown : orchestratorRuntime roster = some own) :
    (∀ missionId s, (rosterSystem roster names trusted missionId).Reachable s →
      s.NoneSelfApproved missionId) ↔
    (trusted = true → Assignable roster names own.agent_id → ¬Nameable own.agent_id) := by
  constructor
  · intro hnone htrusted hassignable hname
    subst htrusted
    obtain ⟨s, hreach, hself⟩ := exists_self_approved h hown hassignable hname
    exact hself (hnone "mission" s hreach)
  · intro hcondition missionId s hreach row hrow hid hdecided hself
    obtain ⟨hinv, hlaw⟩ := rowLaw_reachable h hown hreach
    have hroute := ((hinv.counted row hrow).byRoute hdecided).1
    obtain ⟨htrusted, hassignable, hname⟩ := (hlaw row hrow hid).asked hroute
    have hown := (hlaw row hrow hid).decided hdecided
    rw [hself] at hown
    rw [Option.some.inj hown] at hassignable hname
    exact hcondition htrusted hassignable hname

end Condition

/-! ### Two teams -/

/-- An orchestrator and a member that use this CLI each, on one host. -/
def pairOf (lead member : String) : RosterSlot × RosterSlot :=
  ({ slot_id := ORCHESTRATOR_SLOT_ID, name := "Lead", max_concurrent := 1
     spec := { manager_agent_id := "host", cli := lead } },
    { slot_id := "member", name := "Member", max_concurrent := 1
      spec := { manager_agent_id := "host", cli := member } })

def onlyProject : MissionProject := ⟨"project", "Project", [("host", "/repo")]⟩

def pairRoster (lead member : String) : Option MissionRuntimeRoster :=
  resolveMissionRoster (pairOf lead member).1 [(pairOf lead member).2] [onlyProject] .shared none

/-- With CLIs of their own, nobody approves its own request. -/
theorem apart_never_self_approved : ∃ roster own,
    pairRoster "claude" "codex" = some roster ∧ orchestratorRuntime roster = some own ∧
      ∀ missionId s, (rosterSystem roster [⟨"project", "Project"⟩] true missionId).Reachable s →
        s.NoneSelfApproved missionId := by
  have hroster : pairRoster "claude" "codex" = some _ := rfl
  refine ⟨_, _, hroster, rfl, (never_self_approved_iff hroster rfl).mpr ?_⟩
  rintro - ⟨slot, project, s, run, hassign, hid⟩
  obtain ⟨hmem, hslot⟩ := mem_of_assignment hassign
  rcases List.mem_cons.mp hmem with rfl | hmem
  · exact absurd rfl hslot
  · obtain rfl := List.mem_singleton.mp hmem
    revert hid
    decide +kernel

/-- With one CLI, a trusted orchestrator approves what its own identity has asked as a member. -/
theorem approves_own : ∃ roster own,
    pairRoster "claude" "claude" = some roster ∧ orchestratorRuntime roster = some own ∧
      ∃ s, (rosterSystem roster [⟨"project", "Project"⟩] true "mission").Reachable s ∧
        ¬s.NoneSelfApproved "mission" := by
  have hroster : pairRoster "claude" "claude" = some _ := rfl
  refine ⟨_, _, hroster, rfl, exists_self_approved hroster rfl ?_ (by decide +kernel)⟩
  exact ⟨"member", none, _, _, rfl, by decide +kernel⟩

end Approvals

end WorkflowBoard.Orchestration
