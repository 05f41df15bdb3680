import WorkflowBoard.Native.MissionFolders
import WorkflowBoard.Spec.MissionStarted

/-!
# Shared folders have one mission

A start or a reopening is refused where an active mission works in one of its folders. It looks
once, and becomes active only after its hosts have prepared the runtimes: two calls that have
both looked do not see each other. Where each check also holds against the missions that have
passed theirs and are not active yet, active missions with shared folders never meet.
-/

namespace WorkflowBoard.Orchestration

/-- Two rosters have members on one host in one folder. -/
def SharesFolder (R R' : MissionRuntimeRoster) : Prop :=
  ∃ a ∈ R.runtimes, ∃ b ∈ R'.runtimes,
    a.slot_id ≠ ORCHESTRATOR_SLOT_ID ∧ b.slot_id ≠ ORCHESTRATOR_SLOT_ID ∧
    a.spec.manager_agent_id = b.spec.manager_agent_id ∧
    trimFolder a.spec.working_dir = trimFolder b.spec.working_dir

/-- No two active missions with shared folders work in one of them. -/
def Missions.Exclusive (s : Missions) : Prop :=
  ∀ (i j : Nat) (x y : LockedMission) (R R' : MissionRuntimeRoster), i ≠ j →
    s.rows[i]? = some x → s.rows[j]? = some y →
    x.mission.isActive = true → y.mission.isActive = true →
    x.mission.folder_scope = .shared → y.mission.folder_scope = .shared →
    x.mission.runtime_roster = some R → y.mission.runtime_roster = some R' → ¬SharesFolder R R'

/-! ## The condition -/

/-- The roster of a start or a reopening whose status is not written yet. -/
def LockedMission.pending (x : LockedMission) : Option MissionRuntimeRoster :=
  match x.call with
  | some (.starting roster ..) => some roster
  | some (.reopening roster ..) => roster
  | _ => none

/-- What a check of mission `k` would find if the missions whose start or reopening is under way
    were active. -/
def Missions.fullView (s : Missions) (k : Nat) (v : StartView) : StartView :=
  { v with
    others := s.activeRosters k ++ (s.rows.eraseIdx k).filterMap (·.pending) }

/-- A check that passes would also pass against the missions that are under way. A draft that
    kept the roster of a failed start is not paused. -/
def Missions.overlooksNone (s : Missions) : MissionsAction → Bool
  | .start k v => s.rows[k]?.all fun x =>
    !(Runner.startChecks x.mission (s.view k v)).toBool ||
      (Runner.startChecks x.mission (s.fullView k v)).toBool
  | .reopen k _ v => s.rows[k]?.all fun x =>
    !(Runner.reopenChecks x.mission (s.view k v)).toBool ||
      (Runner.reopenChecks x.mission (s.fullView k v)).toBool
  | .call k _ .pauseMission => s.rows[k]?.all fun x =>
    x.mission.status ≠ .draft || x.mission.runtime_roster.isNone
  | _ => true

/-! ## Rosters -/

section Rosters

variable {R R' : MissionRuntimeRoster} {others : List MissionRuntimeRoster}

theorem SharesFolder.symm (h : SharesFolder R R') : SharesFolder R' R := by
  obtain ⟨a, ha, b, hb, hslot, hslot', hhost, hfolder⟩ := h
  exact ⟨b, hb, a, ha, hslot', hslot, hhost.symm, hfolder.symm⟩

theorem mem_memberFolders {run : MissionRuntime} (h : run ∈ R.runtimes)
    (hslot : run.slot_id ≠ ORCHESTRATOR_SLOT_ID) :
    (run.spec.manager_agent_id, trimFolder run.spec.working_dir) ∈ memberFolders R := by
  unfold memberFolders
  rw [List.mem_eraseDups]
  refine List.mem_map_of_mem (List.mem_filter.mpr ⟨h, ?_⟩)
  simpa using hslot

/-- A roster that passes the check shares no folder with another one that is shared. -/
theorem not_sharesFolder (h : sharedFolderConflict R others = false) (hmem : R' ∈ others)
    (hR : R.folder_scope = .shared) (hR' : R'.folder_scope = .shared) : ¬SharesFolder R R' := by
  rintro ⟨a, ha, b, hb, hslot, hslot', hhost, hfolder⟩
  unfold sharedFolderConflict at h
  rw [hR, decide_eq_true rfl, Bool.true_and] at h
  have hother := List.any_eq_false.mp h R' hmem
  rw [hR', decide_eq_true rfl, Bool.true_and, Bool.not_eq_true] at hother
  have hnone := List.any_eq_false.mp hother _ (mem_memberFolders ha hslot)
  rw [decide_eq_true_eq, hhost, hfolder] at hnone
  exact hnone (mem_memberFolders hb hslot')

variable {preferred : Option String}

theorem resolveMissionRoster_scope {orchestrator : RosterSlot} {members : List RosterSlot}
    {projects : List MissionProject} {scope : MemberFolderScope}
    (h : resolveMissionRoster orchestrator members projects scope preferred = some R) :
    R.folder_scope = scope ∧ projects ≠ [] := by
  unfold resolveMissionRoster at h
  split at h
  · cases h
  · rename_i own hown
    split at h
    · cases h
    · cases h
      refine ⟨rfl, ?_⟩
      rintro rfl
      cases hown

theorem keepOrchestratorRuntime_scope (R : MissionRuntimeRoster) (spec : Option TeamAgentSpec) :
    (keepOrchestratorRuntime R spec).folder_scope = R.folder_scope := by
  unfold keepOrchestratorRuntime
  split <;> rfl

/-- A check resolves a roster of the mission's own scope that conflicts with none of the others;
    against other missions it resolves the same one. -/
theorem resolveRoster_others {m : Mission} {v : StartView}
    {keep : MissionRuntimeRoster → MissionRuntimeRoster}
    (hkeep : ∀ R, (keep R).folder_scope = R.folder_scope)
    (h : Runner.resolveRoster m v preferred keep = .ok R) :
    R.folder_scope = m.folder_scope ∧ m.projects ≠ [] ∧ sharedFolderConflict R v.others = false ∧
      ∀ others R', Runner.resolveRoster m { v with others } preferred keep = .ok R' →
        sharedFolderConflict R others = false := by
  simp only [Runner.resolveRoster, bind_eq_ok, require_eq_ok, orThrow_eq_ok,
    pure_eq_ok, Bool.not_eq_true'] at h
  obtain ⟨_, hprojects, orchestrator, horch, _, hmembers, _, happroval, found, hfound, _,
    hfree, rfl⟩ := h
  obtain ⟨hscope, hne⟩ := resolveMissionRoster_scope hfound
  refine ⟨(hkeep found).trans hscope, fun hnil => hne (by rw [hnil]; rfl), hfree,
    fun others R' h' => ?_⟩
  simp only [Runner.resolveRoster, bind_eq_ok, require_eq_ok, orThrow_eq_ok,
    pure_eq_ok, Bool.not_eq_true'] at h'
  obtain ⟨_, _, orchestrator', horch', _, _, _, _, found', hfound', _, hfree', _⟩ := h'
  rw [horch] at horch'
  cases horch'
  rw [hfound] at hfound'
  cases hfound'
  exact hfree'

end Rosters

/-! ## Calls on a mission that is not a draft -/

/-- The mission keeps what its roster depends on, and is not active again once it has ended. -/
structure Onward (m m' : Mission) : Prop where
  begun : m'.status ≠ .draft
  roster : m'.runtime_roster = m.runtime_roster
  scope : m'.folder_scope = m.folder_scope
  projects : m'.projects = m.projects
  room : m'.room_id = m.room_id
  active : m'.isActive = true → m.isActive = true

variable {m : Mission}

theorem Onward.refl (h : m.status ≠ .draft) : Onward m m :=
  ⟨h, rfl, rfl, rfl, rfl, id⟩

theorem Onward.trans {m₁ m₂ m₃ : Mission} (h : Onward m₁ m₂) (h' : Onward m₂ m₃) :
    Onward m₁ m₃ :=
  ⟨h'.begun, h'.roster.trans h.roster, h'.scope.trans h.scope, h'.projects.trans h.projects,
    h'.room.trans h.room, fun hactive => h.active (h'.active hactive)⟩

theorem not_active_of_terminal (h : m.status.isTerminal = true) :
    m.isActive = false := by
  cases hactive : m.isActive with
  | false => rfl
  | true => rcases isActive_iff.mp hactive with hs | hs | hs <;> rw [hs] at h <;> cases h

theorem not_draft_of_terminal (h : m.status.isTerminal = true) :
    m.status ≠ .draft := by
  intro hs
  rw [hs] at h
  cases h

/-- The calls but a reopening. -/
def noReopen : Guards := { reopen := fun _ => False }

theorem meets_noReopen {now : Date} {r : Runner} {a : Action}
    (h : ∀ agent v, a ≠ .reopenMission agent v) : Runner.Meets noReopen now r a := by
  have hdefault : Runner.Meets {} now r a := Runner.meets_default a
  cases a with
  | reopenMission agent v => exact absurd rfl (h agent v)
  | _ => exact hdefault

/-- The settings of a mission that is not a draft are not those of its brief. -/
theorem Onward.settings {r : Runner} {p : MissionPatch} (criteria : List MissionCompletionCriterion)
    (hbrief : r.mission.status = .draft ∨ p.touchesBrief = false)
    (hbegun : r.mission.status ≠ .draft) :
    Onward r.mission (Runner.patchedBy r.mission p criteria) := by
  rcases hbrief with hdraft | hbrief
  · exact absurd hdraft hbegun
  · simp only [MissionPatch.touchesBrief, Bool.or_eq_false_iff, Option.isSome_eq_false_iff,
      Option.isNone_iff_eq_none] at hbrief
    obtain ⟨⟨⟨⟨_, hprojects⟩, hscope⟩, _⟩, _⟩ := hbrief
    refine ⟨hbegun, rfl, ?_, ?_, rfl, id⟩
    · simp [Runner.patchedBy, hscope]
    · simp [Runner.patchedBy, hprojects]

theorem Onward.life {r r' : Runner} (hbegun : r.mission.status ≠ .draft)
    (hw : LifeWrite noReopen r r') : Onward r.mission r'.mission := by
  -- a mission that is ended keeps everything but its status
  have hended : ∀ m : Mission, m.status.isTerminal = true →
      m.runtime_roster = r.mission.runtime_roster → m.folder_scope = r.mission.folder_scope →
      m.projects = r.mission.projects → m.room_id = r.mission.room_id → Onward r.mission m :=
    fun m hm hroster hscope hprojects hroom =>
      ⟨not_draft_of_terminal hm, hroster, hscope, hprojects, hroom, fun hactive => by
        rw [not_active_of_terminal hm] at hactive
        cases hactive⟩
  cases hw.lifeCase with
  | same => exact .refl hbegun
  | settings criteria hbrief _ => exact .settings criteria hbrief hbegun
  | prepared _ hdraft => exact absurd hdraft hbegun
  | unbriefed _ _ hdraft => exact absurd hdraft hbegun
  | started _ _ _ _ _ hdraft => exact absurd hdraft hbegun
  | paused hopen _ =>
    exact ⟨nofun, rfl, rfl, rfl, rfl, fun _ => active_of_open hbegun hopen⟩
  | resumed hpaused =>
    refine ⟨fun hdraft => ?_, rfl, rfl, rfl, rfl,
      fun _ => isActive_iff.mpr (.inr (.inr hpaused))⟩
    change (if 0 < r.mission.plan_version then MissionStatus.running else .planning) = .draft
      at hdraft
    split at hdraft <;> cases hdraft
  | closed _ _ _ _ hstatus => exact hended _ hstatus rfl rfl rfl rfl
  | redrafted hno => exact absurd hno id
  | reopened hno => exact absurd hno id
  | completed _ _ _ _ _ hstatus =>
    rw [Runner.runPostActions_mission]
    exact hended _ hstatus rfl rfl rfl rfl
  | criteria => exact ⟨hbegun, rfl, rfl, rfl, rfl, id⟩
  | postStep now fate =>
    obtain ⟨_, _, heq⟩ := Runner.postStep_mission (r := r) now fate
    rw [heq]
    exact ⟨hbegun, rfl, rfl, rfl, rfl, id⟩
  | crash => exact .refl hbegun
  | recover =>
    rw [Runner.runPostActions_mission]
    exact .refl hbegun

/-- A write leads a mission that has begun on, or ends it. -/
theorem Onward.write {r r' : Runner} (hbegun : r.mission.status ≠ .draft)
    (hw : Write noReopen r r') : Onward r.mission r'.mission := by
  rcases hw.kept_or_life with hkept | hlife
  · obtain ⟨_, _, _, _, _, status, heq, hstatus⟩ := hkept.mission
    rw [heq]
    rcases hstatus with rfl | ⟨hplanning, rfl⟩
    · exact ⟨hbegun, rfl, rfl, rfl, rfl, id⟩
    · exact ⟨nofun, rfl, rfl, rfl, rfl, fun _ => isActive_iff.mpr (.inl hplanning)⟩
  · exact .life hbegun hlife

/-! ## An ended mission -/

/-- How a mission has ended. -/
def Mission.ending (m : Mission) : MissionStatus × String × String × Option Date :=
  (m.status, m.result_summary, m.failure_reason, m.finished_at)

/-- No write but a reopening changes how a mission has ended. -/
theorem ending_life {r r' : Runner} (hended : r.mission.status.isTerminal = true)
    (h : LifeWrite noReopen r r') : r'.mission.ending = r.mission.ending := by
  have hdraft := not_draft_of_terminal hended
  cases h.lifeCase with
  | same | settings | criteria | crash => rfl
  | prepared _ hs | unbriefed _ _ hs | started _ _ _ _ _ hs => exact absurd hs hdraft
  | paused hopen | closed _ _ _ hopen | completed _ _ _ _ hopen =>
    rw [hended] at hopen
    cases hopen
  | resumed hs =>
    rw [hs] at hended
    cases hended
  | redrafted hno | reopened hno => exact hno.elim
  | postStep now fate =>
    obtain ⟨_, _, heq⟩ := Runner.postStep_mission (r := r) now fate
    rw [heq]
    rfl
  | recover =>
    rw [Runner.runPostActions_mission]

/-- An ended mission stays as it ended: its status, its summary, the reason of its failure and the
    time stay, whatever is called, one call after the other, until it is reopened. -/
theorem ending_final {r r' : Runner} (hr : missionSystem.Reachable r)
    (hended : r.mission.status.isTerminal = true)
    {calls : List (Date × Action)} (hp : (missionSystem.restrict fun _ call _ =>
      ∀ agent view, call.2 ≠ .reopenMission agent view).Path r calls r') :
    r'.mission.ending = r.mission.ending := by
  have hkept : ∀ r₁ r₂ : Runner, r₁.Sane → r₁.mission.ending = r.mission.ending →
      Write noReopen r₁ r₂ → r₂.mission.ending = r.mission.ending := by
    intro r₁ r₂ _ hsame hw
    have hstatus : r₁.mission.status = r.mission.status := congrArg Prod.fst hsame
    have hended₁ := hstatus ▸ hended
    rw [← hsame]
    rcases hw.kept_or_life with hkept | hlife
    · obtain ⟨_, _, _, _, _, status, heq, hstatus' | hplan⟩ := hkept.mission
      · rw [heq, hstatus']
        rfl
      · rw [hplan.1] at hended₁
        cases hended₁
    · exact ending_life hended₁ hlife
  have hboth : r'.Sane ∧ r'.mission.ending = r.mission.ending := by
    induction hp with
    | nil => exact ⟨Runner.reachable_sane hr, rfl⟩
    | snoc _ hcall ih =>
      exact (Runner.step_writes ih.1 hcall.1 (meets_noReopen hcall.2)).invariant hkept ih.1 ih.2
  exact hboth.2

def Action.reopens : Action → Bool
  | .reopenMission _ _ => true
  | _ => false

/-- The post-action of a completed mission is dispatched, the process dies before it is told, and
    the sweep after the next boot finds the run. -/
def callsBehindEnd : List (Date × Action) :=
  [(2, .postStep .returns), (3, .postStep .returns), (4, .crash), (5, .startMission smallView),
    (6, .cancelMission ""), (1000000000, .recoverPostActions), (1000000001, .postStep .returns)]

theorem ending_final_completed : ∃ r r' : Runner, r.mission.status = .completed ∧
    anyUnsettled r.mission.post_actions = true ∧ anyUnsettled r'.mission.post_actions = false ∧
    missionSystem.Path r callsBehindEnd r' ∧ r'.mission.ending = r.mission.ending := by
  obtain ⟨r, hr, hp⟩ := Runner.exists_reachable_of_run
    { smallMission with post_actions := [⟨"action", none⟩] }
    [(0, .startMission smallView),
      (1, .completeMission (smallCaller smallOrchestrator) .completed "")]
    (fun r => r.mission.status = .completed && anyUnsettled r.mission.post_actions &&
      (Transition.runList (Runner.checkedCall fun _ call => !call.2.reopens) r
        callsBehindEnd).toOption.any fun r' => !anyUnsettled r'.mission.post_actions)
    (by decide +kernel)
  simp only [Bool.and_eq_true, decide_eq_true_eq] at hp
  obtain ⟨⟨hstatus, hopen⟩, hrun⟩ := hp
  have hcheck : ∀ (r : Runner) (call : Date × Action) (r' : Runner), (!call.2.reopens) = true →
      ∀ agent view, call.2 ≠ .reopenMission agent view := by
    intro _ call _ hcall agent view heq
    rw [heq] at hcall
    cases hcall
  obtain ⟨r', hpath, hdone⟩ := Transition.exists_path_of_run (M := missionSystem.restrict _)
    (fun _ _ _ h => Runner.checkedCall_step hcheck h) r callsBehindEnd _ hrun
  exact ⟨r, r', hstatus, hopen, by simpa using hdone, hpath.of_restrict,
    ending_final hr (by rw [hstatus]; rfl) hpath⟩

/-! ## One mission -/

namespace LockedMission

/-- The roster a mission works with, or is about to. -/
def claim (x : LockedMission) : Option MissionRuntimeRoster :=
  x.pending.or (if x.mission.isActive then x.mission.runtime_roster else none)

/-- A mission with a room has begun and names projects. -/
def RoomOk (m : Mission) : Prop :=
  m.room_id.all (· = "") = false → m.status ≠ .draft ∧ m.projects ≠ []

/-- A call behind its checks finds the mission as they left it. -/
def PhaseOk (m : Mission) : Option LifeCall → Prop
  | some (.starting roster _ _ saved) =>
    m.status = .draft ∧ m.projects ≠ [] ∧ (saved = true → m.runtime_roster = some roster)
  | some (.reopening roster _ saved) =>
    m.status.isTerminal = true ∧ roster.isSome = true ∧ (saved = true → m.runtime_roster = roster)
  | _ => True

structure RowOk (x : LockedMission) : Prop where
  sane : x.runner.Sane
  scope : ∀ R, x.claim = some R → R.folder_scope = x.mission.folder_scope
  room : RoomOk x.mission
  phase : PhaseOk x.mission x.call

section Row

variable {x x' : LockedMission}

theorem claim_of_pending {R : MissionRuntimeRoster} (h : x.pending = some R) :
    x.claim = some R := by
  unfold claim
  rw [h, Option.some_or]

/-- A mission that is not active has no claim but that of its call. -/
theorem claim_idle (hactive : x.mission.isActive = false) : x.claim = x.pending := by
  unfold claim
  rw [hactive, if_neg Bool.false_ne_true, Option.or_none]

theorem not_active_of_draft {m : Mission} (h : m.status = .draft) : m.isActive = false := by
  unfold Mission.isActive
  rw [h]
  rfl

/-- An active mission has a claim to its roster only. -/
theorem claim_of_active (h : x.RowOk) (hactive : x.mission.isActive = true) :
    x.claim = x.mission.runtime_roster := by
  have hphase := h.phase
  unfold claim pending
  split
  · rename_i hcall
    rw [hcall] at hphase
    rw [not_active_of_draft hphase.1] at hactive
    cases hactive
  · rename_i hcall
    rw [hcall] at hphase
    rw [not_active_of_terminal hphase.1] at hactive
    cases hactive
  · rw [if_pos hactive, Option.none_or]

/-- A step of the call keeps the row, and claims no other roster. -/
structure Stays (x x' : LockedMission) : Prop where
  row : x'.RowOk
  claim : ∀ R, x'.claim = some R → x.claim = some R

theorem Stays.same (h : x.RowOk) (hclaim : x'.claim = x.claim) (hsane : x'.runner.Sane)
    (hscope : x'.mission.folder_scope = x.mission.folder_scope) (hroom : RoomOk x'.mission)
    (hphase : PhaseOk x'.mission x'.call) : Stays x x' := by
  refine ⟨⟨hsane, fun R hR => ?_, hroom, hphase⟩, fun R hR => ?_⟩
  · rw [hscope]
    exact h.scope R (hclaim ▸ hR)
  · rw [← hclaim]
    exact hR

/-- The call saves the roster it has claimed. -/
theorem saveRoster_stays (h : x.RowOk) (hs : x.saveRoster = some x') : Stays x x' := by
  have hphase := h.phase
  unfold saveRoster at hs
  dsimp only at hs
  split at hs
  · rename_i roster orchestrator room hcall
    cases hs
    rw [hcall] at hphase
    have hclaim : x.claim = some roster := claim_of_pending (by simp only [pending, hcall])
    refine .same h ?_ (h.sane.congr rfl rfl) rfl h.room ⟨hphase.1, hphase.2.1, fun _ => rfl⟩
    rw [hclaim]
    exact claim_of_pending rfl
  · rename_i roster previous hcall
    cases hs
    rw [hcall] at hphase
    obtain ⟨R, rfl⟩ := Option.isSome_iff_exists.mp hphase.2.1
    have hclaim : x.claim = some R := claim_of_pending (by simp only [pending, hcall])
    refine .same h ?_ (h.sane.congr rfl rfl) rfl h.room ⟨hphase.1, rfl, fun _ => rfl⟩
    rw [hclaim]
    exact claim_of_pending rfl
  · cases hs

variable {r : Runner} {now : Date}

/-- A call that ends with a mission that holds no folder. -/
theorem Stays.without (hsane : r.Sane) (hroom : RoomOk r.mission)
    (hnone : r.mission.isActive = true → r.mission.runtime_roster = none) :
    Stays x ⟨r, none⟩ := by
  have hclaim : (⟨r, none⟩ : LockedMission).claim = none := by
    change (if r.mission.isActive then r.mission.runtime_roster else none) = none
    split
    · rename_i hactive
      exact hnone hactive
    · rfl
  refine ⟨⟨hsane, fun R hR => ?_, hroom, trivial⟩, fun R hR => ?_⟩
  · rw [hclaim] at hR
    cases hR
  · rw [hclaim] at hR
    cases hR

/-- A call that ends with a mission that is not active. -/
theorem Stays.idle (hsane : r.Sane) (hroom : RoomOk r.mission)
    (hactive : r.mission.isActive = false) : Stays x ⟨r, none⟩ := by
  refine .without hsane hroom fun h => ?_
  rw [hactive] at h
  cases h

theorem prepareFails_stays (h : x.RowOk) (hs : x.prepareFails = some x') : Stays x x' := by
  have hphase := h.phase
  unfold prepareFails at hs
  dsimp only at hs
  split at hs
  · rename_i hcall
    cases hs
    rw [hcall] at hphase
    exact .idle (h.sane.congr rfl rfl) h.room (not_active_of_draft hphase.1)
  · rename_i hcall
    cases hs
    rw [hcall] at hphase
    exact .idle (h.sane.congr rfl rfl) h.room (not_active_of_terminal hphase.1)
  · cases hs

theorem activate_stays (h : x.RowOk) (hs : x.activate now = some x') :
    Stays x x' := by
  have hphase := h.phase
  unfold activate at hs
  dsimp only at hs
  split at hs
  · rename_i roster orchestrator room hcall
    cases hs
    rw [hcall] at hphase
    have hclaim : x.claim = some roster := claim_of_pending (by simp only [pending, hcall])
    refine .same h ?_ (h.sane.congr rfl rfl) rfl
      (fun _ => ⟨nofun, hphase.2.1⟩) trivial
    rw [hclaim]
    exact hphase.2.2 rfl
  · rename_i roster previous hcall
    cases hs
    rw [hcall] at hphase
    obtain ⟨R, rfl⟩ := Option.isSome_iff_exists.mp hphase.2.1
    have hclaim : x.claim = some R := claim_of_pending (by simp only [pending, hcall])
    refine .same h ?_ (h.sane.congr rfl rfl) rfl
      (fun hroom => ⟨nofun, (h.room hroom).2⟩) trivial
    rw [hclaim]
    exact hphase.2.2 rfl
  · cases hs

theorem briefFails_stays (h : x.RowOk) (hs : x.briefFails = some x') : Stays x x' := by
  unfold briefFails at hs
  split at hs
  · cases hs
    exact .idle (h.sane.congr rfl rfl) nofun rfl
  · cases hs

theorem returns_stays (h : x.RowOk) (hs : x.returns = some x') : Stays x x' := by
  unfold returns at hs
  split at hs
  · cases hs
    cases hactive : x.mission.isActive with
    | false => exact .idle h.sane h.room hactive
    | true =>
      refine .same h ?_ h.sane rfl h.room trivial
      rw [claim_of_active h hactive]
      exact if_pos hactive
  · cases hs

/-! A call that nothing interrupts is the runner's own. -/

/-- A start that nothing interrupts is the one of the runner. -/
theorem start_uninterrupted {v : StartView} {roster : MissionRuntimeRoster}
    {orchestrator : MissionRuntime}
    (h : Runner.startChecks x.mission v = .ok (roster, orchestrator)) (hfate : v.fate = .succeeds) :
    (({ x with call := some (.starting roster orchestrator v.room false) } :
      LockedMission).saveRoster.bind fun x => (x.activate now).bind (·.returns)) =
        some ⟨(x.runner.startMission v now).runner, none⟩ := by
  have hchecks : Runner.startChecks x.runner.mission v = .ok (roster, orchestrator) := h
  unfold Runner.startMission
  dsimp only
  rw [hchecks]
  dsimp only
  rw [hfate]
  rfl

theorem reopen_uninterrupted {agent : Option OrchestrationCaller} {v : StartView}
    {roster : Option MissionRuntimeRoster} (hmay : Missions.mayReopen x.mission agent = .ok ())
    (hroom : x.mission.room_id.all (· = "") = false)
    (h : Runner.reopenChecks x.mission v = .ok roster) (hfate : v.fate = .succeeds) :
    (({ x with call := some (.reopening roster x.mission.runtime_roster false) } :
      LockedMission).saveRoster.bind (·.activate now)) =
        some ⟨(x.runner.reopenMission agent v).runner, none⟩ := by
  have hchecks : Runner.reopenChecks x.runner.mission v = .ok roster := h
  have hnot : ¬x.runner.mission.room_id.all (· = "") = true := Bool.eq_false_iff.mp hroom
  unfold Runner.reopenMission
  dsimp only
  split
  · rename_i hno
    have hno' : Missions.mayReopen x.mission agent = .error _ := hno
    rw [hmay] at hno'
    cases hno'
  · rw [if_neg hnot, hchecks]
    dsimp only
    rw [hfate]
    rfl

theorem Stays.onward (h : x.RowOk) (hsane : r.Sane)
    (hw : Onward x.mission r.mission) : Stays x ⟨r, none⟩ := by
  have hroom : RoomOk r.mission := by
    intro hroom
    rw [hw.room] at hroom
    exact ⟨hw.begun, by rw [hw.projects]; exact (h.room hroom).2⟩
  cases hactive : r.mission.isActive with
  | false => exact .idle hsane hroom hactive
  | true =>
    refine .same h ?_ hsane hw.scope hroom trivial
    rw [claim_of_active h (hw.active hactive), ← hw.roster]
    exact if_pos hactive

/-- A draft is edited, ended, or paused with the roster it has. -/
theorem draft_call (now : Date) {a : Action} (hdraft : r.mission.status = .draft)
    (hmay : (⟨r, none⟩ : LockedMission).mayCall a = true) :
    (a.run now r).runner.mission.room_id = r.mission.room_id ∧
      ((a.run now r).runner.mission.isActive = true → a = .pauseMission ∧
        (a.run now r).runner.mission.runtime_roster = r.mission.runtime_roster) := by
  have hsettled : ∀ x : Except Refusal Runner,
      (∀ r', x = .ok r' → r'.mission.room_id = r.mission.room_id ∧
        (r'.mission.isActive = true → a = .pauseMission ∧
          r'.mission.runtime_roster = r.mission.runtime_roster)) →
      (r.settled x).runner.mission.room_id = r.mission.room_id ∧
        ((r.settled x).runner.mission.isActive = true → a = .pauseMission ∧
          (r.settled x).runner.mission.runtime_roster = r.mission.runtime_roster) := by
    intro x hx
    cases x with
    | ok r' => exact hx r' rfl
    | error e =>
      refine ⟨rfl, fun hactive => ?_⟩
      exact absurd hactive (Bool.eq_false_iff.mp (not_active_of_draft hdraft))
  cases a with
  | updateMission p =>
    refine hsettled _ fun r' hr' => ?_
    obtain ⟨_, criteria, rfl⟩ := Runner.updateMission_ok hr'
    exact ⟨rfl, fun hactive => absurd hactive (Bool.eq_false_iff.mp (not_active_of_draft hdraft))⟩
  | pauseMission =>
    refine hsettled _ fun r' hr' => ?_
    simp only [Runner.pauseMission, bind_eq_ok, pure_eq_ok] at hr'
    obtain ⟨_, _, rfl⟩ := hr'
    exact ⟨rfl, fun _ => ⟨rfl, rfl⟩⟩
  | cancelMission reason =>
    refine hsettled _ fun r' hr' => ?_
    simp only [Runner.cancelMission, bind_eq_ok, pure_eq_ok] at hr'
    obtain ⟨_, _, rfl⟩ := hr'
    exact ⟨rfl, nofun⟩
  | completeMission caller status summary =>
    refine hsettled _ fun r' hr' => ?_
    obtain ⟨_, _, _, _, rfl⟩ := Runner.completeMission_ok hr'
    rw [Runner.runPostActions_mission]
    refine ⟨rfl, fun hactive => ?_⟩
    cases status <;> cases hactive
  | _ => simp [mayCall, mission, hdraft] at hmay

/-- The calls of the runner, where no draft with a roster is paused. -/
theorem call_stays {a : Action} (h : x.RowOk) (hmay : x.mayCall a = true)
    (hpause : a = .pauseMission → x.mission.status ≠ .draft ∨ x.mission.runtime_roster = none) :
    Stays x { x with runner := (a.run now x.runner).runner } := by
  obtain ⟨r, call⟩ := x
  have hfree := (Bool.and_eq_true_iff.mp hmay).1
  unfold free at hfree
  rw [Bool.and_eq_true, Option.isNone_iff_eq_none] at hfree
  obtain ⟨rfl, hpost⟩ := hfree
  have hreopen : ∀ agent v, a ≠ .reopenMission agent v := by
    rintro agent v rfl
    cases (Bool.and_eq_true_iff.mp hmay).2
  have hwrites : Writes noReopen r (a.run now r).runner := by
    refine Runner.run_writes h.sane (fun hlocks => ?_) (meets_noReopen hreopen)
    rw [hlocks, Bool.not_true, Bool.false_or, Option.isNone_iff_eq_none] at hpost
    exact hpost
  have hsane := hwrites.sane h.sane
  by_cases hdraft : r.mission.status = .draft
  · obtain ⟨hroom, hactive⟩ := draft_call now hdraft hmay
    refine .without hsane (fun hsome => ?_) fun hnow => ?_
    · rw [hroom] at hsome
      exact absurd hdraft (h.room hsome).1
    · obtain ⟨rfl, hroster⟩ := hactive hnow
      exact hroster.trans ((hpause rfl).resolve_left fun hne => hne hdraft)
  · refine .onward h hsane (hwrites.invariant (P := fun r' => Onward r.mission r'.mission)
      (fun r₁ r₂ _ hw hwrite => hw.trans (.write hw.begun hwrite)) h.sane (.refl hdraft)).2

end Row

end LockedMission

/-! ## All missions -/

namespace Missions

/-- No two missions have a claim to one shared folder. -/
structure FoldersInv (s : Missions) : Prop where
  row : ∀ (k : Nat) (x : LockedMission), s.rows[k]? = some x → x.RowOk
  apart : ∀ (i j : Nat) (x y : LockedMission) (R R' : MissionRuntimeRoster), i ≠ j →
    s.rows[i]? = some x → s.rows[j]? = some y → x.claim = some R → y.claim = some R' →
    R.folder_scope = .shared → R'.folder_scope = .shared → ¬SharesFolder R R'

section Steps

variable {s s' : Missions} {k : Nat} {x x' : LockedMission}

/-- A mission keeps its claim, or gets one that is apart from those of the others. -/
theorem FoldersInv.set (h : s.FoldersInv) (hrow : x'.RowOk) (hk : s.rows[k]? = some x)
    (hclaim : ∀ R, x'.claim = some R → x.claim = some R ∨ ∀ (j : Nat) (y : LockedMission) R',
      j ≠ k → s.rows[j]? = some y → y.claim = some R' → R.folder_scope = .shared →
      R'.folder_scope = .shared → ¬SharesFolder R R') : (s.set k x').FoldersInv := by
  have hget : ∀ {j : Nat} {y : LockedMission}, (s.set k x').rows[j]? = some y →
      j = k ∧ y = x' ∨ j ≠ k ∧ s.rows[j]? = some y := by
    intro j y hj
    simp only [Missions.set, List.getElem?_set] at hj
    split at hj
    · rename_i hjk
      split at hj
      · exact .inl ⟨hjk.symm, (Option.some.inj hj).symm⟩
      · cases hj
    · rename_i hjk
      exact .inr ⟨fun heq => hjk heq.symm, hj⟩
  -- the claim of mission `k` against that of another one
  have hnew : ∀ {j : Nat} {y : LockedMission} {R R' : MissionRuntimeRoster}, j ≠ k →
      s.rows[j]? = some y → x'.claim = some R → y.claim = some R' →
      R.folder_scope = .shared → R'.folder_scope = .shared → ¬SharesFolder R R' := by
    intro j y R R' hjk hj hx hy hR hR'
    rcases hclaim R hx with hold | hothers
    · exact h.apart k j x y R R' (fun heq => hjk heq.symm) hk hj hold hy hR hR'
    · exact hothers j y R' hjk hj hy hR hR'
  refine ⟨fun j y hj => ?_, fun i j y z R R' hij hi hj hy hz hR hR' => ?_⟩
  · rcases hget hj with ⟨_, rfl⟩ | ⟨_, hj⟩
    · exact hrow
    · exact h.row j y hj
  · rcases hget hi with ⟨rfl, rfl⟩ | ⟨hik, hi'⟩ <;> rcases hget hj with ⟨rfl, rfl⟩ | ⟨hjk, hj'⟩
    · exact absurd rfl hij
    · exact hnew hjk hj' hy hz hR hR'
    · exact fun hshares => hnew hik hi' hz hy hR' hR hshares.symm
    · exact h.apart i j y z R R' hij hi' hj' hy hz hR hR'

/-- A step that claims nothing new keeps the folders apart. -/
theorem FoldersInv.stays (h : s.FoldersInv) (hk : s.rows[k]? = some x)
    (hstays : LockedMission.Stays x x') : (s.set k x').FoldersInv :=
  h.set hstays.row hk fun R hR => .inl (hstays.claim R hR)

variable {v : StartView}

/-- Each other mission with a claim is in the full view. -/
theorem claim_mem {j : Nat} {y : LockedMission} {R : MissionRuntimeRoster}
    (hj : s.rows[j]? = some y) (hne : j ≠ k) (hclaim : y.claim = some R) :
    R ∈ (s.fullView k v).others := by
  have hmem : y ∈ s.rows.eraseIdx k := List.mem_eraseIdx_iff_getElem?.mpr ⟨j, hne, hj⟩
  unfold fullView
  dsimp only
  rw [List.mem_append]
  cases hpending : y.pending with
  | some R' =>
    rw [LockedMission.claim_of_pending hpending] at hclaim
    cases hclaim
    exact .inr (List.mem_filterMap.mpr ⟨y, hmem, hpending⟩)
  | none =>
    unfold LockedMission.claim at hclaim
    rw [hpending, Option.none_or] at hclaim
    split at hclaim
    · rename_i hactive
      exact .inl (List.mem_filterMap.mpr ⟨y, List.mem_filter.mpr ⟨hmem, hactive⟩, hclaim⟩)
    · cases hclaim

/-- A roster that passes the full check is apart from every claim. -/
theorem apart_of_check {R : MissionRuntimeRoster}
    (hfree : sharedFolderConflict R (s.fullView k v).others = false) (j : Nat)
    (y : LockedMission) (R' : MissionRuntimeRoster) (hne : j ≠ k) (hj : s.rows[j]? = some y)
    (hy : y.claim = some R') (hR : R.folder_scope = .shared) (hR' : R'.folder_scope = .shared) :
    ¬SharesFolder R R' :=
  not_sharesFolder hfree (claim_mem hj hne hy) hR hR'

theorem toBool_eq_true {ε α : Type*} {x : Except ε α} (h : x.toBool = true) : ∃ a, x = .ok a := by
  cases x with
  | ok a => exact ⟨a, rfl⟩
  | error e => cases h

/-- A start that overlooks none claims free folders. -/
theorem FoldersInv.start (h : s.FoldersInv) (hk : s.rows[k]? = some x)
    (hclear : s.overlooksNone (.start k v) = true) (hs : s.start k v x = some s') :
    s'.FoldersInv := by
  unfold Missions.start at hs
  split at hs
  · cases hs
  · split at hs
    · cases hs
      exact h
    · rename_i roster orchestrator hchecks
      cases hs
      have hrow := h.row k x hk
      unfold overlooksNone at hclear
      dsimp only at hclear
      rw [hk, Option.all_some, hchecks] at hclear
      obtain ⟨⟨roster', orchestrator'⟩, hfull⟩ := toBool_eq_true hclear
      simp only [Runner.startChecks, bind_eq_ok, require_eq_ok, decide_eq_true_eq,
        pure_eq_ok] at hchecks hfull
      obtain ⟨_, hdraft, _, _, R, hR, own, _, hpair⟩ := hchecks
      obtain ⟨rfl, rfl⟩ := Prod.mk.inj hpair
      obtain ⟨_, _, _, _, R', hR', _⟩ := hfull
      obtain ⟨hscope, hprojects, _, hothers⟩ := resolveRoster_others (fun _ => rfl) hR
      have hapart := hothers _ R' hR'
      have hclaim : ∀ R', ({ x with call := some (.starting R own v.room false) } :
          LockedMission).claim = some R' → R' = R := fun R' hR' => (Option.some.inj hR').symm
      refine h.set ⟨hrow.sane, fun R' hR' => ?_, hrow.room, hdraft, hprojects, by rintro ⟨⟩⟩
        hk fun R' hR' => ?_
      · rw [hclaim R' hR']
        exact hscope
      · rw [hclaim R' hR']
        exact .inr (apart_of_check (v := v) hapart)

/-- So does a reopening. -/
theorem FoldersInv.reopen {agent : Option OrchestrationCaller}
    (h : s.FoldersInv) (hk : s.rows[k]? = some x)
    (hclear : s.overlooksNone (.reopen k agent v) = true)
    (hs : s.reopen k agent v x = some s') : s'.FoldersInv := by
  have hrow := h.row k x hk
  unfold Missions.reopen at hs
  dsimp only at hs
  split at hs
  · cases hs
  · rename_i hfree
    simp only [LockedMission.free, Bool.not_eq_true', Bool.not_eq_false, Bool.and_eq_true,
      Option.isNone_iff_eq_none] at hfree
    split at hs
    · cases hs
      exact h
    · rename_i hmay
      have hended : x.mission.status.isTerminal = true := by
        cases agent with
        | none => exact require_eq_ok.mp hmay
        | some caller =>
          simp only [mayReopen, bind_eq_ok, require_eq_ok] at hmay
          exact hmay.choose_spec.2
      split at hs
      · rename_i hroom
        cases hs
        refine h.stays hk ?_
        rw [hfree.1]
        exact .idle (hrow.sane.congr rfl rfl) (fun hsome => by
          rw [← Bool.not_eq_true] at hsome
          exact absurd hroom hsome) rfl
      · rename_i hroom
        split at hs
        · cases hs
          exact h
        · rename_i roster hchecks
          cases hs
          have hprojects := (hrow.room (Bool.eq_false_iff.mpr hroom)).2
          unfold overlooksNone at hclear
          dsimp only at hclear
          rw [hk, Option.all_some, hchecks] at hclear
          obtain ⟨roster', hfull⟩ := toBool_eq_true hclear
          simp only [Runner.reopenChecks, bind_eq_ok, if_neg hprojects,
            pure_eq_ok] at hchecks hfull
          obtain ⟨_, _, R, hR, rfl⟩ := hchecks
          obtain ⟨_, _, R', hR', _⟩ := hfull
          obtain ⟨hscope, _, _, hothers⟩ :=
            resolveRoster_others (fun R => keepOrchestratorRuntime_scope R _) hR
          have hapart := hothers _ R' hR'
          have hclaim : ∀ R', ({ x with
              call := some (.reopening (some R) x.mission.runtime_roster false) } :
              LockedMission).claim = some R' → R' = R := fun R' hR' => (Option.some.inj hR').symm
          refine h.set ⟨hrow.sane, fun R' hR' => ?_, hrow.room, hended, rfl,
            by rintro ⟨⟩⟩ hk fun R' hR' => ?_
          · rw [hclaim R' hR']
            exact hscope
          · rw [hclaim R' hR']
            exact .inr (apart_of_check (v := v) hapart)

theorem FoldersInv.create {input : MissionInput} {r : Runner} (h : s.FoldersInv)
    (hr : createMission input = some r) :
    FoldersInv { s with rows := s.rows ++ [{ runner := r }] } := by
  obtain ⟨hdraft, hroom, _⟩ := Runner.createMission_ok hr
  have hnew : ∀ R, ({ runner := r } : LockedMission).claim ≠ some R := by
    intro R hR
    rw [LockedMission.claim_idle (x := { runner := r }) (LockedMission.not_active_of_draft hdraft)]
      at hR
    cases hR
  refine ⟨fun j y hj => ?_, fun i j y z R R' hij hi hj hy hz => ?_⟩
  · rcases getElem?_append_cases hj with hj | ⟨_, rfl⟩
    · exact h.row j y hj
    · refine ⟨Runner.sane_createMission hr, fun R hR => absurd hR (hnew R), fun hsome => ?_,
        trivial⟩
      change r.mission.room_id.all (· = "") = false at hsome
      rw [hroom] at hsome
      cases hsome
  · rcases getElem?_append_cases hi with hi' | ⟨_, rfl⟩
    · rcases getElem?_append_cases hj with hj' | ⟨_, rfl⟩
      · exact h.apart i j y z R R' hij hi' hj' hy hz
      · exact absurd hz (hnew R')
    · exact absurd hy (hnew R)

/-- Each step that overlooks none keeps the folders apart. -/
theorem FoldersInv.step {a : MissionsAction} (h : s.FoldersInv)
    (hclear : s.overlooksNone a = true) (hs : a.run s = some s') : s'.FoldersInv := by
  cases a with
  | create input =>
    obtain ⟨r, hr, rfl⟩ := Option.map_eq_some_iff.mp hs
    exact h.create hr
  | start k v =>
    obtain ⟨x, hk, hs⟩ := Option.bind_eq_some_iff.mp hs
    exact h.start hk hclear hs
  | reopen k agent v =>
    obtain ⟨x, hk, hs⟩ := Option.bind_eq_some_iff.mp hs
    exact h.reopen hk hclear hs
  | saveRoster k =>
    obtain ⟨x, hk, hs⟩ := Option.bind_eq_some_iff.mp hs
    obtain ⟨x', hx', rfl⟩ := Option.map_eq_some_iff.mp hs
    exact h.stays hk (LockedMission.saveRoster_stays (h.row k x hk) hx')
  | prepareFails k =>
    obtain ⟨x, hk, hs⟩ := Option.bind_eq_some_iff.mp hs
    obtain ⟨x', hx', rfl⟩ := Option.map_eq_some_iff.mp hs
    exact h.stays hk (LockedMission.prepareFails_stays (h.row k x hk) hx')
  | activate k now =>
    obtain ⟨x, hk, hs⟩ := Option.bind_eq_some_iff.mp hs
    obtain ⟨x', hx', rfl⟩ := Option.map_eq_some_iff.mp hs
    exact h.stays hk (LockedMission.activate_stays (h.row k x hk) hx')
  | briefFails k =>
    obtain ⟨x, hk, hs⟩ := Option.bind_eq_some_iff.mp hs
    obtain ⟨x', hx', rfl⟩ := Option.map_eq_some_iff.mp hs
    exact h.stays hk (LockedMission.briefFails_stays (h.row k x hk) hx')
  | returns k =>
    obtain ⟨x, hk, hs⟩ := Option.bind_eq_some_iff.mp hs
    obtain ⟨x', hx', rfl⟩ := Option.map_eq_some_iff.mp hs
    exact h.stays hk (LockedMission.returns_stays (h.row k x hk) hx')
  | call k now a =>
    obtain ⟨x, hk, hs⟩ := Option.bind_eq_some_iff.mp hs
    split at hs
    · rename_i hmay
      cases hs
      refine h.stays hk (LockedMission.call_stays (h.row k x hk) hmay ?_)
      rintro rfl
      unfold overlooksNone at hclear
      dsimp only at hclear
      rw [hk, Option.all_some, Bool.or_eq_true, decide_eq_true_eq,
        Option.isNone_iff_eq_none] at hclear
      exact hclear
    · cases hs

/-- No two active missions share a folder: in every run in which each check that passes holds
    against the missions under way, and no draft that kept a roster is paused. -/
theorem folders_exclusive
    (h : (missionsSystem.restrict fun s a _ => s.overlooksNone a = true).Reachable s) :
    s.Exclusive := by
  have hinv : s.FoldersInv := by
    refine h.invariant (fun s h0 => ?_) fun s a s' _ hi hs => hi.step hs.2 hs.1
    obtain rfl : s = {} := h0
    exact ⟨(fun k x hk => by cases hk), fun i j x y R R' _ hi => by cases hi⟩
  intro i j x y R R' hij hi hj hx hy hxscope hyscope hR hR'
  have hxrow := hinv.row i x hi
  have hyrow := hinv.row j y hj
  have hxclaim : x.claim = some R := (LockedMission.claim_of_active hxrow hx).trans hR
  have hyclaim : y.claim = some R' := (LockedMission.claim_of_active hyrow hy).trans hR'
  exact hinv.apart i j x y R R' hij hi hj hxclaim hyclaim
    ((hxrow.scope R hxclaim).trans hxscope) ((hyrow.scope R' hyclaim).trans hyscope)

end Steps

/-! ## Runs of two small missions -/

theorem exists_checked_missions (C : Missions → MissionsAction → Bool)
    (actions : List MissionsAction) (p : Missions → Bool)
    (h : (Transition.runChecked MissionsAction.run C {} actions).any p = true) :
    ∃ s, (missionsSystem.restrict fun s a _ => C s a = true).Reachable s ∧ p s = true :=
  Transition.exists_reachable_checked (M := missionsSystem) (fun _ _ _ hs => hs) rfl actions p h

/-- Whether missions 0 and 1 are active with the same shared folder. -/
def meet (s : Missions) : Bool :=
  (s.rows[0]?).any fun x => (s.rows[1]?).any fun y =>
    x.mission.isActive && y.mission.isActive && x.mission.folder_scope = .shared &&
      y.mission.folder_scope = .shared &&
      x.mission.runtime_roster.any fun R => y.mission.runtime_roster.any fun R' =>
        R.runtimes.any fun a => R'.runtimes.any fun b =>
          a.slot_id ≠ ORCHESTRATOR_SLOT_ID && b.slot_id ≠ ORCHESTRATOR_SLOT_ID &&
            a.spec.manager_agent_id = b.spec.manager_agent_id &&
            trimFolder a.spec.working_dir = trimFolder b.spec.working_dir

/-- A mission is started; while it is active another one in its folder is refused. -/
theorem folders_exclusive_small : ∃ s : Missions,
    ((s.rows.map (·.mission.status)) = [.planning, .draft]) ∧ s.Exclusive := by
  obtain ⟨s, hreach, hp⟩ := exists_checked_missions overlooksNone
    [.create smallMission, .create smallMission, .start 0 smallView, .saveRoster 0, .activate 0 1,
      .start 1 smallView, .returns 0]
    (fun s => s.rows.map (·.mission.status) = [.planning, .draft]) (by decide +kernel)
  exact ⟨s, of_decide_eq_true hp, folders_exclusive hreach⟩

/-- Two missions in one folder are started at a time: each looks while the other one's hosts are
    prepared. -/
theorem starts_overlap : ¬∀ s, missionsSystem.Reachable s → s.Exclusive := by
  intro hall
  obtain ⟨s, hreach, hp⟩ := exists_checked_missions (fun _ _ => true)
    [.create smallMission, .create smallMission, .start 0 smallView, .start 1 smallView,
      .saveRoster 0, .saveRoster 1, .activate 0 1, .activate 1 1]
    meet (by decide +kernel)
  simp only [meet, Option.any_eq_true, Bool.and_eq_true, List.any_eq_true, decide_eq_true_eq] at hp
  obtain ⟨x, hx, y, hy, ⟨⟨⟨hxa, hya⟩, hxs⟩, hys⟩, R, hR, R', hR', a, ha, b, hb, ⟨⟨hslot, hslot'⟩,
    hhost⟩, hfolder⟩ := hp
  exact hall s hreach.of_restrict 0 1 x y R R' Nat.zero_ne_one hx hy hxa hya hxs hys hR hR'
    ⟨a, ha, b, hb, hslot, hslot', hhost, hfolder⟩

end Missions

end WorkflowBoard.Orchestration
