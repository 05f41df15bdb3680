import WorkflowBoard.Spec.MissionCalls

/-!
# A mission works only after it was started

A mission that plans or runs has a conversation room, an orchestrator and, if it names
projects, a runtime roster: `startMission` writes them together, and what a reopened mission
lacks sends it back to the draft. The one way around is `pauseMission` on a draft: `resumeMission`
takes every paused mission for one that was started. Without it the fields are there in every
reachable state.
-/

namespace WorkflowBoard.Orchestration

/-- The room, the orchestrator and the roster of a mission that was started. -/
def Mission.Started (m : Mission) : Prop :=
  m.room_id.isSome = true ∧ m.orchestrator_agent_id.isSome = true ∧
    (m.projects ≠ [] → m.runtime_roster.isSome = true)

/-- Neither a draft nor ended. -/
def Mission.isActive (m : Mission) : Bool := m.status ∈ [.planning, .running, .paused]

theorem isActive_iff {m : Mission} :
    m.isActive = true ↔ m.status = .planning ∨ m.status = .running ∨ m.status = .paused := by
  simp [Mission.isActive]

/-- A mission that is neither a draft nor ended is active. -/
theorem active_of_open {m : Mission} (h : m.status ≠ .draft)
    (hopen : m.status.isTerminal = false) : m.isActive = true := by
  refine isActive_iff.mpr ?_
  cases hs : m.status with
  | draft => exact absurd hs h
  | planning => exact .inl rfl
  | running => exact .inr (.inl rfl)
  | paused => exact .inr (.inr rfl)
  | completed => rw [hs] at hopen; cases hopen
  | failed => rw [hs] at hopen; cases hopen
  | cancelled => rw [hs] at hopen; cases hopen

namespace Runner

/-- An active mission was started, and a room comes with an orchestrator. -/
structure StartedInv (m : Mission) : Prop where
  active : m.isActive = true → m.Started
  orchestrator : m.room_id.isSome = true → m.orchestrator_agent_id.isSome = true

/-- The guard of this module: a draft is not paused. -/
def pauseGuards : Guards := { pause := fun m => m.status ≠ .draft }

theorem StartedInv.life {r r' : Runner} (h : StartedInv r.mission)
    (hw : LifeWrite pauseGuards r r') : StartedInv r'.mission := by
  -- an ended mission is not active
  have hended : ∀ m : Mission, m.status.isTerminal = true → m.room_id = r.mission.room_id →
      m.orchestrator_agent_id = r.mission.orchestrator_agent_id → StartedInv m := by
    intro m hm hroom horch
    refine ⟨fun hactive => ?_, by rw [hroom, horch]; exact h.orchestrator⟩
    rcases isActive_iff.mp hactive with hs | hs | hs <;> rw [hs] at hm <;> cases hm
  cases hw.lifeCase with
  | same => exact h
  | @settings p criteria hbrief _ =>
    refine ⟨fun hactive => ?_, h.orchestrator⟩
    have hactive' : r.mission.isActive = true := hactive
    cases hbrief with
    | inl hdraft =>
      rcases isActive_iff.mp hactive' with hs | hs | hs <;> rw [hs] at hdraft <;> cases hdraft
    | inr hbrief =>
      have hprojects : p.projects = none := by
        cases hp : p.projects with
        | none => rfl
        | some ps => simp [MissionPatch.touchesBrief, hp] at hbrief
      obtain ⟨hroom, horch, hroster⟩ := h.active hactive'
      refine ⟨hroom, horch, fun hne => hroster ?_⟩
      simpa [patchedBy, hprojects] using hne
  | prepared roster hdraft =>
    refine ⟨fun hactive => ?_, h.orchestrator⟩
    have hactive' : r.mission.isActive = true := hactive
    rcases isActive_iff.mp hactive' with hs | hs | hs <;> rw [hs] at hdraft <;> cases hdraft
  | unbriefed =>
    exact ⟨fun hactive => absurd hactive Bool.false_ne_true,
      fun hroom => absurd hroom Bool.false_ne_true⟩
  | started => exact ⟨fun _ => ⟨rfl, rfl, fun _ => rfl⟩, fun _ => rfl⟩
  | paused hopen hguard =>
    exact ⟨fun _ => h.active (active_of_open hguard hopen), h.orchestrator⟩
  | resumed hpaused =>
    exact ⟨fun _ => h.active (isActive_iff.mpr (.inr (.inr hpaused))), h.orchestrator⟩
  | closed _ _ _ _ hstatus => exact hended _ hstatus rfl rfl
  | redrafted => exact ⟨fun hactive => absurd hactive Bool.false_ne_true, h.orchestrator⟩
  | @reopened roster _ _ _ hroom hroster =>
    have hsome : r.mission.room_id.isSome = true := by
      cases hr : r.mission.room_id with
      | none => rw [hr] at hroom; cases hroom
      | some room => rfl
    refine ⟨fun _ => ⟨hsome, h.orchestrator hsome, fun hne => ?_⟩, h.orchestrator⟩
    obtain ⟨x, hx⟩ := Option.isSome_iff_exists.mp (hroster hne)
    change (roster.or r.mission.runtime_roster).isSome = true
    rw [hx]
    rfl
  | completed _ _ _ _ _ hstatus =>
    rw [runPostActions_mission]
    exact hended _ hstatus rfl rfl
  | criteria => exact ⟨h.active, h.orchestrator⟩
  | postStep now fate =>
    obtain ⟨_, _, heq⟩ := postStep_mission (r := r) now fate
    rw [heq]
    exact ⟨h.active, h.orchestrator⟩
  | crash => exact h
  | recover =>
    rw [runPostActions_mission]
    exact h

/-- Every write keeps the fields of an active mission. -/
theorem StartedInv.write {r r' : Runner} (h : StartedInv r.mission)
    (hw : Write pauseGuards r r') : StartedInv r'.mission := by
  cases hw.kept_or_life with
  | inl hkept =>
    obtain ⟨_, _, _, _, _, status, heq, hstatus⟩ := hkept.mission
    rw [heq]
    refine ⟨fun hactive => h.active ?_, h.orchestrator⟩
    cases hstatus with
    | inl hsame => exact isActive_iff.mpr (hsame ▸ isActive_iff.mp hactive)
    | inr hplan => exact isActive_iff.mpr (.inl hplan.1)
  | inr hlife => exact h.life hlife

/-- In every run that pauses no draft, a mission that plans or runs has its room, its
    orchestrator and, if it names projects, its roster. -/
theorem started_of_reachable {r : Runner}
    (h : (missionSystem.restrict fun r call _ =>
      call.2 = .pauseMission → r.mission.status ≠ .draft).Reachable r)
    (hactive : r.mission.status = .planning ∨ r.mission.status = .running) :
    r.mission.Started := by
  refine (mission_invariant (P := fun r => StartedInv r.mission) pauseGuards ?_ ?_ ?_ h).2.active
    (isActive_iff.mpr (hactive.elim .inl fun h => .inr (.inl h)))
  · intro r now a r' hc
    cases a with
    | pauseMission => exact fun _ _ => hc rfl
    | _ => simp [Meets, pauseGuards]
  · intro input r hcreate
    obtain ⟨hdraft, hroom, _⟩ := createMission_ok hcreate
    refine ⟨fun hactive => ?_, fun hsome => by rw [hroom] at hsome; cases hsome⟩
    rcases isActive_iff.mp hactive with hs | hs | hs <;> rw [hs] at hdraft <;> cases hdraft
  · exact fun r r' _ hinv hw => hinv.write hw

/-- The small mission is started, and its fields are there. -/
theorem started_of_reachable_small : ∃ r : Runner,
    r.mission.status = .planning ∧ r.mission.projects ≠ [] ∧ r.mission.Started := by
  let check : Runner → Date × Action → Bool := fun _ call =>
    match call.2 with
    | .pauseMission => false
    | _ => true
  obtain ⟨r, hr, hp⟩ := exists_restricted_of_run
    (C := fun r call _ => call.2 = .pauseMission → r.mission.status ≠ .draft) check
    (fun r call r' hcheck hpause => by simp [check, hpause] at hcheck) smallMission
    [(0, .startMission smallView)]
    (fun r => r.mission.status = .planning && !r.mission.projects.isEmpty) (by decide +kernel)
  simp only [Bool.and_eq_true, decide_eq_true_eq, Bool.not_eq_true', List.isEmpty_eq_false_iff]
    at hp
  exact ⟨r, hp.1, hp.2, started_of_reachable hr (.inl hp.1)⟩

/-- A draft that is paused and resumed is in planning without a room. -/
theorem unstarted_planning : ∃ r, missionSystem.Reachable r ∧ r.mission.status = .planning ∧
    ¬ r.mission.Started := by
  obtain ⟨r, hr, hp⟩ := exists_reachable_of_run smallMission
    [(0, .pauseMission), (0, .resumeMission fun _ => .delivered)]
    (fun r => r.mission.status = .planning && r.mission.room_id.isNone) (by decide +kernel)
  simp only [Bool.and_eq_true, decide_eq_true_eq] at hp
  refine ⟨r, hr, hp.1, fun hstarted => ?_⟩
  have hroom := hstarted.1
  rw [Option.isNone_iff_eq_none.mp hp.2] at hroom
  cases hroom

end Runner

end WorkflowBoard.Orchestration
