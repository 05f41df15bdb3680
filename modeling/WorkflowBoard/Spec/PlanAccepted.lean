import WorkflowBoard.Spec.MissionRows
import WorkflowBoard.Spec.WhiteSpace

/-!
# An accepted submission

`acceptPlan` taken apart once: the validated plan has every stored key and every submitted
one, each once, in dependency order; the planned rows have the keys of the plan in that
order; and the saved mission keeps its rows and gets one for each new key.
-/

namespace WorkflowBoard.Orchestration

/-! ## Keys -/

theorem trimText_of_isStepKey {k : String} (h : isStepKey k = true) : trimText k = k ∧ k ≠ "" := by
  have hspace : ∀ c : Char, (isStepKey.alnum c = true ∨ c = '.' ∨ c = '_' ∨ c = '-') →
      isJsSpace c = false := by
    intro c hc
    apply not_isJsSpace
    rcases hc with hc | rfl | rfl | rfl
    · simp only [isStepKey.alnum, Bool.or_eq_true, Bool.and_eq_true, decide_eq_true_eq,
        Char.le_def, UInt32.le_iff_toNat_le] at hc
      have e1 : 'a'.val.toNat = 97 := rfl
      have e2 : 'z'.val.toNat = 122 := rfl
      have e3 : '0'.val.toNat = 48 := rfl
      have e4 : '9'.val.toNat = 57 := rfl
      omega
    all_goals decide
  have hall : ∀ c ∈ k.toList, isJsSpace c = false := by
    intro c hc
    unfold isStepKey at h
    split at h
    · cases h
    · rename_i c' cs hk
      simp only [Bool.and_eq_true, List.all_eq_true, Bool.or_eq_true, decide_eq_true_eq,
        List.mem_cons, List.not_mem_nil, or_false] at h
      rw [hk] at hc
      cases List.mem_cons.mp hc with
      | inl hc => exact hspace c (.inl (hc ▸ h.1.1))
      | inr hc => exact hspace c (h.2 c hc)
  have hkeep : ∀ l : List Char, (∀ c ∈ l, isJsSpace c = false) → l.dropWhile isJsSpace = l := by
    intro l hl
    cases l with
    | nil => rfl
    | cons c l => simp [hl c List.mem_cons_self]
  refine ⟨?_, ?_⟩
  · have hrev : ∀ c ∈ k.toList.reverse, isJsSpace c = false :=
      fun c hc => hall c (List.mem_reverse.mp hc)
    unfold trimText jsTrim
    rw [hkeep _ hall, hkeep _ hrev, List.reverse_reverse, String.ofList_toList]
  · rintro rfl
    revert h
    decide

/-! ## `validatePlan` -/

section Validate

variable {steps ordered : List PlanStepInput} {maxSteps : Nat}

theorem checkSteps_named {seen keys : List String} (h : checkSteps seen steps = .ok keys) :
    ∀ s ∈ steps, isStepKey s.key = true := by
  induction steps generalizing seen with
  | nil => intro s hs; cases hs
  | cons s steps ih =>
    simp only [checkSteps, bind_eq_ok] at h
    obtain ⟨_, hstep, hrest⟩ := h
    intro t ht
    cases List.mem_cons.mp ht with
    | inl ht =>
      simp only [checkStep, bind_eq_ok, require_eq_ok] at hstep
      exact ht ▸ hstep.choose_spec.1
    | inr ht => exact ih hrest t ht

/-- The returned steps are the given ones, each once, under distinct step keys. -/
theorem validatePlan_ok (h : validatePlan steps maxSteps = .ok ordered) :
    (∀ s ∈ steps, isStepKey s.key = true) ∧ (steps.map (·.key)).Nodup ∧
      (ordered.map (·.key)).Perm (steps.map (·.key)) ∧ ∀ s ∈ ordered, s ∈ steps := by
  have hvalid := validPlan_of_validatePlan h
  simp only [validatePlan, bind_eq_ok, require_eq_ok, decide_eq_true_eq,
    pure_eq_ok] at h
  obtain ⟨_, _, _, _, seen, hseen, _, _, _, hlen, rfl⟩ := h
  obtain ⟨hkeys, hnd⟩ := checkSteps_ok hseen List.nodup_nil
  rw [List.nil_append] at hkeys
  have hmem : ∀ s ∈ (Kahn.sort seen (depsOf steps)).filterMap (stepOf steps), s ∈ steps := by
    intro s hs
    obtain ⟨k, _, hk⟩ := List.mem_filterMap.mp hs
    exact List.mem_of_find?_eq_some hk
  refine ⟨checkSteps_named hseen, hkeys ▸ hnd, ?_, hmem⟩
  refine (List.subperm_of_subset hvalid.nodup ?_).perm_of_length_le ?_
  · intro k hk
    obtain ⟨s, hs, rfl⟩ := List.mem_map.mp hk
    exact List.mem_map.mpr ⟨s, hmem s hs, rfl⟩
  · rw [List.length_map, List.length_map]
    exact Nat.le_of_eq hlen.symm

end Validate

namespace Runner

/-! ## The validated plan -/

section Plan

variable {r : Runner} {input : PlanInput} {plan : List PlanStep}

theorem key_toPlan (s : Step) : s.toPlan.key = trimText s.step_key := rfl

/-- The plan is the merged list reordered; its steps are a valid plan. -/
theorem validated_ok (h : r.validated input = .ok plan) :
    ((r.merged input).map (·.key)).Nodup ∧
      (∀ s ∈ r.merged input, isStepKey s.key = true) ∧
      (plan.map (·.key)).Perm ((r.merged input).map (·.key)) ∧
      (∀ s ∈ plan, s ∈ r.merged input) ∧ ValidPlan (plan.map (·.toPlanStepInput)) := by
  unfold validated at h
  dsimp only at h
  split at h
  · cases h
  · rename_i ordered hvalid
    obtain rfl := Except.ok.inj h
    obtain ⟨hnamed, hnd, hperm, hsub⟩ := validatePlan_ok hvalid
    have hkeys : ((r.merged input).map (·.toPlanStepInput)).map (·.key) =
        (r.merged input).map (·.key) := by
      rw [List.map_map]
      rfl
    rw [hkeys] at hnd hperm
    -- every ordered step is the plan part of the merged step with its key
    have hback : ((ordered.filterMap fun s => (r.merged input).find? (·.key = s.key)).map
        (·.toPlanStepInput)) = ordered := by
      clear hperm hvalid h
      induction ordered with
      | nil => rfl
      | cons s ordered ih =>
        obtain ⟨q, hq, hqs⟩ := List.mem_map.mp (hsub s List.mem_cons_self)
        have hfind : (r.merged input).find? (·.key = s.key) = some q :=
          find?_key_eq_some hnd hq (by rw [← hqs]; rfl)
        simp only [List.filterMap_cons, hfind, List.map_cons, hqs]
        rw [ih fun t ht => hsub t (List.mem_cons_of_mem _ ht)]
    have hplan : (ordered.filterMap fun s => (r.merged input).find? (·.key = s.key)).map (·.key) =
        ordered.map (·.key) := by
      conv_rhs => rw [← hback]
      rw [List.map_map]
      rfl
    refine ⟨hnd, ?_, hplan ▸ hperm, ?_, ?_⟩
    · intro s hs
      exact hnamed _ (List.mem_map.mpr ⟨s, hs, rfl⟩)
    · intro s hs
      obtain ⟨_, _, hfind⟩ := List.mem_filterMap.mp hs
      exact List.mem_of_find?_eq_some hfind
    · rw [hback]
      exact validPlan_of_validatePlan hvalid

theorem mem_merged {s : PlanStep} : s ∈ r.merged input ↔
    (∃ t ∈ r.steps, isSubmitted input t.step_key = false ∧ t.toPlan = s) ∨ s ∈ input.steps := by
  simp only [merged, List.mem_append, List.mem_map, List.mem_filter, listSteps,
    List.mem_insertionSort, Bool.not_eq_true', and_assoc]

/-- A stored key is a key of the plan, submitted again or not. -/
theorem mem_plan_of_stored (h : r.validated input = .ok plan) {t : Step} (ht : t ∈ r.steps)
    (hnamed : isStepKey t.step_key = true) : t.step_key ∈ plan.map (·.key) := by
  obtain ⟨_, _, hperm, _, _⟩ := validated_ok h
  rw [hperm.mem_iff]
  cases hsub : isSubmitted input t.step_key with
  | true =>
    obtain ⟨s, hs, hkey⟩ := List.any_eq_true.mp hsub
    exact List.mem_map.mpr ⟨s, mem_merged.mpr (.inr hs), of_decide_eq_true hkey⟩
  | false =>
    refine List.mem_map.mpr ⟨t.toPlan, mem_merged.mpr (.inl ⟨t, ht, hsub, rfl⟩), ?_⟩
    rw [key_toPlan, (trimText_of_isStepKey hnamed).1]

theorem isStepKey_of_plan (h : r.validated input = .ok plan) {k : String}
    (hk : k ∈ plan.map (·.key)) : isStepKey k = true := by
  obtain ⟨_, hnamed, _, hsub, _⟩ := validated_ok h
  obtain ⟨s, hs, rfl⟩ := List.mem_map.mp hk
  exact hnamed s (hsub s hs)

theorem nodup_plan (h : r.validated input = .ok plan) : (plan.map (·.key)).Nodup := by
  obtain ⟨hnd, _, hperm, _, _⟩ := validated_ok h
  exact hperm.nodup_iff.mpr hnd

end Plan

/-! ## The planned rows -/

section Rows

variable {r : Runner} {input : PlanInput}

variable {a : PlanAssignment} {i : Nat} {s : PlanStep} {v : Nat} {planned : List Step}

theorem newStep_key : (newStep v s a i).step_key = s.key := by
  cases a <;> rfl

theorem newStep_eq :
    ∃ assignee_slot project_id assignee_agent_id, newStep v s a i =
      { step_key := s.key, title := trimText s.title
        instructions := trimText (s.instructions.getD "")
        acceptance_criteria := trimText (s.acceptance_criteria.getD "")
        depends_on := s.deps, position := i, plan_version := v
        retry_policy := if s.retry_policy = some .manual then .manual else .auto
        assignee_slot, project_id, assignee_agent_id } := by
  cases a with
  | keep => exact ⟨none, none, none, rfl⟩
  | assign a => exact ⟨some a.assignee_slot, some a.project_id, some a.assignee_agent_id, rfl⟩
  | project id => exact ⟨none, some id, none, rfl⟩

/-- A revised row keeps what has happened to the step. -/
theorem revisedStep_revises {m : Mission} {found step : Step}
    (h : revisedStep m v s a { found with position := i } = .ok step) :
    step.Revises found ∧ step.depends_on = s.deps ∧ step.position = i := by
  unfold revisedStep at h
  cases a with
  | keep =>
    cases h
    exact ⟨⟨_, _, _, _, _, _, _, _, _, rfl⟩, rfl, rfl⟩
  | assign a =>
    cases h
    exact ⟨⟨_, _, _, _, _, _, _, _, _, rfl⟩, rfl, rfl⟩
  | project id =>
    dsimp only at h
    split at h
    · simp only [bind_eq_ok, pure_eq_ok] at h
      obtain ⟨_, _, rfl⟩ := h
      exact ⟨⟨_, _, _, _, _, _, _, _, _, rfl⟩, rfl, rfl⟩
    · cases h
      exact ⟨⟨_, _, _, _, _, _, _, _, _, rfl⟩, rfl, rfl⟩

theorem revisedStep_key {m : Mission}
    {found step : Step} (h : revisedStep m v s a found = .ok step) :
    step.step_key = found.step_key := by
  unfold revisedStep at h
  cases a with
  | keep => cases h; rfl
  | assign a => cases h; rfl
  | project id =>
    dsimp only at h
    split at h
    · simp only [bind_eq_ok, pure_eq_ok] at h
      obtain ⟨_, _, rfl⟩ := h
      rfl
    · cases h
      rfl

/-- The row of one step of the plan: a new one, a revised one or the stored one, moved. -/
theorem plannedStep_cases {step : Step} (h : r.plannedStep input s i = .ok step) :
    (r.stepOf s.key = none ∧ ∃ a, r.planAssignment s = .ok a ∧
      step = newStep (r.mission.plan_version + 1) s a i) ∨
    (∃ found, r.stepOf s.key = some found ∧ isSubmitted input s.key = true ∧
      found.isUntouchable = false ∧ ∃ a, r.planAssignment s = .ok a ∧
      revisedStep r.mission (r.mission.plan_version + 1) s a { found with position := i } =
        .ok step) ∨
    (∃ found, r.stepOf s.key = some found ∧
      (isSubmitted input s.key = false ∨ found.isUntouchable = true) ∧
      step = { found with position := i }) := by
  unfold plannedStep at h
  dsimp only at h
  split at h
  · rename_i hnone
    simp only [bind_eq_ok, pure_eq_ok] at h
    obtain ⟨a, ha, rfl⟩ := h
    exact .inl ⟨hnone, a, ha, rfl⟩
  · rename_i found hfound
    split at h
    · rename_i hsub
      simp only [bind_eq_ok] at h
      obtain ⟨a, ha, hrev⟩ := h
      exact .inr (.inl ⟨found, hfound, hsub.1, by simpa using hsub.2, a, ha, hrev⟩)
    · rename_i hsub
      cases h
      refine .inr (.inr ⟨found, hfound, ?_, rfl⟩)
      by_cases hs : isSubmitted input s.key = true
      · exact .inr (by simpa [hs] using hsub)
      · exact .inl (by simpa using hs)

theorem plannedStep_key {step : Step}
    (h : r.plannedStep input s i = .ok step) : step.step_key = s.key := by
  rcases plannedStep_cases h with ⟨_, _, _, rfl⟩ | ⟨found, hfound, _, _, _, _, hrev⟩ |
    ⟨found, hfound, _, rfl⟩
  · exact newStep_key
  · rw [revisedStep_key hrev]
    exact (stepOf_some hfound).2
  · exact (stepOf_some hfound).2

/-- Each planned row comes from the step of the plan at its index. -/
theorem plannedSteps_ok {plan : List PlanStep} (h : r.plannedSteps input i plan = .ok planned) :
    planned.map (·.step_key) = plan.map (·.key) ∧
      ∀ step ∈ planned, ∃ j s, plan[j]? = some s ∧ r.plannedStep input s (i + j) = .ok step := by
  induction plan generalizing i planned with
  | nil =>
    cases h
    exact ⟨rfl, fun step hstep => by cases hstep⟩
  | cons s plan ih =>
    simp only [plannedSteps, bind_eq_ok, pure_eq_ok] at h
    obtain ⟨step, hstep, steps, hsteps, rfl⟩ := h
    obtain ⟨hkeys, hall⟩ := ih hsteps
    refine ⟨?_, ?_⟩
    · rw [List.map_cons, List.map_cons, plannedStep_key hstep, hkeys]
    · intro t ht
      cases List.mem_cons.mp ht with
      | inl ht => exact ⟨0, s, rfl, ht ▸ hstep⟩
      | inr ht =>
        obtain ⟨j, u, hu, hpl⟩ := hall t ht
        rw [Nat.add_assoc, Nat.add_comm 1 j] at hpl
        exact ⟨j + 1, u, hu, hpl⟩

/-- A row after the plan is saved: a planned one, under a stored key or a new one, or a
    stored one the plan does not have. -/
theorem mem_savePlan {t : Step} (h : t ∈ (r.savePlan planned).steps) :
    t ∈ planned ∨ (t ∈ r.steps ∧ t.step_key ∉ planned.map (·.step_key)) := by
  unfold savePlan at h
  dsimp only at h
  rw [List.mem_append] at h
  cases h with
  | inl h =>
    obtain ⟨u, hu, rfl⟩ := List.mem_map.mp h
    cases hfind : planned.find? (·.step_key = u.step_key) with
    | none =>
      refine .inr ⟨hu, fun hmem => ?_⟩
      obtain ⟨v, hv, hkey⟩ := List.mem_map.mp hmem
      have hnone := List.find?_eq_none.mp hfind v hv
      rw [Option.getD_none] at hkey
      simp [hkey] at hnone
    | some v => exact .inl (List.mem_of_find?_eq_some hfind)
  | inr h => exact .inl (List.mem_of_mem_filter h)

/-- The stored keys stay, in front of the new ones. -/
theorem keys_savePlan : (r.savePlan planned).keys = r.keys ++ r.addedKeys planned := by
  unfold keys savePlan addedKeys
  dsimp only
  rw [List.map_append, List.map_map]
  congr 1
  refine List.map_congr_left fun u _ => ?_
  simp only [Function.comp]
  cases hfind : planned.find? (·.step_key = u.step_key) with
  | none => rfl
  | some v => simpa using List.find?_some hfind

end Rows

/-! ## `acceptPlan` -/

/-- The parts of an accepted submission. -/
structure Accepted (r : Runner) (input : PlanInput) (r' : Runner) where
  plan : List PlanStep
  graph : Option GraphSpec
  replaced : Bool
  planned : List Step
  open_ : r.mission.status = .planning ∨ r.mission.status = .running
  versions : r.mission.plan_version < r.mission.max_plan_versions
  validated : r.validated input = .ok plan
  planGraph : r.planGraph input plan = .ok (graph, replaced)
  rows : r.plannedSteps input 0 plan = .ok planned
  steps : r'.steps = (r.savePlan planned).steps
  mission : r'.mission = { r.mission with
    plan_version := r.mission.plan_version + 1
    plan_summary := sliceText SUMMARY_MAX input.summary
    graph_revision := if replaced then 0 else r.mission.graph_revision
    graph_spec := graph
    status := if r.mission.status = .planning then .running else r.mission.status }
  tokens : r'.tokens = r.tokens
  post : r'.post = r.post
  runs : r'.runs = r.runs
  log : r'.log = r.log ++
    ((r.addedKeys planned).map .added ++ (r.declaredManual input).map .declared)

variable {caller : OrchestrationCaller}

theorem acceptPlan_ok {r r' : Runner} {input : PlanInput}
    (h : r.acceptPlan caller input = .ok r') : Nonempty (Accepted r input r') := by
  simp only [acceptPlan, bind_eq_ok, require_eq_ok, pure_eq_ok, Bool.or_eq_true,
    decide_eq_true_eq] at h
  obtain ⟨_, _, _, hopen, _, hversions, plan, hplan, ⟨graph, replaced⟩, hgraph, _, _, planned,
    hrows, rfl⟩ := h
  exact ⟨⟨plan, graph, replaced, planned, hopen, hversions, hplan, hgraph, hrows, rfl, rfl, rfl,
    rfl, rfl, rfl⟩⟩

section Accept

variable {r r' : Runner} {input : PlanInput}

section

variable (h : Accepted r input r')
include h

theorem Accepted.planned_keys :
    h.planned.map (·.step_key) = h.plan.map (·.key) :=
  (plannedSteps_ok h.rows).1

/-- The keys of the rows behind an accepted plan. -/
theorem Accepted.keys : r'.keys = r.keys ++ r.addedKeys h.planned := by
  rw [← keys_savePlan]
  exact congrArg (List.map (·.step_key)) h.steps

/-- The new keys are keys of the plan that no row had. -/
theorem Accepted.mem_added {k : String} :
    k ∈ r.addedKeys h.planned ↔ k ∈ h.plan.map (·.key) ∧ k ∉ r.keys := by
  rw [← h.planned_keys]
  unfold addedKeys
  constructor
  · intro hk
    obtain ⟨s, hs, rfl⟩ := List.mem_map.mp hk
    obtain ⟨hs, hnone⟩ := List.mem_filter.mp hs
    refine ⟨List.mem_map.mpr ⟨s, hs, rfl⟩, fun hmem => ?_⟩
    have hsome := stepOf_isSome.mpr hmem
    rw [Option.isNone_iff_eq_none.mp hnone] at hsome
    cases hsome
  · rintro ⟨hk, hnew⟩
    obtain ⟨s, hs, rfl⟩ := List.mem_map.mp hk
    refine List.mem_map.mpr ⟨s, List.mem_filter.mpr ⟨hs, ?_⟩, rfl⟩
    cases hstep : r.stepOf s.step_key with
    | none => rfl
    | some t => exact absurd (stepOf_isSome.mp (by rw [hstep]; rfl)) hnew

theorem Accepted.distinct (hd : r.Distinct) : r'.Distinct := by
  unfold Distinct
  rw [h.keys]
  refine List.nodup_append.mpr ⟨hd, ?_, ?_⟩
  · have hnd : (h.planned.map (·.step_key)).Nodup := by
      rw [h.planned_keys]
      exact nodup_plan h.validated
    exact hnd.sublist (List.Sublist.map _ List.filter_sublist)
  · intro a ha b hb hab
    exact (h.mem_added.mp hb).2 (hab ▸ ha)

theorem Accepted.mem_keys (hnamed : ∀ k ∈ r.keys, isStepKey k = true)
    {k : String} : k ∈ r'.keys ↔ k ∈ h.plan.map (·.key) := by
  rw [h.keys, List.mem_append, h.mem_added]
  constructor
  · rintro (hk | hk)
    · obtain ⟨t, ht, rfl⟩ := List.mem_map.mp hk
      exact mem_plan_of_stored h.validated ht (hnamed _ hk)
    · exact hk.1
  · intro hk
    by_cases hold : k ∈ r.keys
    · exact .inl hold
    · exact .inr ⟨hk, hold⟩

theorem Accepted.planned_of_mem
    (hnamed : ∀ k ∈ r.keys, isStepKey k = true) {t : Step} (ht : t ∈ r'.steps) :
    t ∈ h.planned := by
  rw [h.steps] at ht
  cases mem_savePlan ht with
  | inl ht => exact ht
  | inr ht =>
    refine absurd ?_ ht.2
    rw [h.planned_keys]
    exact mem_plan_of_stored h.validated ht.1 (hnamed _ (Runner.mem_keys ht.1))

/-- Where a row comes from: it is new, it was submitted again before it started, or it is the
    stored one, moved. -/
theorem Accepted.row (hnamed : ∀ k ∈ r.keys, isStepKey k = true) {t : Step} (ht : t ∈ r'.steps) :
    (∃ s a i, s ∈ h.plan ∧ r.stepOf s.key = none ∧
      t = newStep (r.mission.plan_version + 1) s a i) ∨
    (∃ found ∈ r.steps, isSubmitted input t.step_key = true ∧ found.isUntouchable = false ∧
      t.Revises found) ∨
    (∃ found ∈ r.steps, (isSubmitted input t.step_key = false ∨ found.isUntouchable = true) ∧
      ∃ i, t = { found with position := i }) := by
  obtain ⟨i, s, hs, hrow⟩ := (plannedSteps_ok h.rows).2 t (h.planned_of_mem hnamed ht)
  have hkey := plannedStep_key hrow
  rcases plannedStep_cases hrow with ⟨hnone, a, _, heq⟩ | ⟨found, hfound, hsub, huntouched, a, _,
    hrev⟩ | ⟨found, hfound, hkeep, heq⟩
  · exact .inl ⟨s, a, _, List.mem_of_getElem? hs, hnone, heq⟩
  · exact .inr (.inl ⟨found, (stepOf_some hfound).1, hkey ▸ hsub, huntouched,
      (revisedStep_revises hrev).1⟩)
  · exact .inr (.inr ⟨found, (stepOf_some hfound).1, hkey ▸ hkeep, _, heq⟩)

/-- The graph is the stored one, or it has a node for each step of the plan. -/
theorem Accepted.covers :
    (h.graph = r.mission.graph_spec ∧ h.replaced = false) ∨
      ∃ spec, h.graph = some spec ∧ Covers spec (h.plan.map (·.key)) := by
  have hgraph := h.planGraph
  have htrim : Trimmed (h.plan.map (·.key)) := fun k hk =>
    trimText_of_isStepKey (isStepKey_of_plan h.validated hk)
  have hwave : (h.plan.map fun s => (⟨s.key, s.depends_on.getD []⟩ : WaveStepInput)).map
      (·.step_key) = h.plan.map (·.key) := by
    rw [List.map_map]
    rfl
  simp only [Runner.planGraph, bind_eq_ok, require_eq_ok] at hgraph
  obtain ⟨_, _, _, _, _, _, hgraph⟩ := hgraph
  split at hgraph
  · obtain ⟨heq, hrep⟩ := Prod.mk.inj (Except.ok.inj hgraph)
    exact .inl ⟨heq.symm, hrep.symm⟩
  · split at hgraph
    · split at hgraph
      · cases hgraph
      · rename_i hspec
        exact .inr ⟨_, (Prod.mk.inj (Except.ok.inj hgraph)).1.symm, nodes_expandGraphTemplate hspec⟩
    · split at hgraph
      · cases hgraph
      · rename_i hspec
        exact .inr ⟨_, (Prod.mk.inj (Except.ok.inj hgraph)).1.symm, nodes_validateGraphSpec hspec⟩
    · split at hgraph
      · cases hgraph
      · rename_i hspec
        exact .inr ⟨_, (Prod.mk.inj (Except.ok.inj hgraph)).1.symm,
          nodes_carryGraphThroughReplan htrim (nodup_plan h.validated) hspec⟩
    · split at hgraph
      · cases hgraph
      · rename_i hspec
        refine .inr ⟨_, (Prod.mk.inj (Except.ok.inj hgraph)).1.symm, ?_⟩
        rw [← hwave]
        exact nodes_graphFromWavePlan (hwave ▸ htrim) hspec

theorem Accepted.sane (hs : r.Sane) : r'.Sane := by
  have hgraph : r'.mission.graph_spec = h.graph := by rw [h.mission]
  refine ⟨h.distinct hs.distinct, ?_, ?_, ?_, ?_⟩
  · intro k hk
    exact isStepKey_of_plan h.validated ((h.mem_keys hs.named).mp hk)
  · intro spec hspec
    cases h.covers with
    | inl hsame => exact hs.nodes spec (hsame.1 ▸ hgraph ▸ hspec)
    | inr hnew =>
      obtain ⟨spec', hspec', hcov⟩ := hnew
      cases hspec'.symm.trans (hgraph.symm.trans hspec)
      exact hcov.1
  · intro spec hspec k hk
    cases h.covers with
    | inl hsame =>
      rw [h.keys]
      exact List.mem_append_left _ (hs.rows spec (hsame.1 ▸ hgraph ▸ hspec) k hk)
    | inr hnew =>
      obtain ⟨spec', hspec', hcov⟩ := hnew
      cases hspec'.symm.trans (hgraph.symm.trans hspec)
      exact (h.mem_keys hs.named).mpr ((hcov.2 k).mp hk)
  · intro spec hspec t ht hflight
    cases h.covers with
    | inl hsame =>
      -- a step in flight keeps its row
      rcases h.row hs.named ht with ⟨s, a, i, _, _, heq⟩ | ⟨found, _, _, huntouched, hrev⟩ |
        ⟨found, hfound, _, i, rfl⟩
      · obtain ⟨_, _, _, hfresh⟩ := newStep_eq (v := r.mission.plan_version + 1) (s := s) (a := a)
          (i := i)
        rw [heq, hfresh] at hflight
        cases hflight
      · obtain ⟨_, _, _, _, _, _, _, _, _, rfl⟩ := hrev
        simp only [Step.isUntouchable, Bool.or_eq_false_iff] at huntouched
        exact absurd hflight (by simp [huntouched.1])
      · exact hs.onGraph spec (hsame.1 ▸ hgraph ▸ hspec) found hfound hflight
    | inr hnew =>
      obtain ⟨spec', hspec', hcov⟩ := hnew
      cases hspec'.symm.trans (hgraph.symm.trans hspec)
      exact (hcov.2 _).mpr ((h.mem_keys hs.named).mp (Runner.mem_keys ht))

end

end Accept

/-! ## `acceptPatch` -/

theorem acceptPatch_ok {r r' : Runner} {patch : GraphPatchInput}
    (h : r.acceptPatch caller patch = .ok r') :
    (r.mission.status = .planning ∨ r.mission.status = .running) ∧
      ∃ next : GraphSpec, (nodeKeysOf next.nodes).Nodup ∧
        (∀ k, k ∈ nodeKeysOf next.nodes ↔ k ∈ r.keys) ∧
        r.mission.total_visits ≤ next.max_total_visits ∧
        r' = r.saveMission { r.mission with
          graph_spec := some next, graph_revision := r.mission.graph_revision + 1 } := by
  simp only [acceptPatch, bind_eq_ok, require_eq_ok, orThrow_eq_ok, Bool.or_eq_true,
    decide_eq_true_eq] at h
  obtain ⟨_, _, _, hopen, _, _, spec, _, _, _, h⟩ := h
  refine ⟨hopen, ?_⟩
  split at h
  · cases h
  · rename_i next changes hpatch
    cases h
    obtain ⟨hcov, hvisits⟩ := applyGraphPatch_ok hpatch
    refine ⟨next, hcov.1, fun k => ?_, hvisits, rfl⟩
    rw [hcov.2, keys, listSteps]
    exact ((List.perm_insertionSort _ r.steps).map _).mem_iff

end Runner

end WorkflowBoard.Orchestration
