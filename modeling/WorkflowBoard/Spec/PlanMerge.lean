import WorkflowBoard.ForStd.Acyclic
import WorkflowBoard.Spec.MissionCalls

/-!
# What an accepted plan leaves stored

`submitPlan` validates and orders the submitted steps together with the stored ones, and then
keeps the rows of the steps that have started. A step that is submitted again after it started
is validated with the dependencies of the submission and stored with its old ones, so the
order of the positions says nothing about these. The rest holds always: no row is lost, every
dependency is a step, and a started step keeps its texts, dependencies and assignment.
-/

namespace WorkflowBoard.Orchestration

/-- What a plan says about a step. -/
structure StepText where
  step_key : String
  title : String
  instructions : String
  acceptance_criteria : String
  depends_on : List String
  assignee_slot : Option String
  project_id : Option String
  assignee_agent_id : Option String

def Step.text (s : Step) : StepText :=
  ⟨s.step_key, s.title, s.instructions, s.acceptance_criteria, s.depends_on, s.assignee_slot,
    s.project_id, s.assignee_agent_id⟩

/-- The text of the step and its place in the plan. -/
def Step.place (s : Step) : StepText × Nat := (s.text, s.position)

/-- The key and the dependencies. -/
def Step.edges (s : Step) : String × List String := (s.step_key, s.depends_on)

namespace Runner

variable {r r' : Runner}

/-! ## Who writes texts and dependencies -/

theorem PumpWrite.places (h : PumpWrite r r') (hs : r.Sane) :
    r'.steps.map Step.place = r.steps.map Step.place := by
  cases h with
  | openGate now _ hmem _ _ _ => exact hs.distinct.map_saveStep hmem (by rfl) (by rfl)
  | dispatch now _ hmem => exact hs.distinct.map_saveStep hmem (by rfl) (by rfl)
  | markReady _ hmem _ => exact hs.distinct.map_saveStep hmem (by rfl) (by rfl)
  | failDispatch error now _ hmem _ => exact hs.distinct.map_saveStep hmem (by rfl) (by rfl)

theorem PumpWrites.places (h : PumpWrites r r') (hs : r.Sane) :
    r'.steps.map Step.place = r.steps.map Step.place := by
  induction h with
  | refl => rfl
  | tail hwrites hwrite ih =>
    exact (PumpWrite.places hwrite (PumpWrites.sane hwrites hs)).trans ih

theorem edges_of_places (h : r'.steps.map Step.place = r.steps.map Step.place) :
    r'.steps.map Step.edges = r.steps.map Step.edges := by
  have hmap : ∀ l : List Step, l.map Step.edges =
      (l.map Step.place).map fun p => (p.1.step_key, p.1.depends_on) := by
    intro l
    rw [List.map_map]
    rfl
  rw [hmap, hmap, h]

/-- An amended row keeps its key, its dependencies and its place. -/
theorem edges_amended (s : Step) (input : StepUpdate) (a : PlanAssignment) :
    (reassigned (reworded s input) a).edges = s.edges := by
  cases a <;> rfl

/-- Only a plan touches keys and dependencies. -/
theorem Write.edges {G : Guards} (h : Write G r r') (hs : r.Sane) :
    r'.steps.map Step.edges = r.steps.map Step.edges ∨
      ∃ caller input, r.acceptPlan caller input = .ok r' := by
  have hd := hs.distinct
  cases h with
  | pump hpump => exact .inl (edges_of_places (PumpWrite.places hpump hs))
  | block now _ => exact .inl (map_saveSteps fun _ => rfl)
  | unblock _ => exact .inl (map_saveSteps fun _ => rfl)
  | reenter _ _ _ _ => exact .inl (map_saveSteps fun _ => rfl)
  | noteLease since _ hmem _ => exact .inl (hd.map_saveStep hmem (by rfl) (by rfl))
  | redispatch now _ hmem => exact .inl (hd.map_saveStep hmem (by rfl) (by rfl))
  | expire reason budgetLeft now _ hmem _ => exact .inl (hd.map_saveStep hmem (by rfl) (by rfl))
  | failExternally reason now _ hmem _ => exact .inl (hd.map_saveStep hmem (by rfl) (by rfl))
  | progress checkpoint now hmem _ _ => exact .inl (hd.map_saveStep hmem (by rfl) (by rfl))
  | report now _ hmem _ _ _ => exact .inl (hd.map_saveStep hmem (by rfl) (by rfl))
  | decide verdict now _ hmem => exact .inl (hd.map_saveStep hmem (by rfl) (by rfl))
  | budget _ hmem _ _ _ => exact .inl (hd.map_saveStep hmem (by rfl) (by rfl))
  | skip status now _ hmem _ _ _ => exact .inl (hd.map_saveStep hmem (by rfl) (by rfl))
  | @amend step input a _ hmem _ =>
    have hedges := edges_amended step input a
    exact .inl (hd.map_saveStep hmem (congrArg Prod.fst hedges) hedges)
  | reassign a _ hmem _ _ => exact .inl (hd.map_saveStep hmem (by rfl) (by rfl))
  | @retry step input a _ hmem _ _ _ =>
    have hedges := edges_amended step input a
    exact .inl (hd.map_saveStep hmem (congrArg Prod.fst hedges) hedges)
  | plan hplan _ => exact .inr ⟨_, _, hplan⟩
  | patch hpatch _ =>
    obtain ⟨_, _, _, _, _, rfl⟩ := acceptPatch_ok hpatch
    exact .inl rfl
  | life hlife =>
    rcases hlife.frame with hframe | ⟨all, now, hframe⟩
    · rw [hframe.steps]
      exact .inl rfl
    · rw [hframe.steps]
      exact .inl (map_saveSteps fun _ => rfl)

/-! ## Stored dependencies -/

/-- Each row names its dependencies once, and they are steps. -/
def DepsInv (r : Runner) : Prop :=
  ∀ t ∈ r.steps, t.depends_on.Nodup ∧ ∀ d ∈ t.depends_on, d ∈ r.keys

theorem DepsInv.of_edges (h : DepsInv r)
    (hedges : r'.steps.map Step.edges = r.steps.map Step.edges) : DepsInv r' := by
  have hkeys : r'.keys = r.keys := by
    have hmap : ∀ l : List Step, l.map (·.step_key) = (l.map Step.edges).map Prod.fst := by
      intro l
      rw [List.map_map]
      rfl
    unfold keys
    rw [hmap, hmap, hedges]
  intro t ht
  have hmem : t.edges ∈ r.steps.map Step.edges := hedges ▸ List.mem_map.mpr ⟨t, ht, rfl⟩
  obtain ⟨u, hu, heq⟩ := List.mem_map.mp hmem
  have hdeps : u.depends_on = t.depends_on := congrArg Prod.snd heq
  rw [hkeys, ← hdeps]
  exact h u hu

/-- The stored dependencies of a step are what its plan text says. -/
theorem DepsInv.deps_toPlan (h : DepsInv r) (hnamed : ∀ k ∈ r.keys, isStepKey k = true) {t : Step}
    (ht : t ∈ r.steps) : t.toPlan.deps = t.depends_on := by
  obtain ⟨hnodup, hkeys⟩ := h t ht
  have htrim : Trimmed t.depends_on := fun d hd => trimText_of_isStepKey (hnamed d (hkeys d hd))
  exact carry_eq htrim hnodup

section Accept

variable {input : PlanInput}

section

variable (h : Accepted r input r')
include h

/-- The dependencies of a step of the plan are steps before it. -/
theorem Accepted.deps_before {i : Nat} {s : PlanStep}
    (hs : h.plan[i]? = some s) {d : String} (hd : d ∈ s.deps) :
    ∃ j < i, ∃ u, h.plan[j]? = some u ∧ u.key = d := by
  obtain ⟨_, _, _, _, hvalid⟩ := validated_ok h.validated
  obtain ⟨hi, hget⟩ := List.getElem?_eq_some_iff.mp hs
  have hsplit : h.plan.map (·.toPlanStepInput) =
      (h.plan.take i).map (·.toPlanStepInput) ++ s.toPlanStepInput ::
        (h.plan.drop (i + 1)).map (·.toPlanStepInput) := by
    rw [← List.map_cons, ← List.map_append, ← hget, List.cons_getElem_drop_succ,
      List.take_append_drop]
  have hmem := hvalid.closed _ _ _ hsplit d hd
  rw [List.map_map] at hmem
  obtain ⟨u, hu, hkey⟩ := List.mem_map.mp hmem
  obtain ⟨j, hj, hget⟩ := List.mem_take_iff_getElem.mp hu
  refine ⟨j, by omega, u, ?_, hkey⟩
  rw [List.getElem?_eq_getElem (by omega), hget]

/-- Each row stands at its step of the validated plan, with the dependencies of that step,
    unless the step was submitted again after it started. -/
theorem Accepted.placed (hs : r.Sane) (hdeps : DepsInv r) {t : Step}
    (ht : t ∈ r'.steps) : ∃ s, h.plan[t.position]? = some s ∧ s.key = t.step_key ∧
      (t.depends_on = s.deps ∨ ∃ found ∈ r.steps, found.step_key = t.step_key ∧
        isSubmitted input t.step_key = true ∧ found.isUntouchable = true ∧
        t.depends_on = found.depends_on) := by
  obtain ⟨j, s, hget, hrow⟩ := (plannedSteps_ok h.rows).2 t (h.planned_of_mem hs.named ht)
  rw [Nat.zero_add] at hrow
  have hkey := plannedStep_key hrow
  rcases plannedStep_cases hrow with ⟨_, a, _, heq⟩ | ⟨found, _, _, _, a, _, hrev⟩ |
    ⟨found, hfound, hkeep, rfl⟩
  · obtain ⟨_, _, _, hnew⟩ :=
      newStep_eq (v := r.mission.plan_version + 1) (s := s) (a := a) (i := j)
    have hpos : t.position = j := by rw [heq, hnew]
    refine ⟨s, by rw [hpos]; exact hget, hkey.symm, .inl (by rw [heq, hnew])⟩
  · obtain ⟨_, hsame, hpos⟩ := revisedStep_revises hrev
    exact ⟨s, by rw [hpos]; exact hget, hkey.symm, .inl hsame⟩
  · obtain ⟨hmem, hfkey⟩ := stepOf_some hfound
    refine ⟨s, hget, hfkey.symm, ?_⟩
    change (found.depends_on = s.deps ∨ ∃ x ∈ r.steps, x.step_key = found.step_key ∧
      isSubmitted input found.step_key = true ∧ x.isUntouchable = true ∧
      found.depends_on = x.depends_on)
    cases hsub : isSubmitted input found.step_key with
    | true =>
      refine .inr ⟨found, hmem, rfl, rfl, ?_, rfl⟩
      cases hkeep with
      | inl hnot => rw [← hfkey, hsub] at hnot; cases hnot
      | inr huntouched => exact huntouched
    | false =>
      -- the step of the plan is the stored step itself
      obtain ⟨_, _, _, hmerged, _⟩ := validated_ok h.validated
      rcases mem_merged.mp (hmerged s (List.mem_of_getElem? hget)) with ⟨u, hu, _, rfl⟩ | hin
      · have hukey : u.step_key = found.step_key := by
          rw [hfkey, key_toPlan, (trimText_of_isStepKey (hs.named _ (Runner.mem_keys hu))).1]
        obtain rfl := hs.distinct.eq hu hmem hukey
        exact .inl (hdeps.deps_toPlan hs.named hu).symm
      · have hyes : isSubmitted input found.step_key = true :=
          List.any_eq_true.mpr ⟨s, hin, decide_eq_true hfkey.symm⟩
        rw [hsub] at hyes
        cases hyes

theorem Accepted.depsInv (hs : r.Sane) (hdeps : DepsInv r) :
    DepsInv r' := by
  intro t ht
  obtain ⟨s, hget, _, hcase⟩ := h.placed hs hdeps ht
  rcases hcase with heq | ⟨found, hfound, _, _, _, heq⟩
  · rw [heq]
    refine ⟨nodup_deps _, fun d hd => ?_⟩
    obtain ⟨j, _, u, hu, hkey⟩ := h.deps_before hget hd
    rw [h.mem_keys hs.named]
    exact List.mem_map.mpr ⟨u, List.mem_of_getElem? hu, hkey⟩
  · rw [heq]
    refine ⟨(hdeps found hfound).1, fun d hd => ?_⟩
    rw [h.keys]
    exact List.mem_append_left _ ((hdeps found hfound).2 d hd)

theorem Accepted.idxOf {i : Nat} {s : PlanStep}
    (hs : h.plan[i]? = some s) : (h.plan.map (·.key)).idxOf s.key = i := by
  obtain ⟨hi, rfl⟩ := List.getElem?_eq_some_iff.mp hs
  have hlt : i < (h.plan.map (·.key)).length := by rwa [List.length_map]
  have hidx := (nodup_plan h.validated).idxOf_getElem i hlt
  rwa [List.getElem_map] at hidx

/-- The position of a row is the place of its key in the plan. -/
theorem Accepted.position (hs : r.Sane) (hdeps : DepsInv r) {t : Step}
    (ht : t ∈ r'.steps) : (h.plan.map (·.key)).idxOf t.step_key = t.position := by
  obtain ⟨s, hget, hkey, _⟩ := h.placed hs hdeps ht
  rw [← hkey]
  exact h.idxOf hget

end

end Accept

theorem depsInv_reachable (h : missionSystem.Reachable r) : DepsInv r := by
  refine (reachable_invariant (P := DepsInv) ?_ ?_ h).2
  · intro input r hcreate
    obtain ⟨_, _, _, hsteps, _⟩ := createMission_ok hcreate
    intro t ht
    rw [hsteps] at ht
    cases ht
  · intro r r' hs hdeps hw
    rcases Write.edges hw hs with hedges | ⟨_, _, hplan⟩
    · exact hdeps.of_edges hedges
    · obtain ⟨haccepted⟩ := acceptPlan_ok hplan
      exact haccepted.depsInv hs hdeps

/-! ## Result -/

/-- The stored relation: the step with key `a` depends on `b`. -/
def DependsOn (r : Runner) (a b : String) : Prop :=
  ∃ t ∈ r.steps, t.step_key = a ∧ b ∈ t.depends_on

/-- What the stored plan should be behind an accepted submission. -/
structure PlanSound (r r' : Runner) : Prop where
  acyclic : Acyclic r'.DependsOn
  exist : ∀ a b, r'.DependsOn a b → b ∈ r'.keys
  ordered : ∀ t ∈ r'.steps, ∀ u ∈ r'.steps, u.step_key ∈ t.depends_on → u.position < t.position
  kept : ∀ k ∈ r.keys, k ∈ r'.keys
  started : ∀ t ∈ r.steps, t.isUntouchable = true → ∃ u ∈ r'.steps, u.text = t.text

/-- Each stored dependency of a step that is submitted again after it started stands before
    it in the order of the validated plan. -/
def StartedInOrder (r : Runner) (input : PlanInput) (plan : List PlanStep) : Prop :=
  ∀ t ∈ r.steps, isSubmitted input t.step_key = true → t.isUntouchable = true →
    ∀ d ∈ t.depends_on, (plan.map (·.key)).idxOf d < (plan.map (·.key)).idxOf t.step_key

/-- A started step keeps its text when a plan is accepted. -/
theorem Accepted.started {input : PlanInput} (h : Accepted r input r') (hs : r.Sane) {t : Step}
    (ht : t ∈ r.steps) (huntouched : t.isUntouchable = true) :
    ∃ u ∈ r'.steps, u.text = t.text := by
  have hkey : t.step_key ∈ r'.keys := by
    rw [h.keys]
    exact List.mem_append_left _ (Runner.mem_keys ht)
  obtain ⟨u, hu, hukey⟩ := List.mem_map.mp hkey
  refine ⟨u, hu, ?_⟩
  rcases h.row hs.named hu with ⟨s, a, i, _, hnone, rfl⟩ | ⟨found, hfound, _, hopen, hrev⟩ |
    ⟨found, hfound, _, i, rfl⟩
  · rw [newStep_key] at hukey
    rw [hukey, hs.distinct.stepOf ht] at hnone
    cases hnone
  · obtain ⟨_, _, _, _, _, _, _, _, _, rfl⟩ := hrev
    obtain rfl := hs.distinct.eq hfound ht hukey
    rw [huntouched] at hopen
    cases hopen
  · obtain rfl := hs.distinct.eq hfound ht hukey
    rfl

/-- In every reachable state: the plan stored by an accepted submission is sound exactly when
    each stored dependency of a step submitted again after it started precedes it in the
    validated order. -/
theorem plan_sound_iff (h : missionSystem.Reachable r) {caller : OrchestrationCaller}
    {input : PlanInput} {now : Date} {fates : String → DispatchFate} {plan : List PlanStep}
    (hsubmit : r.submitPlan caller input now fates = .ok r')
    (hplan : r.validated input = .ok plan) : PlanSound r r' ↔ StartedInOrder r input plan := by
  have hs := reachable_sane h
  have hdeps := depsInv_reachable h
  simp only [submitPlan, bind_eq_ok, pure_eq_ok] at hsubmit
  obtain ⟨r₁, haccept, rfl⟩ := hsubmit
  obtain ⟨hacc⟩ := acceptPlan_ok haccept
  cases hplan.symm.trans hacc.validated
  have hs₁ := hacc.sane hs
  have hdeps₁ := hacc.depsInv hs hdeps
  -- the pump keeps texts and places
  have hpump : PumpWrites r₁ (r₁.pump now fates) := pump_pumpWrites hs₁
  have hplaces := PumpWrites.places hpump hs₁
  have hto : ∀ t ∈ (r₁.pump now fates).steps, ∃ u ∈ r₁.steps, u.place = t.place := by
    intro t ht
    have hmem : t.place ∈ r₁.steps.map Step.place := hplaces ▸ List.mem_map.mpr ⟨t, ht, rfl⟩
    exact List.mem_map.mp hmem
  have hfrom : ∀ u ∈ r₁.steps, ∃ t ∈ (r₁.pump now fates).steps, t.place = u.place := by
    intro u hu
    have hmem : u.place ∈ (r₁.pump now fates).steps.map Step.place :=
      hplaces.symm ▸ List.mem_map.mpr ⟨u, hu, rfl⟩
    exact List.mem_map.mp hmem
  generalize hr' : r₁.pump now fates = r' at hto hfrom hplaces
  have hdeps' : DepsInv r' := hdeps₁.of_edges (edges_of_places hplaces)
  have hposition : ∀ t ∈ r'.steps, (hacc.plan.map (·.key)).idxOf t.step_key = t.position := by
    intro t ht
    obtain ⟨u, hu, heq⟩ := hto t ht
    have hkey : u.step_key = t.step_key := congrArg (·.1.step_key) heq
    have hpos : u.position = t.position := congrArg (·.2) heq
    rw [← hkey, ← hpos]
    exact hacc.position hs hdeps hu
  have hstarted : ∀ t ∈ r.steps, t.isUntouchable = true → ∃ u ∈ r'.steps, u.text = t.text := by
    intro t ht huntouched
    obtain ⟨u, hu, htext⟩ := hacc.started hs ht huntouched
    obtain ⟨v, hv, heq⟩ := hfrom u hu
    exact ⟨v, hv, (congrArg Prod.fst heq).trans htext⟩
  have hkept : ∀ k ∈ r.keys, k ∈ r'.keys := by
    intro k hk
    have hk₁ : k ∈ r₁.keys := by
      rw [hacc.keys]
      exact List.mem_append_left _ hk
    obtain ⟨u, hu, rfl⟩ := List.mem_map.mp hk₁
    obtain ⟨v, hv, heq⟩ := hfrom u hu
    exact List.mem_map.mpr ⟨v, hv, congrArg (·.1.step_key) heq⟩
  constructor
  · intro hsound t ht _ huntouched d hd
    obtain ⟨u, hu, htext⟩ := hstarted t ht huntouched
    obtain ⟨v, hv, rfl⟩ := List.mem_map.mp (hkept d ((hdeps t ht).2 d hd))
    have hdu : u.depends_on = t.depends_on := congrArg (·.depends_on) htext
    have hku : u.step_key = t.step_key := congrArg (·.step_key) htext
    have hlt := hsound.ordered u hu v hv (hdu ▸ hd)
    rwa [← hposition u hu, ← hposition v hv, hku] at hlt
  · intro horder
    -- the order of the positions, first for the rows behind the save
    have hbefore : ∀ t ∈ r₁.steps, ∀ d ∈ t.depends_on,
        (hacc.plan.map (·.key)).idxOf d < (hacc.plan.map (·.key)).idxOf t.step_key := by
      intro t ht d hd
      obtain ⟨s, hget, hkey, hcase⟩ := hacc.placed hs hdeps ht
      rcases hcase with heq | ⟨found, hfound, hfkey, hsub, huntouched, heq⟩
      · obtain ⟨j, hj, u, hu, rfl⟩ := hacc.deps_before hget (heq ▸ hd)
        rw [← hkey, hacc.idxOf hget, hacc.idxOf hu]
        exact hj
      · rw [← hfkey]
        exact horder found hfound (hfkey ▸ hsub) huntouched d (heq ▸ hd)
    have hrank : ∀ a b, r'.DependsOn a b →
        (hacc.plan.map (·.key)).idxOf b < (hacc.plan.map (·.key)).idxOf a := by
      rintro a b ⟨t, ht, rfl, hb⟩
      obtain ⟨u, hu, heq⟩ := hto t ht
      have hkey : u.step_key = t.step_key := congrArg (·.1.step_key) heq
      have hsame : u.depends_on = t.depends_on := congrArg (·.1.depends_on) heq
      rw [← hkey]
      exact hbefore u hu b (hsame ▸ hb)
    refine ⟨acyclic_of_rank hrank, ?_, ?_, hkept, hstarted⟩
    · rintro a b ⟨t, ht, _, hb⟩
      exact (hdeps' t ht).2 b hb
    · intro t ht u hu hdep
      rw [← hposition t ht, ← hposition u hu]
      exact hrank _ _ ⟨t, ht, rfl, hdep⟩

instance {input : PlanInput} {plan : List PlanStep} : Decidable (StartedInOrder r input plan) :=
  inferInstanceAs (Decidable (∀ t ∈ r.steps, isSubmitted input t.step_key = true →
    t.isUntouchable = true →
      ∀ d ∈ t.depends_on, (plan.map (·.key)).idxOf d < (plan.map (·.key)).idxOf t.step_key))

/-- A submission of two steps that nobody is assigned to, `second` behind `first`. -/
def twoSteps (first second : String) : PlanInput :=
  { steps := [{ step_key := first, title := first },
      { step_key := second, title := second, depends_on := some [first] }] }

/-- The small mission with the plan `a`, `b`, where `b` was skipped. -/
def skippedCalls : List (Date × Action) :=
  [(0, .startMission smallView),
    (1, .submitPlan (smallCaller smallOrchestrator) (twoSteps "a" "b") fun _ => .delivered),
    (2, .updateStep "b" (smallCaller smallOrchestrator) { action := .skip } fun _ => .delivered)]

/-- The same plan again is sound, also for the step that was skipped. -/
theorem plan_sound_small : ∃ r r' : Runner, (∃ t ∈ r.steps, t.isUntouchable = true ∧
    isSubmitted (twoSteps "a" "b") t.step_key = true) ∧ PlanSound r r' := by
  obtain ⟨r, hr, hp⟩ := exists_reachable_of_run smallMission skippedCalls
    (fun r => r.steps.any (fun t => t.isUntouchable && isSubmitted (twoSteps "a" "b") t.step_key) &&
      (r.submitPlan (smallCaller smallOrchestrator) (twoSteps "a" "b") 3
        fun _ => .delivered).isOk &&
      (r.validated (twoSteps "a" "b")).toOption.any fun plan =>
        StartedInOrder r (twoSteps "a" "b") plan) (by decide +kernel)
  simp only [Bool.and_eq_true, List.any_eq_true] at hp
  obtain ⟨⟨hstarted, hok⟩, hvalid⟩ := hp
  obtain ⟨plan, hplan, horder⟩ := (Option.any_eq_true _ _).mp hvalid
  cases hsubmit : r.submitPlan (smallCaller smallOrchestrator) (twoSteps "a" "b") 3
      fun _ => .delivered with
  | error e => rw [hsubmit] at hok; cases hok
  | ok r' =>
    exact ⟨r, r', hstarted, (plan_sound_iff hr hsubmit (except_toOption_eq_some.mp hplan)).mpr
      (of_decide_eq_true horder)⟩

/-- Submitted again the other way round, the skipped step keeps its dependency and the other
    one gets the reverse: the stored plan has a cycle. -/
theorem stored_cycle : ∃ r r' : Runner, missionSystem.Reachable r ∧
    (∃ caller input now fates, r.submitPlan caller input now fates = .ok r') ∧
      ¬ Acyclic r'.DependsOn := by
  obtain ⟨r, hr, hp⟩ := exists_reachable_of_run smallMission skippedCalls
    (fun r => (r.submitPlan (smallCaller smallOrchestrator) (twoSteps "b" "a") 3
      fun _ => .delivered).toOption.any fun r' =>
        r'.steps.any (fun t => t.step_key = "a" ∧ "b" ∈ t.depends_on) &&
          r'.steps.any fun t => t.step_key = "b" ∧ "a" ∈ t.depends_on) (by decide +kernel)
  obtain ⟨r', hsubmit, hcycle⟩ := (Option.any_eq_true _ _).mp hp
  simp only [Bool.and_eq_true, List.any_eq_true, decide_eq_true_eq] at hcycle
  obtain ⟨hab, hba⟩ := hcycle
  exact ⟨r, r', hr, ⟨_, _, _, _, except_toOption_eq_some.mp hsubmit⟩,
    not_acyclic_of_back hab (.single hba)⟩

end Runner

end WorkflowBoard.Orchestration
