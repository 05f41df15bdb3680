import WorkflowBoard.ForStd.List
import WorkflowBoard.Native.Plan

/-!
# A validated plan never gets stuck

`validatePlan` returns the steps of a plan with distinct keys and every dependency before
the step that has it (`ValidPlan`). On such a plan `computePlanProgress` never leaves a
mission with nothing to do: the first step that is not terminal has only terminal
dependencies, so unless it is being worked on it can be dispatched or is poisoned.
-/

namespace WorkflowBoard.Orchestration

/-- Distinct keys, and the dependencies of a step are keys of steps before it. -/
structure ValidPlan (steps : List PlanStepInput) : Prop where
  nodup : (steps.map (·.key)).Nodup
  closed : ∀ l₁ a l₂, steps = l₁ ++ a :: l₂ → ∀ d ∈ a.deps, d ∈ l₁.map (·.key)

/-- The list of a bucket. -/
def PlanProgress.list (p : PlanProgress) : Bucket → List String
  | .dispatchable => p.dispatchable
  | .waiting => p.waiting
  | .newlyBlocked => p.newlyBlocked
  | .inFlight => p.inFlight
  | .awaitingUser => p.awaitingUser
  | .done => p.done
  | .failed => p.failed

/-! ## What `validatePlan` accepts -/

theorem nodup_deps (s : PlanStepInput) : s.deps.Nodup := nodup_eraseDups _

variable {steps : List PlanStepInput} {status : String → StepStatus}

/-- The first loop collects the keys and refuses a repeated one. -/
theorem checkSteps_ok {seen keys : List String}
    (h : checkSteps seen steps = .ok keys) (hseen : seen.Nodup) :
    keys = seen ++ steps.map (·.key) ∧ keys.Nodup := by
  induction steps generalizing seen with
  | nil =>
    cases h
    exact ⟨by simp, hseen⟩
  | cons s steps ih =>
    simp only [checkSteps, bind_eq_ok] at h
    obtain ⟨u, hstep, hrest⟩ := h
    have hnew : s.key ∉ seen := by
      simp only [checkStep, bind_eq_ok, require_eq_ok, decide_eq_true_eq] at hstep
      obtain ⟨_, _, _, hnew, _⟩ := hstep
      exact hnew
    have hnd : (seen ++ [s.key]).Nodup := by
      refine List.nodup_append.mpr ⟨hseen, List.nodup_singleton _, ?_⟩
      intro a ha b hb hab
      rw [List.mem_singleton] at hb
      exact hnew (hb ▸ hab ▸ ha)
    obtain ⟨hkeys, hndk⟩ := ih hrest hnd
    exact ⟨by simpa using hkeys, hndk⟩

theorem exists_stepOf {key : String}
    (h : key ∈ steps.map (·.key)) : ∃ s, stepOf steps key = some s ∧ s.key = key := by
  obtain ⟨s, hs, rfl⟩ := List.mem_map.mp h
  cases hfind : stepOf steps s.key with
  | none =>
    have := List.find?_eq_none.mp hfind s hs
    simp at this
  | some t => exact ⟨t, rfl, by simpa using List.find?_some hfind⟩

/-- Looking the keys up gives steps with these keys, in order. -/
theorem map_key_filterMap {keys : List String} (h : ∀ k ∈ keys, k ∈ steps.map (·.key)) :
    (keys.filterMap (stepOf steps)).map (·.key) = keys := by
  induction keys with
  | nil => rfl
  | cons k keys ih =>
    obtain ⟨s, hs, hkey⟩ := exists_stepOf (h k List.mem_cons_self)
    rw [List.filterMap_cons_some hs, List.map_cons, hkey,
      ih fun k hk => h k (List.mem_cons_of_mem _ hk)]

/-- What acceptance of a plan means. -/
theorem validPlan_of_validatePlan {steps ordered : List PlanStepInput} {maxSteps : Nat}
    (h : validatePlan steps maxSteps = .ok ordered) : ValidPlan ordered := by
  simp only [validatePlan, bind_eq_ok, require_eq_ok] at h
  obtain ⟨_, _, _, _, seen, hseen, _, _, _, _, hord⟩ := h
  cases hord
  obtain ⟨hkeys, hnd⟩ := checkSteps_ok hseen List.nodup_nil
  rw [List.nil_append] at hkeys
  have hdeps : ∀ k ∈ seen, (depsOf steps k).Nodup := by
    intro k _
    unfold depsOf
    split
    · exact nodup_deps _
    · exact List.nodup_nil
  have hsort : ∀ k ∈ Kahn.sort seen (depsOf steps), k ∈ steps.map (·.key) := by
    intro k hk
    rw [← hkeys]
    exact Kahn.sort_subset hnd hdeps hk
  have hmap := map_key_filterMap hsort
  refine ⟨?_, ?_⟩
  · rw [hmap]
    exact Kahn.sort_nodup hnd hdeps
  · intro l₁ a l₂ heq d hd
    -- the step `a` is the one its key is looked up to
    have ha : stepOf steps a.key = some a := by
      have hmem : a ∈ (Kahn.sort seen (depsOf steps)).filterMap (stepOf steps) := by
        rw [heq]
        simp
      obtain ⟨k, hk, hka⟩ := List.mem_filterMap.mp hmem
      obtain ⟨s, hs, hskey⟩ := exists_stepOf (hsort k hk)
      obtain rfl : s = a := Option.some.inj (hs.symm.trans hka)
      rw [hskey]
      exact hs
    have hda : d ∈ depsOf steps a.key := by
      unfold depsOf
      rw [ha]
      exact hd
    rw [heq, List.map_append, List.map_cons] at hmap
    exact Kahn.sort_closed hnd hdeps hmap.symm d hda

/-! ## Rows and their dependencies -/

section View

variable {steps : List PlanStepInput} {status : String → StepStatus}

variable {v : StepStateView}

theorem mem_planView : v ∈ planView steps status ↔
    ∃ s ∈ steps, v = ⟨s.key, status s.key, some s.deps⟩ := by
  simp [planView, eq_comm]

theorem map_key_planView : (planView steps status).map (·.step_key) = steps.map (·.key) := by
  simp [planView]

/-- A dependency that is a step of the plan is found with the status of its key. -/
theorem dependency_planView (status : String → StepStatus) {d : String}
    (hd : d ∈ steps.map (·.key)) :
    ∃ v, dependency (planView steps status) d = some v ∧ v.status = status d := by
  have hmap : (planView steps status).map (·.step_key) = steps.map (·.key) := map_key_planView
  rw [← hmap] at hd
  obtain ⟨v, hv, rfl⟩ := List.mem_map.mp hd
  cases hfind : dependency (planView steps status) v.step_key with
  | none =>
    have := List.find?_eq_none.mp hfind v (List.mem_reverse.mpr hv)
    simp at this
  | some w =>
    have hkey : w.step_key = v.step_key := by simpa using List.find?_some hfind
    have hw : w ∈ planView steps status :=
      List.mem_reverse.mp (List.mem_of_find?_eq_some hfind)
    obtain ⟨s, -, rfl⟩ := mem_planView.mp hw
    exact ⟨_, rfl, by rw [← hkey]⟩

/-- The dependencies of a step of a valid plan, as rows, have the statuses of their keys. -/
theorem mem_dependencies {s : PlanStepInput}
    (h : v ∈ s.deps.filterMap (dependency (planView steps status))) :
    ∃ d ∈ s.deps, v.status = status d := by
  obtain ⟨d, hd, hv⟩ := List.mem_filterMap.mp h
  have hkey : v.step_key = d := by simpa using List.find?_some hv
  have hmem : v ∈ planView steps status := List.mem_reverse.mp (List.mem_of_find?_eq_some hv)
  obtain ⟨t, -, rfl⟩ := mem_planView.mp hmem
  exact ⟨d, hd, by rw [← hkey]⟩

/-! ## Buckets -/

theorem list_computePlanProgress (views : List StepStateView) (b : Bucket) :
    (computePlanProgress views).list b = keysIn views b := by
  cases b <;> rfl

/-- With distinct keys a key is in the list of its step's bucket and in no other. -/
theorem mem_keysIn (hnd : (steps.map (·.key)).Nodup) (hv : v ∈ planView steps status) (b : Bucket) :
    v.step_key ∈ keysIn (planView steps status) b ↔ bucketOf (planView steps status) v = b := by
  have hkeys : ((planView steps status).map (·.step_key)).Nodup := by
    rwa [map_key_planView]
  unfold keysIn
  constructor
  · intro h
    obtain ⟨w, hw, hkey⟩ := List.mem_map.mp h
    obtain ⟨hw, hb⟩ := List.mem_filter.mp hw
    obtain rfl := List.inj_on_of_nodup_map hkeys hw hv hkey
    exact of_decide_eq_true hb
  · intro h
    exact List.mem_map.mpr ⟨v, List.mem_filter.mpr ⟨hv, decide_eq_true h⟩, rfl⟩

/-- The terminal steps are those counted as done or failed. -/
theorem terminal_iff_bucket (views : List StepStateView) (v : StepStateView) :
    bucketOf views v ∈ [Bucket.done, .failed] ↔ v.status.isTerminal = true := by
  unfold bucketOf
  cases v.status <;> simp [StepStatus.isInFlight, StepStatus.isAwaitingUser,
    StepStatus.isTerminal] <;> split <;> try split
  all_goals simp

/-- Only a step with satisfied dependencies is dispatchable. -/
theorem satisfied_of_dispatchable {views : List StepStateView} {v w : StepStateView} {d : String}
    (hv : bucketOf views v = .dispatchable) (hd : d ∈ v.depends_on.getD [])
    (hw : dependency views d = some w) : w.status.satisfies = true := by
  unfold bucketOf at hv
  dsimp only at hv
  -- the last branch is the only one that dispatches
  iterate 6 (split at hv; · cases hv)
  rename_i hwait
  simp only [List.any_eq_true, not_exists, not_and, Bool.not_eq_true, Bool.not_eq_false'] at hwait
  exact hwait w (List.mem_filterMap.mpr ⟨d, hd, hw⟩)

/-- A step that is neither terminal nor being worked on, with terminal dependencies, moves. -/
theorem bucketOf_of_terminal_deps (steps : List PlanStepInput) {s : PlanStepInput}
    (hterm : (status s.key).isTerminal = false) (hfly : (status s.key).isInFlight = false)
    (hwait : (status s.key).isAwaitingUser = false)
    (hdeps : ∀ d ∈ s.deps, (status d).isTerminal = true) :
    bucketOf (planView steps status) ⟨s.key, status s.key, some s.deps⟩ = .dispatchable ∨
      bucketOf (planView steps status) ⟨s.key, status s.key, some s.deps⟩ = .newlyBlocked := by
  have hstatus : status s.key = .pending ∨ status s.key = .ready := by
    cases h : status s.key <;> simp [h, StepStatus.isTerminal, StepStatus.isInFlight,
      StepStatus.isAwaitingUser] at hterm hfly hwait ⊢
  -- a terminal dependency satisfies or poisons
  have hcases : ∀ t : StepStatus, t.isTerminal = true → t.poisons = false →
      t.satisfies = true := by
    intro t
    cases t <;> decide
  by_cases hpoison : (s.deps.filterMap (dependency (planView steps status))).any
      (·.status.poisons) = true
  · right
    unfold bucketOf
    obtain h | h := hstatus <;>
      simp [h, hpoison, StepStatus.isInFlight, StepStatus.isAwaitingUser]
  · left
    have hsat : (s.deps.filterMap (dependency (planView steps status))).any
        (!·.status.satisfies) = false := by
      rw [List.any_eq_false]
      intro v hv
      obtain ⟨d, hd, hvd⟩ := mem_dependencies hv
      have hnot : v.status.poisons = false := by
        rw [Bool.not_eq_true, List.any_eq_false] at hpoison
        simpa using hpoison v hv
      have := hcases v.status (hvd ▸ hdeps d hd) hnot
      simp [this]
    unfold bucketOf
    obtain h | h := hstatus <;>
      simp [h, hpoison, hsat, StepStatus.isInFlight, StepStatus.isAwaitingUser]

end View

/-! ## Progress -/

theorem exists_first {α : Type} {p : α → Bool} {l : List α} (h : ∃ a ∈ l, p a = false) :
    ∃ l₁ a l₂, l = l₁ ++ a :: l₂ ∧ p a = false ∧ ∀ b ∈ l₁, p b = true := by
  induction l with
  | nil => simp at h
  | cons x l ih =>
    by_cases hx : p x = true
    · obtain ⟨a, ha, hpa⟩ := h
      have hal : a ∈ l := by
        obtain rfl | ha := List.mem_cons.mp ha
        · rw [hx] at hpa
          cases hpa
        · exact ha
      obtain ⟨l₁, b, l₂, rfl, hb, hall⟩ := ih ⟨a, hal, hpa⟩
      refine ⟨x :: l₁, b, l₂, rfl, hb, ?_⟩
      intro c hc
      obtain rfl | hc := List.mem_cons.mp hc
      · exact hx
      · exact hall c hc
    · exact ⟨[], x, l, rfl, by simpa using hx, by simp⟩

/-- In a valid plan with nothing being worked on, the first step that is not terminal can be
    dispatched or is poisoned. -/
theorem exists_dispatchable_or_blocked (hplan : ValidPlan steps)
    (hopen : ∃ s ∈ steps, (status s.key).isTerminal = false)
    (hidle : ∀ s ∈ steps, (status s.key).isInFlight = false ∧
      (status s.key).isAwaitingUser = false) :
    ∃ s ∈ steps, (status s.key).isTerminal = false ∧
      (s.key ∈ (computePlanProgress (planView steps status)).dispatchable ∨
        s.key ∈ (computePlanProgress (planView steps status)).newlyBlocked) := by
  obtain ⟨l₁, a, l₂, heq, hopen, hbefore⟩ :=
    exists_first (p := fun s : PlanStepInput => (status s.key).isTerminal) hopen
  have ha : a ∈ steps := by simp [heq]
  have hdeps : ∀ d ∈ a.deps, (status d).isTerminal = true := by
    intro d hd
    obtain ⟨b, hb, rfl⟩ := List.mem_map.mp (hplan.closed l₁ a l₂ heq d hd)
    exact hbefore b hb
  obtain ⟨hfly, hwait⟩ := hidle a ha
  have hview : (⟨a.key, status a.key, some a.deps⟩ : StepStateView) ∈ planView steps status :=
    mem_planView.mpr ⟨a, ha, rfl⟩
  refine ⟨a, ha, hopen, ?_⟩
  obtain hb | hb := bucketOf_of_terminal_deps steps hopen hfly hwait hdeps
  · exact .inl ((mem_keysIn hplan.nodup hview .dispatchable).mpr hb)
  · exact .inr ((mem_keysIn hplan.nodup hview .newlyBlocked).mpr hb)

/-! ## Marking the poisoned steps -/

/-- How many steps are not terminal. -/
def openCount (steps : List PlanStepInput) (status : String → StepStatus) : Nat :=
  steps.countP fun s => !(status s.key).isTerminal

/-- Marking takes no step out of a terminal status and puts none in flight or on hold. -/
theorem markBlocked_cases (steps : List PlanStepInput) (status : String → StepStatus)
    (key : String) : markBlocked steps status key = .blocked ∨
      markBlocked steps status key = status key := by
  unfold markBlocked
  split
  · exact .inl rfl
  · exact .inr rfl

theorem markBlocked_terminal {key : String} (h : (status key).isTerminal = true) :
    (markBlocked steps status key).isTerminal = true := by
  obtain hb | hb := markBlocked_cases steps status key
  · rw [hb]
    rfl
  · rwa [hb]

/-- A round that marks a step leaves fewer open ones. -/
theorem openCount_markBlocked
    {s : PlanStepInput} (hs : s ∈ steps) (hopen : (status s.key).isTerminal = false)
    (hb : s.key ∈ (computePlanProgress (planView steps status)).newlyBlocked) :
    openCount steps (markBlocked steps status) < openCount steps status := by
  apply countP_lt_countP (a := s) _ hs
  · simp [hopen]
  · have hmark : markBlocked steps status s.key = .blocked := by
      unfold markBlocked
      rw [if_pos hb]
    rw [hmark]
    rfl
  · intro t _ ht
    by_cases hterm : (status t.key).isTerminal = true
    · rw [markBlocked_terminal hterm] at ht
      cases ht
    · simpa using hterm

/-- Marking the poisoned steps again and again ends with a step to dispatch or with all steps
    terminal, after at most as many rounds as there are open steps. -/
theorem exists_rounds (hplan : ValidPlan steps) (n : Nat) (hn : openCount steps status ≤ n)
    (hidle : ∀ s ∈ steps, (status s.key).isInFlight = false ∧
      (status s.key).isAwaitingUser = false) :
    ∃ k ≤ n, (computePlanProgress (planView steps ((markBlocked steps)^[k] status))).dispatchable
        ≠ [] ∨ ∀ s ∈ steps, ((markBlocked steps)^[k] status s.key).isTerminal = true := by
  induction n generalizing status with
  | zero =>
    refine ⟨0, Nat.le_refl 0, .inr fun s hs => ?_⟩
    have hzero : openCount steps status = 0 := by omega
    have := List.countP_eq_zero.mp hzero s hs
    simpa using this
  | succ n ih =>
    by_cases hopen : ∃ s ∈ steps, (status s.key).isTerminal = false
    · obtain ⟨s, hs, hterm, hd | hb⟩ := exists_dispatchable_or_blocked hplan hopen hidle
      · exact ⟨0, Nat.zero_le _, .inl (List.ne_nil_of_mem hd)⟩
      · have hless := openCount_markBlocked hs hterm hb
        have hidle' : ∀ t ∈ steps, (markBlocked steps status t.key).isInFlight = false ∧
            (markBlocked steps status t.key).isAwaitingUser = false := by
          intro t ht
          obtain h | h := markBlocked_cases steps status t.key
          · rw [h]
            exact ⟨rfl, rfl⟩
          · rw [h]
            exact hidle t ht
        obtain ⟨k, hk, hend⟩ := ih (by omega) hidle'
        exact ⟨k + 1, by omega, hend⟩
    · refine ⟨0, Nat.zero_le _, .inr fun s hs => ?_⟩
      by_contra hno
      exact hopen ⟨s, hs, by simpa using hno⟩

/-- Progress on an accepted plan with any statuses. Every step is in exactly one bucket, and
    `allTerminal` says what it is called; a dispatchable step has only satisfied dependencies;
    unless all steps are terminal or some step is being worked on, some step is dispatchable or
    newly blocked; and marking the newly blocked steps ends. -/
theorem plan_progress {input steps : List PlanStepInput} {maxSteps : Nat}
    (h : validatePlan input maxSteps = .ok steps) (status : String → StepStatus) :
    (∀ s ∈ steps, ∃! b, s.key ∈ (computePlanProgress (planView steps status)).list b) ∧
    ((computePlanProgress (planView steps status)).allTerminal = true ↔
      ∀ s ∈ steps, (status s.key).isTerminal = true) ∧
    (∀ s ∈ steps, s.key ∈ (computePlanProgress (planView steps status)).dispatchable →
      ∀ d ∈ s.deps, ∀ t ∈ steps, t.key = d → status d = .done ∨ status d = .skipped) ∧
    ((∃ s ∈ steps, (status s.key).isTerminal = false) →
      (∀ s ∈ steps, (status s.key).isInFlight = false ∧ (status s.key).isAwaitingUser = false) →
      (computePlanProgress (planView steps status)).dispatchable ≠ [] ∨
        (computePlanProgress (planView steps status)).newlyBlocked ≠ []) ∧
    ((∀ s ∈ steps, (status s.key).isInFlight = false ∧ (status s.key).isAwaitingUser = false) →
      ∃ k ≤ steps.length,
        (computePlanProgress (planView steps ((markBlocked steps)^[k] status))).dispatchable
          ≠ [] ∨ ∀ s ∈ steps, ((markBlocked steps)^[k] status s.key).isTerminal = true) := by
  have hplan := validPlan_of_validatePlan h
  refine ⟨?_, ?_, ?_, ?_, ?_⟩
  · intro s hs
    have hv : (⟨s.key, status s.key, some s.deps⟩ : StepStateView) ∈ planView steps status :=
      mem_planView.mpr ⟨s, hs, rfl⟩
    have hmem : ∀ b, s.key ∈ (computePlanProgress (planView steps status)).list b ↔
        bucketOf (planView steps status) ⟨s.key, status s.key, some s.deps⟩ = b := by
      intro b
      rw [list_computePlanProgress]
      exact mem_keysIn hplan.nodup hv b
    exact ⟨_, (hmem _).mpr rfl, fun b hb => ((hmem b).mp hb).symm⟩
  · show (planView steps status).all _ = true ↔ _
    rw [List.all_eq_true]
    constructor
    · intro hall s hs
      have := hall _ (mem_planView.mpr ⟨s, hs, rfl⟩)
      exact (terminal_iff_bucket _ _).mp (of_decide_eq_true this)
    · intro hall v hv
      obtain ⟨s, hs, rfl⟩ := mem_planView.mp hv
      exact decide_eq_true ((terminal_iff_bucket _ _).mpr (hall s hs))
  · intro s hs hdisp d hd t ht htd
    have hv : (⟨s.key, status s.key, some s.deps⟩ : StepStateView) ∈ planView steps status :=
      mem_planView.mpr ⟨s, hs, rfl⟩
    have hbucket := (mem_keysIn hplan.nodup hv .dispatchable).mp hdisp
    obtain ⟨w, hw, hwd⟩ := dependency_planView status
      (List.mem_map.mpr ⟨t, ht, htd⟩ : d ∈ steps.map (·.key))
    have hsat : (status d).satisfies = true := hwd ▸ satisfied_of_dispatchable hbucket hd hw
    simpa [StepStatus.satisfies] using hsat
  · intro hopen hidle
    obtain ⟨s, -, -, hd | hb⟩ := exists_dispatchable_or_blocked hplan hopen hidle
    · exact .inl (List.ne_nil_of_mem hd)
    · exact .inr (List.ne_nil_of_mem hb)
  · exact exists_rounds hplan steps.length (List.countP_le_length)

/-- The steps of a plan in the order of their dependencies. -/
def chainPlan : List PlanStepInput :=
  [{ step_key := "a", title := "A" },
    { step_key := "b", title := "B", depends_on := some [" a "] },
    { step_key := "c", title := "C", depends_on := some ["b"] }]

/-- The steps are accepted in any order, and when the first has failed the rounds that mark
    the others end. -/
theorem plan_progress_chain : validatePlan chainPlan.reverse 10 = .ok chainPlan ∧
    ∃ k ≤ 3, (computePlanProgress (planView chainPlan ((markBlocked chainPlan)^[k]
        fun key => if key = "a" then .failed else .pending))).dispatchable ≠ [] ∨
      ∀ s ∈ chainPlan, ((markBlocked chainPlan)^[k]
        (fun key => if key = "a" then .failed else .pending) s.key).isTerminal = true := by
  have hvalid : validatePlan chainPlan.reverse 10 = .ok chainPlan :=
    except_toOption_eq_some.mp (by decide +kernel)
  refine ⟨hvalid, ?_⟩
  exact (plan_progress hvalid _).2.2.2.2 (by decide +kernel)

end WorkflowBoard.Orchestration
