import WorkflowBoard.ForStd.KahnLayers
import WorkflowBoard.Spec.PlanProgress

/-!
# The plans that `validatePlan` accepts, and their order

A plan is accepted exactly if it keeps the rules for its steps and its dependencies are acyclic.
What is returned are its steps, layer after layer and within a layer in the order of the author.
-/

namespace WorkflowBoard.Orchestration

variable {steps ordered : List PlanStepInput} {maxSteps : Nat}

/-! ## What is promised -/

/-- The rules that each step is checked by. -/
structure PlanRules (steps : List PlanStepInput) : Prop where
  key : ∀ s ∈ steps, isStepKey s.key = true
  distinct : (steps.map (·.key)).Nodup
  title : ∀ s ∈ steps, trimText s.title ≠ ""
  instructions : ∀ s ∈ steps, utf16Length (s.instructions.getD "") ≤ instructionsMax
  deps : ∀ s ∈ steps, ∀ d ∈ s.deps, d ≠ s.key ∧ d ∈ steps.map (·.key)

/-- A step with the key depends on the other key. -/
def PlanDependsOn (steps : List PlanStepInput) (k d : String) : Prop :=
  ∃ s ∈ steps, s.key = k ∧ d ∈ s.deps

/-- A step is one layer above the highest of its dependencies, or in layer `0`. -/
def IsLayer (steps : List PlanStepInput) (layer : String → Nat) : Prop :=
  ∀ s ∈ steps, layer s.key = (s.deps.map (layer · + 1)).foldr max 0

/-- The steps layer after layer, each layer in the order of the author. -/
def byLayer (steps : List PlanStepInput) (layer : String → Nat) : List PlanStepInput :=
  (List.range steps.length).flatMap fun n => steps.filter fun s => layer s.key = n

/-- What is promised of the steps that are returned. -/
structure OrderedPlan (steps ordered : List PlanStepInput) : Prop where
  perm : ordered.Perm steps
  /-- Each step comes after its dependencies. -/
  first : ∀ l₁ s l₂, ordered = l₁ ++ s :: l₂ → ∀ d ∈ s.deps, d ∈ l₁.map (·.key)
  /-- There are layers, and the order is by them. -/
  layered : ∃ layer, IsLayer steps layer ∧ ordered = byLayer steps layer
  /-- Of two steps in one layer the one that the author has first comes first. -/
  author : ∀ layer, IsLayer steps layer → ∀ n,
    (ordered.filter fun s => layer s.key = n) = steps.filter fun s => layer s.key = n

/-- The rounds in which the steps are placed come to an end. -/
def RoundsEnd (steps : List PlanStepInput) : Prop :=
  ∃ n ≤ steps.length, ((Kahn.round (steps.map (·.key)) (depsOf steps))^[n]
    (Kahn.start (steps.map (·.key)) (depsOf steps))).2 = []

/-! ## The checks -/

theorem checkStep_ok {seen : List String} {s : PlanStepInput} :
    checkStep seen s = .ok () ↔ isStepKey s.key = true ∧ s.key ∉ seen ∧ trimText s.title ≠ "" ∧
      utf16Length (s.instructions.getD "") ≤ instructionsMax := by
  simp only [checkStep, bind_eq_ok, require_eq_ok, decide_eq_true_eq]
  constructor
  · rintro ⟨_, hk, _, hs, _, ht, hi⟩
    exact ⟨hk, hs, ht, hi⟩
  · rintro ⟨hk, hs, ht, hi⟩
    exact ⟨(), hk, (), hs, (), ht, hi⟩

theorem checkSteps_iff {seen keys : List String} :
    checkSteps seen steps = .ok keys ↔
      keys = seen ++ steps.map (·.key) ∧ (∀ s ∈ steps, isStepKey s.key = true) ∧
      (∀ s ∈ steps, s.key ∉ seen) ∧ (steps.map (·.key)).Nodup ∧
      (∀ s ∈ steps, trimText s.title ≠ "") ∧
      ∀ s ∈ steps, utf16Length (s.instructions.getD "") ≤ instructionsMax := by
  induction steps generalizing seen with
  | nil =>
    rw [checkSteps, Except.ok.injEq, List.map_nil, List.append_nil]
    exact ⟨fun h => by simp [h], fun h => h.1.symm⟩
  | cons s steps ih =>
    simp only [checkSteps, bind_eq_ok, ih]
    constructor
    · rintro ⟨⟨⟩, hstep, hkeys, hkey, hseen, hnodup, htitle, hinstructions⟩
      obtain ⟨hk, hs, ht, hi⟩ := checkStep_ok.mp hstep
      have hnew : s.key ∉ steps.map (·.key) := by
        intro hmem
        obtain ⟨t, ht, heq⟩ := List.mem_map.mp hmem
        exact hseen t ht (List.mem_append_right _ (by rw [heq]; exact List.mem_singleton_self _))
      refine ⟨by simpa using hkeys, List.forall_mem_cons.mpr ⟨hk, hkey⟩,
        List.forall_mem_cons.mpr ⟨hs, fun t ht hin => hseen t ht (List.mem_append_left _ hin)⟩,
        List.nodup_cons.mpr ⟨hnew, hnodup⟩, List.forall_mem_cons.mpr ⟨ht, htitle⟩,
        List.forall_mem_cons.mpr ⟨hi, hinstructions⟩⟩
    · rintro ⟨hkeys, hkey, hseen, hnodup, htitle, hinstructions⟩
      obtain ⟨hk, hkey⟩ := List.forall_mem_cons.mp hkey
      obtain ⟨hs, hseen⟩ := List.forall_mem_cons.mp hseen
      obtain ⟨hnew, hnodup⟩ := List.nodup_cons.mp hnodup
      obtain ⟨ht, htitle⟩ := List.forall_mem_cons.mp htitle
      obtain ⟨hi, hinstructions⟩ := List.forall_mem_cons.mp hinstructions
      refine ⟨(), checkStep_ok.mpr ⟨hk, hs, ht, hi⟩, by simpa using hkeys, hkey, ?_, hnodup, htitle,
        hinstructions⟩
      intro t ht hin
      rcases List.mem_append.mp hin with hin | hin
      · exact hseen t ht hin
      · exact hnew (List.mem_map.mpr ⟨t, ht, List.mem_singleton.mp hin⟩)

/-- The order of the keys, as the steps they name. -/
def placed (steps : List PlanStepInput) : List PlanStepInput :=
  (Kahn.sort (steps.map (·.key)) (depsOf steps)).filterMap (stepOf steps)

theorem validatePlan_eq_ok : validatePlan steps maxSteps = .ok ordered ↔
    steps ≠ [] ∧ steps.length ≤ maxSteps ∧ PlanRules steps ∧ ordered = placed steps ∧
      ordered.length = steps.length := by
  simp only [validatePlan, bind_eq_ok, require_eq_ok, pure_eq_ok, decide_eq_true_eq,
    except_forM_eq_ok, checkSteps_iff, List.nil_append]
  constructor
  · rintro ⟨-, hne, -, hlen, seen, ⟨rfl, hkey, -, hnodup, htitle, hinstructions⟩, -, hdeps, -,
      hall, rfl⟩
    refine ⟨hne, hlen, ⟨hkey, hnodup, htitle, hinstructions, fun s hs d hd => ?_⟩, rfl, hall⟩
    have hd := except_forM_eq_ok.mp (hdeps s hs) d hd
    simpa [checkDep] using hd
  · rintro ⟨hne, hlen, hrules, rfl, hall⟩
    refine ⟨(), hne, (), hlen, _, ⟨rfl, hrules.key, fun _ _ => List.not_mem_nil, hrules.distinct,
      hrules.title, hrules.instructions⟩, (), fun s hs => ?_, (), hall, rfl⟩
    refine except_forM_eq_ok.mpr fun d hd => ?_
    simpa [checkDep] using hrules.deps s hs d hd

/-! ## The order -/

section Order

variable {s : PlanStepInput} {layer : String → Nat}

theorem PlanRules.stepOf (hrules : PlanRules steps) (hs : s ∈ steps) :
    stepOf steps s.key = some s := by
  obtain ⟨t, ht, hkey⟩ := exists_stepOf (List.mem_map.mpr ⟨s, hs, rfl⟩)
  obtain rfl : t = s :=
    List.inj_on_of_nodup_map hrules.distinct (List.mem_of_find?_eq_some ht) hs hkey
  exact ht

theorem PlanRules.depsOf (hrules : PlanRules steps) (hs : s ∈ steps) :
    depsOf steps s.key = s.deps := by
  rw [Orchestration.depsOf, hrules.stepOf hs]

theorem nodup_depsOf (steps : List PlanStepInput) (k : String) : (depsOf steps k).Nodup := by
  unfold depsOf
  split
  · exact nodup_deps _
  · exact List.nodup_nil

section

variable (hrules : PlanRules steps)
include hrules

theorem PlanRules.closed :
    ∀ k ∈ steps.map (·.key), ∀ d ∈ Orchestration.depsOf steps k, d ∈ steps.map (·.key) := by
  intro k hk d hd
  obtain ⟨s, hs, rfl⟩ := List.mem_map.mp hk
  rw [hrules.depsOf hs] at hd
  exact (hrules.deps s hs d hd).2

theorem PlanRules.dependsOn {k d : String} :
    Kahn.DependsOn (steps.map (·.key)) (Orchestration.depsOf steps) k d ↔
      PlanDependsOn steps k d := by
  constructor
  · rintro ⟨hk, hd⟩
    obtain ⟨s, hs, rfl⟩ := List.mem_map.mp hk
    exact ⟨s, hs, rfl, hrules.depsOf hs ▸ hd⟩
  · rintro ⟨s, hs, rfl, hd⟩
    exact ⟨List.mem_map.mpr ⟨s, hs, rfl⟩, (hrules.depsOf hs).symm ▸ hd⟩

theorem PlanRules.isLayer :
    Kahn.Layering (steps.map (·.key)) (Orchestration.depsOf steps) layer ↔ IsLayer steps layer := by
  unfold Kahn.Layering IsLayer
  rw [List.forall_mem_map]
  refine forall₂_congr fun s hs => ?_
  rw [hrules.depsOf hs]

theorem mem_sort {k : String}
    (hk : k ∈ Kahn.sort (steps.map (·.key)) (depsOf steps)) : k ∈ steps.map (·.key) :=
  Kahn.sort_subset hrules.distinct (fun k _ => nodup_depsOf steps k) hk

theorem map_key_placed :
    (placed steps).map (·.key) = Kahn.sort (steps.map (·.key)) (depsOf steps) :=
  map_key_filterMap fun _ hk => mem_sort hrules hk

theorem length_placed : (placed steps).length = steps.length ↔
    ∀ k ∈ steps.map (·.key), k ∈ Kahn.sort (steps.map (·.key)) (depsOf steps) := by
  have hnodup := Kahn.sort_nodup hrules.distinct (fun k _ => nodup_depsOf steps k)
  have hperm : (Kahn.sort (steps.map (·.key)) (depsOf steps)).Subperm (steps.map (·.key)) :=
    List.subperm_of_subset hnodup fun k hk => mem_sort hrules hk
  have hlen : (placed steps).length = (Kahn.sort (steps.map (·.key)) (depsOf steps)).length := by
    rw [← map_key_placed hrules, List.length_map]
  rw [hlen]
  constructor
  · intro heq k hk
    have hle : (steps.map (·.key)).length ≤
        (Kahn.sort (steps.map (·.key)) (depsOf steps)).length := by
      rw [heq, List.length_map]
    exact (hperm.perm_of_length_le hle).mem_iff.mpr hk
  · intro hall
    have hback := (List.subperm_of_subset hrules.distinct hall).length_le
    have hforth := hperm.length_le
    rw [List.length_map] at hback hforth
    omega

/-- Looking up the keys of some of the steps gives these steps. -/
theorem filterMap_stepOf {l : List PlanStepInput}
    (hl : ∀ s ∈ l, s ∈ steps) : (l.map (·.key)).filterMap (stepOf steps) = l := by
  induction l with
  | nil => rfl
  | cons s l ih =>
    rw [List.map_cons, List.filterMap_cons_some (hrules.stepOf (hl s List.mem_cons_self)),
      ih fun t ht => hl t (List.mem_cons_of_mem _ ht)]

end

theorem mem_byLayer (h : s ∈ byLayer steps layer) :
    s ∈ steps := by
  obtain ⟨n, _, hs⟩ := List.mem_flatMap.mp h
  exact List.mem_of_mem_filter hs

/-- The sort places the steps layer by layer, and as given within a layer. -/
theorem placed_eq_byLayer (hrules : PlanRules steps)
    (hlayer : IsLayer steps layer) : placed steps = byLayer steps layer := by
  have hlayering := hrules.isLayer.mpr hlayer
  have hlt : ∀ k ∈ steps.map (·.key), layer k < steps.length := fun k hk => by
    simpa using hlayering.lt_length hrules.closed hk
  have hkeys : Kahn.sort (steps.map (·.key)) (depsOf steps) =
      (byLayer steps layer).map (·.key) := by
    rw [Kahn.sort_eq_layers hrules.distinct (fun k _ => nodup_depsOf steps k) hrules.closed
      hlayering hlt]
    simp only [Kahn.layersBelow, byLayer, List.map_flatMap, List.filter_map, Function.comp_def]
  rw [placed, hkeys, filterMap_stepOf hrules fun s hs => mem_byLayer hs]

/-- A layer of the order by layers, as far as there are layers in it. -/
theorem filter_layers (layer : String → Nat) (m n : Nat) :
    (((List.range n).flatMap fun i => steps.filter fun s => layer s.key = i).filter fun s =>
      layer s.key = m) = if m < n then steps.filter fun s => layer s.key = m else [] := by
  induction n with
  | zero => rfl
  | succ n ih =>
    rw [List.range_succ, List.flatMap_append, List.filter_append, ih, List.flatMap_singleton,
      List.filter_filter]
    have hother : m ≠ n →
        (steps.filter fun s => layer s.key = m && layer s.key = n) = [] := by
      intro hne
      rw [List.filter_eq_nil_iff]
      intro s _
      simp only [Bool.and_eq_true, decide_eq_true_eq]
      omega
    rcases Nat.lt_trichotomy m n with hlt | rfl | hgt
    · rw [if_pos hlt, if_pos (by omega), hother hlt.ne, List.append_nil]
    · rw [if_neg (Nat.lt_irrefl m), if_pos (Nat.lt_succ_self m), List.nil_append]
      simp only [Bool.and_self]
    · rw [if_neg (by omega), if_neg (by omega), hother hgt.ne', List.nil_append]

theorem filter_byLayer (hrules : PlanRules steps) (hlayer : IsLayer steps layer) (n : Nat) :
    ((byLayer steps layer).filter fun s => layer s.key = n) =
      steps.filter fun s => layer s.key = n := by
  rw [byLayer, filter_layers]
  split
  · rfl
  · rename_i hge
    symm
    rw [List.filter_eq_nil_iff]
    intro s hs heq
    have hlt := (hrules.isLayer.mpr hlayer).lt_length hrules.closed
      (List.mem_map.mpr ⟨s, hs, rfl⟩)
    rw [List.length_map, of_decide_eq_true heq] at hlt
    exact hge hlt

theorem placed_perm (hrules : PlanRules steps) (hall : (placed steps).length = steps.length) :
    (placed steps).Perm steps := by
  have hnodup : (placed steps).Nodup := by
    refine List.Nodup.of_map (·.key) ?_
    rw [map_key_placed hrules]
    exact Kahn.sort_nodup hrules.distinct fun k _ => nodup_depsOf steps k
  have hsub : placed steps ⊆ steps := by
    intro s hs
    obtain ⟨k, _, hk⟩ := List.mem_filterMap.mp hs
    exact List.mem_of_find?_eq_some hk
  exact (List.subperm_of_subset hnodup hsub).perm_of_length_le (Nat.le_of_eq hall.symm)

theorem orderedPlan_of_validatePlan (h : validatePlan steps maxSteps = .ok ordered) :
    OrderedPlan steps ordered := by
  obtain ⟨_, _, hrules, rfl, hall⟩ := validatePlan_eq_ok.mp h
  obtain ⟨layer, hlayer⟩ := Kahn.exists_layering hrules.distinct (fun k _ => nodup_depsOf steps k)
    ((length_placed hrules).mp hall)
  have hlayer := hrules.isLayer.mp hlayer
  refine ⟨placed_perm hrules hall, (validPlan_of_validatePlan h).closed,
    ⟨layer, hlayer, placed_eq_byLayer hrules hlayer⟩, fun layer' hlayer' n => ?_⟩
  rw [placed_eq_byLayer hrules hlayer', filter_byLayer hrules hlayer']

end Order

/-! ## Acceptance -/

/-- The sort places every step if and only if there is no cycle. -/
theorem acyclic_iff (hrules : PlanRules steps) :
    Acyclic (PlanDependsOn steps) ↔ (placed steps).length = steps.length := by
  rw [length_placed hrules, ← Kahn.acyclic_iff_all_placed hrules.distinct
    (fun k _ => nodup_depsOf steps k) hrules.closed]
  have hsame : Kahn.DependsOn (steps.map (·.key)) (depsOf steps) = PlanDependsOn steps := by
    funext k d
    exact propext hrules.dependsOn
  rw [hsame]

/-- A plan is accepted exactly if it is not empty nor too long, each step keeps the rules and the
    dependencies are acyclic; the steps that are returned are its own, after their dependencies and
    in the author's order within a layer; and the loop ends on all plans that come to it. -/
theorem validatePlan_iff (steps : List PlanStepInput) (maxSteps : Nat) :
    ((∃ ordered, validatePlan steps maxSteps = .ok ordered) ↔
      steps ≠ [] ∧ steps.length ≤ maxSteps ∧ PlanRules steps ∧ Acyclic (PlanDependsOn steps)) ∧
    (∀ ordered, validatePlan steps maxSteps = .ok ordered → OrderedPlan steps ordered) ∧
    (PlanRules steps → RoundsEnd steps) := by
  refine ⟨⟨?_, ?_⟩, fun ordered h => orderedPlan_of_validatePlan h, fun hrules => ?_⟩
  · rintro ⟨ordered, h⟩
    obtain ⟨hne, hlen, hrules, rfl, hall⟩ := validatePlan_eq_ok.mp h
    exact ⟨hne, hlen, hrules, (acyclic_iff hrules).mpr hall⟩
  · rintro ⟨hne, hlen, hrules, hacyclic⟩
    exact ⟨placed steps,
      validatePlan_eq_ok.mpr ⟨hne, hlen, hrules, rfl, (acyclic_iff hrules).mp hacyclic⟩⟩
  · obtain ⟨n, hn, hend⟩ := Kahn.exists_rounds hrules.distinct
      (fun k _ => nodup_depsOf steps k)
    exact ⟨n, by simpa using hn, hend⟩

end WorkflowBoard.Orchestration
