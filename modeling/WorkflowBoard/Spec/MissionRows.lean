import WorkflowBoard.Native.MissionRunner
import WorkflowBoard.Spec.GraphNodes
import WorkflowBoard.Spec.PlanProgress

/-!
# The rows of a mission under its operations

What saving one row or several does to the list of rows, and what the progress of a mission
says about them: a dispatchable step is waiting, a newly blocked one too, and every step in
flight is counted, provided the keys are distinct and the graph has a node for each step in
flight (`Sane`).
-/

namespace WorkflowBoard.Orchestration

/-- Pending or ready. -/
def Step.isWaiting (s : Step) : Bool := s.status ∈ [.pending, .ready]

theorem isWaiting_iff {s : Step} :
    s.isWaiting = true ↔ s.status = .pending ∨ s.status = .ready := by
  simp [Step.isWaiting]

theorem not_inFlight_of_isWaiting {s : Step} (h : s.isWaiting = true) :
    s.status.isInFlight = false := by
  cases isWaiting_iff.mp h with
  | inl h => rw [h]; rfl
  | inr h => rw [h]; rfl

theorem not_terminal_of_isWaiting {s : Step} (h : s.isWaiting = true) :
    s.status.isTerminal = false := by
  cases isWaiting_iff.mp h with
  | inl h => rw [h]; rfl
  | inr h => rw [h]; rfl

/-- The row with other texts, another assignment and another place in the plan. -/
def Step.Revises (t s : Step) : Prop :=
  ∃ title instructions acceptance_criteria depends_on assignee_slot project_id assignee_agent_id
      position plan_version, t =
    { s with
      title, instructions, acceptance_criteria, depends_on, assignee_slot, project_id,
      assignee_agent_id, position, plan_version }

theorem not_terminal_of_inFlight {s : StepStatus} (h : s.isInFlight = true) :
    s.isTerminal = false := by
  cases s <;> first | rfl | cases h

namespace Runner

/-- The keys of the rows. -/
def keys (r : Runner) : List String := r.steps.map (·.step_key)

def Distinct (r : Runner) : Prop := r.keys.Nodup

def inFlightCount (r : Runner) : Nat := r.steps.countP (·.status.isInFlight)

/-! ## Saves -/

section Saves

variable {r : Runner} {s t : Step} {p : Step → Bool} {f : Step → Step}

theorem keys_saveStep : (r.saveStep s).keys = r.keys := by
  simp only [keys, saveStep, List.map_map]
  refine List.map_congr_left fun t _ => ?_
  simp only [Function.comp]
  split
  · rename_i h
    exact h.symm
  · rfl

theorem keys_saveSteps (hf : ∀ t, (f t).step_key = t.step_key) :
    (r.saveSteps p f).keys = r.keys := by
  simp only [keys, saveSteps, List.map_map]
  refine List.map_congr_left fun t _ => ?_
  simp only [Function.comp]
  split
  · exact hf t
  · rfl

/-- A row after a save is the saved one or has another key. -/
theorem mem_saveStep (h : t ∈ (r.saveStep s).steps) :
    t = s ∨ (t ∈ r.steps ∧ t.step_key ≠ s.step_key) := by
  obtain ⟨u, hu, rfl⟩ := List.mem_map.mp h
  split
  · exact .inl rfl
  · rename_i hne
    exact .inr ⟨hu, hne⟩

theorem saveStep_mem (h : s.step_key ∈ r.keys) : s ∈ (r.saveStep s).steps := by
  obtain ⟨u, hu, hkey⟩ := List.mem_map.mp h
  exact List.mem_map.mpr ⟨u, hu, if_pos hkey⟩

theorem mem_saveStep_of_ne (h : t ∈ r.steps) (hne : t.step_key ≠ s.step_key) :
    t ∈ (r.saveStep s).steps :=
  List.mem_map.mpr ⟨t, h, if_neg hne⟩

theorem mem_keys (h : s ∈ r.steps) : s.step_key ∈ r.keys := List.mem_map.mpr ⟨s, h, rfl⟩

theorem mem_saveSteps (h : t ∈ (r.saveSteps p f).steps) :
    ∃ u ∈ r.steps, (p u = true ∧ t = f u) ∨ (p u = false ∧ t = u) := by
  obtain ⟨u, hu, rfl⟩ := List.mem_map.mp h
  cases hp : p u with
  | true => exact ⟨u, hu, .inl ⟨hp, by simp⟩⟩
  | false => exact ⟨u, hu, .inr ⟨hp, by simp⟩⟩

theorem mem_saveSteps_of_not (h : t ∈ r.steps) (hp : p t = false) :
    t ∈ (r.saveSteps p f).steps :=
  List.mem_map.mpr ⟨t, h, by simp [hp]⟩

theorem Distinct.eq (h : r.Distinct) (hs : s ∈ r.steps) (ht : t ∈ r.steps)
    (hkey : s.step_key = t.step_key) : s = t :=
  List.inj_on_of_nodup_map h hs ht hkey

theorem Distinct.saveStep_self (h : r.Distinct) (hs : s ∈ r.steps) : r.saveStep s = r := by
  have hsteps : (r.steps.map fun t => if t.step_key = s.step_key then s else t) = r.steps := by
    conv_rhs => rw [← List.map_id r.steps]
    refine List.map_congr_left fun t ht => ?_
    split
    · rename_i hkey
      exact h.eq hs ht hkey.symm
    · rfl
  unfold saveStep
  rw [hsteps]

/-- What a save leaves as it was in the row, it leaves as it was in all rows. -/
theorem Distinct.map_saveStep {β : Type*} {g : Step → β} (h : r.Distinct) (hs : s ∈ r.steps)
    (hkey : t.step_key = s.step_key) (hg : g t = g s) :
    (r.saveStep t).steps.map g = r.steps.map g := by
  unfold saveStep
  rw [List.map_map]
  refine List.map_congr_left fun u hu => ?_
  simp only [Function.comp]
  split
  · rename_i hu'
    rw [hg, h.eq hs hu (hu'.trans hkey).symm]
  · rfl

theorem map_saveSteps {β : Type*} {g : Step → β} (hg : ∀ t, g (f t) = g t) :
    (r.saveSteps p f).steps.map g = r.steps.map g := by
  unfold saveSteps
  rw [List.map_map]
  refine List.map_congr_left fun u _ => ?_
  simp only [Function.comp]
  split
  · exact hg u
  · rfl

theorem stepOf_some {key : String} (h : r.stepOf key = some s) :
    s ∈ r.steps ∧ s.step_key = key :=
  ⟨List.mem_of_find?_eq_some h, by simpa using List.find?_some h⟩

theorem stepOf_isSome {key : String} : (r.stepOf key).isSome = true ↔ key ∈ r.keys := by
  simp [stepOf, keys]

theorem Distinct.stepOf (h : r.Distinct) (hs : s ∈ r.steps) : r.stepOf s.step_key = some s := by
  cases hfind : r.stepOf s.step_key with
  | none =>
    have := stepOf_isSome.mpr (mem_keys hs)
    rw [hfind] at this
    cases this
  | some t =>
    obtain ⟨ht, hkey⟩ := stepOf_some hfind
    rw [h.eq ht hs hkey]

end Saves

/-! ## Progress -/

/-- Distinct step keys; and the graph has distinct nodes, each with a row, and one for each
    step in flight. -/
structure Sane (r : Runner) : Prop where
  distinct : r.Distinct
  named : ∀ k ∈ r.keys, isStepKey k = true
  nodes : ∀ spec, r.mission.graph_spec = some spec → (nodeKeysOf spec.nodes).Nodup
  rows : ∀ spec, r.mission.graph_spec = some spec → ∀ k ∈ nodeKeysOf spec.nodes, k ∈ r.keys
  onGraph : ∀ spec, r.mission.graph_spec = some spec →
    ∀ t ∈ r.steps, t.status.isInFlight = true → t.step_key ∈ nodeKeysOf spec.nodes

section Progress

variable {r : Runner} {t : Step}

theorem Distinct.stateOf (h : r.Distinct) (ht : t ∈ r.steps) :
    stateOf (r.steps.map (·.nodeState)) t.step_key = some t.nodeState := by
  unfold Orchestration.stateOf
  cases hfind : (r.steps.map (·.nodeState)).reverse.find? (·.key = t.step_key) with
  | none =>
    have hnone := List.find?_eq_none.mp hfind t.nodeState
      (List.mem_reverse.mpr (List.mem_map.mpr ⟨t, ht, rfl⟩))
    simp [Step.nodeState] at hnone
  | some x =>
    have hx : x.key = t.step_key := by simpa using List.find?_some hfind
    obtain ⟨u, hu, rfl⟩ := List.mem_map.mp (List.mem_reverse.mp (List.mem_of_find?_eq_some hfind))
    rw [h.eq hu ht hx]

theorem graphStates (steps : List Step) :
    (steps.map Step.view).map
      (fun s => (⟨s.step_key, s.status, s.visit, s.verdict⟩ : GraphNodeState)) =
      steps.map (·.nodeState) := by
  rw [List.map_map]
  rfl

/-- The views `computePlanProgress` reads. -/
def waveViews (steps : List Step) : List StepStateView :=
  steps.map fun s => ⟨s.step_key, s.status, some s.depends_on⟩

theorem progressOf_graph {m : Mission} {spec : GraphSpec} (hspec : m.graph_spec = some spec)
    (steps : List Step) :
    progressOf m steps = computeGraphProgress spec (steps.map (·.nodeState)) := by
  unfold progressOf computeMissionProgress
  rw [hspec]
  dsimp only
  rw [graphStates]

theorem progressOf_wave {m : Mission} (hspec : m.graph_spec = none) (steps : List Step) :
    progressOf m steps = computePlanProgress (waveViews steps) := by
  unfold progressOf computeMissionProgress
  rw [hspec]
  dsimp only
  rw [List.map_map]
  rfl

theorem keys_waveViews (steps : List Step) :
    (waveViews steps).map (·.step_key) = steps.map (·.step_key) := by
  simp [waveViews]

theorem graphBucketOf_cases {edges : List GraphEdge} {states : List GraphNodeState}
    {node : GraphNode} {x : GraphNodeState} (hx : Orchestration.stateOf states node.key = some x)
    {b : Bucket} (hb : graphBucketOf edges states node = b)
    (hne : b = .dispatchable ∨ b = .newlyBlocked) :
    x.status = .pending ∨ x.status = .ready := by
  subst hb
  unfold graphBucketOf at hne
  rw [hx] at hne
  dsimp only at hne
  cases hs : x.status <;> rw [hs] at hne <;>
    simp [StepStatus.isInFlight, StepStatus.isAwaitingUser, StepStatus.isTerminal] at hne ⊢

theorem bucketOf_cases {views : List StepStateView} {v : StepStateView} {b : Bucket}
    (hb : bucketOf views v = b) (hne : b = .dispatchable ∨ b = .newlyBlocked) :
    v.status = .pending ∨ v.status = .ready := by
  subst hb
  unfold bucketOf at hne
  cases hs : v.status <;> rw [hs] at hne <;>
    simp [StepStatus.isInFlight, StepStatus.isAwaitingUser] at hne ⊢

/-- A row whose key is dispatchable or newly blocked is waiting. -/
theorem Distinct.waits_of_mem (h : r.Distinct) (ht : t ∈ r.steps)
    (hkey : t.step_key ∈ (progressOf r.mission r.steps).dispatchable ∨
      t.step_key ∈ (progressOf r.mission r.steps).newlyBlocked) : t.isWaiting = true := by
  rw [isWaiting_iff]
  cases hspec : r.mission.graph_spec with
  | some spec =>
    rw [progressOf_graph hspec] at hkey
    obtain ⟨b, hb, hmem⟩ : ∃ b, (b = .dispatchable ∨ b = .newlyBlocked) ∧
        t.step_key ∈ nodesIn spec (r.steps.map (·.nodeState)) b := by
      cases hkey with
      | inl hkey => exact ⟨_, .inl rfl, hkey⟩
      | inr hkey => exact ⟨_, .inr rfl, hkey⟩
    obtain ⟨node, hnode, hnkey⟩ := List.mem_map.mp hmem
    have hbucket := of_decide_eq_true (List.mem_filter.mp hnode).2
    have hstate := h.stateOf ht
    rw [← hnkey] at hstate
    exact graphBucketOf_cases hstate hbucket hb
  | none =>
    rw [progressOf_wave hspec] at hkey
    obtain ⟨b, hb, hmem⟩ : ∃ b, (b = .dispatchable ∨ b = .newlyBlocked) ∧
        t.step_key ∈ keysIn (waveViews r.steps) b := by
      cases hkey with
      | inl hkey => exact ⟨_, .inl rfl, hkey⟩
      | inr hkey => exact ⟨_, .inr rfl, hkey⟩
    obtain ⟨v, hv, hvkey⟩ := List.mem_map.mp hmem
    obtain ⟨hv, hbucket⟩ := List.mem_filter.mp hv
    obtain ⟨u, hu, rfl⟩ := List.mem_map.mp hv
    obtain rfl : u = t := h.eq hu ht hvkey
    exact bucketOf_cases (of_decide_eq_true hbucket) hb

theorem Sane.nodup_dispatchable (h : r.Sane) :
    (progressOf r.mission r.steps).dispatchable.Nodup := by
  cases hspec : r.mission.graph_spec with
  | some spec =>
    rw [progressOf_graph hspec]
    exact (h.nodes spec hspec).sublist (List.Sublist.map _ List.filter_sublist)
  | none =>
    rw [progressOf_wave hspec]
    have hnd : ((waveViews r.steps).map (·.step_key)).Nodup := by
      rw [keys_waveViews]
      exact h.distinct
    exact hnd.sublist (List.Sublist.map _ List.filter_sublist)

/-- The progress counts every row in flight. -/
theorem Sane.inFlightCount_le (h : r.Sane) :
    r.inFlightCount ≤ (progressOf r.mission r.steps).inFlight.length := by
  have hnd : ((r.steps.filter (·.status.isInFlight)).map (·.step_key)).Nodup :=
    h.distinct.sublist (List.Sublist.map _ List.filter_sublist)
  have hlen : r.inFlightCount =
    ((r.steps.filter (·.status.isInFlight)).map (·.step_key)).length := by
    rw [List.length_map, inFlightCount, List.countP_eq_length_filter]
  rw [hlen]
  refine (List.subperm_of_subset hnd ?_).length_le
  intro k hk
  obtain ⟨t, ht, rfl⟩ := List.mem_map.mp hk
  obtain ⟨ht, hflight⟩ := List.mem_filter.mp ht
  cases hspec : r.mission.graph_spec with
  | some spec =>
    rw [progressOf_graph hspec]
    obtain ⟨node, hnode, hkey⟩ := List.mem_map.mp (h.onGraph spec hspec t ht hflight)
    refine List.mem_map.mpr ⟨node, List.mem_filter.mpr ⟨hnode, decide_eq_true ?_⟩, hkey⟩
    have hstate := h.distinct.stateOf ht
    rw [← hkey] at hstate
    unfold graphBucketOf
    rw [hstate]
    exact if_pos hflight
  | none =>
    rw [progressOf_wave hspec]
    refine List.mem_map.mpr ⟨⟨t.step_key, t.status, some t.depends_on⟩,
      List.mem_filter.mpr ⟨List.mem_map.mpr ⟨t, ht, rfl⟩, decide_eq_true ?_⟩, rfl⟩
    unfold bucketOf
    exact if_pos hflight

/-- A dispatchable key of a graph mission is a node. -/
theorem node_of_dispatchable {spec : GraphSpec} (hspec : r.mission.graph_spec = some spec)
    {key : String} (h : key ∈ (progressOf r.mission r.steps).dispatchable) :
    key ∈ nodeKeysOf spec.nodes := by
  rw [progressOf_graph hspec] at h
  obtain ⟨node, hnode, rfl⟩ := List.mem_map.mp h
  exact List.mem_map.mpr ⟨node, List.mem_of_mem_filter hnode, rfl⟩

/-! ## Candidates -/

theorem mem_candidates (h : t ∈ r.candidates) :
    t ∈ r.steps ∧ t.step_key ∈ (progressOf r.mission r.steps).dispatchable := by
  obtain ⟨k, hk, hstep⟩ := List.mem_filterMap.mp ((List.mem_insertionSort _).mp h)
  obtain ⟨ht, hkey⟩ := stepOf_some hstep
  exact ⟨ht, hkey ▸ hk⟩

/-- Looking up distinct keys gives rows with distinct keys. -/
theorem nodup_filterMap_stepOf {ks : List String} (h : ks.Nodup) :
    ((ks.filterMap r.stepOf).map (·.step_key)).Nodup := by
  have hsub : ((ks.filterMap r.stepOf).map (·.step_key)).Sublist ks := by
    induction ks with
    | nil => exact List.Sublist.refl _
    | cons k ks ih =>
      have hrest := ih (List.nodup_cons.mp h).2
      cases hstep : r.stepOf k with
      | none =>
        rw [List.filterMap_cons_none hstep]
        exact hrest.cons k
      | some s =>
        rw [List.filterMap_cons_some hstep, List.map_cons, (stepOf_some hstep).2]
        exact hrest.cons_cons k
  exact h.sublist hsub

theorem Sane.nodup_candidates (h : r.Sane) : (r.candidates.map (·.step_key)).Nodup :=
  ((List.perm_insertionSort _ _).map _).nodup_iff.mpr (nodup_filterMap_stepOf h.nodup_dispatchable)

end Progress

end Runner

end WorkflowBoard.Orchestration
