import WorkflowBoard.ForStd.List
import WorkflowBoard.Native.GraphTemplates

/-!
# The nodes of a validated graph

A graph that `validateGraphSpec` accepts has exactly one node for each step key of the plan,
whatever the request named, and the budget the request gave. A replan and a patch go through
the same validation, so the graph of a mission always covers its steps.
-/

namespace WorkflowBoard.Orchestration

/-- The keys of the nodes. -/
def nodeKeysOf (nodes : List GraphNode) : List String := nodes.map (·.key)

/-- A graph with exactly the given keys, each once. -/
def Covers (spec : GraphSpec) (keys : List String) : Prop :=
  (nodeKeysOf spec.nodes).Nodup ∧ ∀ k, k ∈ nodeKeysOf spec.nodes ↔ k ∈ keys

section Nodes

variable {planKeys : List String} {seen nodes : List GraphNode}

theorem any_key_eq_true {k : String} :
    nodes.any (·.key = k) = true ↔ k ∈ nodeKeysOf nodes := by
  simp [nodeKeysOf]

theorem checkNode_ok {raw : GraphNodeInput} {node : GraphNode}
    (h : checkNode planKeys seen raw = .ok node) :
    node.key ∈ planKeys ∧ node.key ∉ nodeKeysOf seen := by
  simp only [checkNode, bind_eq_ok, require_eq_ok, orThrow_eq_ok, pure_eq_ok,
    decide_eq_true_eq, Bool.not_eq_true'] at h
  obtain ⟨_, _, _, hplan, _, hnew, _, _, _, _, _, _, rfl⟩ := h
  refine ⟨hplan, fun hmem => ?_⟩
  have hany := any_key_eq_true.mpr hmem
  rw [hnew] at hany
  exact Bool.false_ne_true hany

/-- The loop over the given nodes keeps them distinct and within the plan. -/
theorem checkNodes_ok {raws : List GraphNodeInput} (h : checkNodes planKeys seen raws = .ok nodes)
    (hnd : (nodeKeysOf seen).Nodup) (hsub : ∀ k ∈ nodeKeysOf seen, k ∈ planKeys) :
    (nodeKeysOf nodes).Nodup ∧ ∀ k ∈ nodeKeysOf nodes, k ∈ planKeys := by
  induction raws generalizing seen with
  | nil =>
    cases h
    exact ⟨hnd, hsub⟩
  | cons raw raws ih =>
    simp only [checkNodes, bind_eq_ok] at h
    obtain ⟨node, hnode, hrest⟩ := h
    obtain ⟨hplan, hnew⟩ := checkNode_ok hnode
    have hkeys : nodeKeysOf (seen ++ [node]) = nodeKeysOf seen ++ [node.key] := by
      simp [nodeKeysOf]
    refine ih hrest ?_ ?_
    · rw [hkeys]
      refine List.nodup_append.mpr ⟨hnd, List.nodup_singleton _, ?_⟩
      intro a ha b hb hab
      rw [List.mem_singleton] at hb
      exact hnew (hb ▸ hab ▸ ha)
    · intro k hk
      rw [hkeys, List.mem_append, List.mem_singleton] at hk
      cases hk with
      | inl hk => exact hsub k hk
      | inr hk => exact hk ▸ hplan

theorem nodeKeysOf_fillNode (key : String) :
    nodeKeysOf (fillNode nodes key) =
      if key ∈ nodeKeysOf nodes then nodeKeysOf nodes else nodeKeysOf nodes ++ [key] := by
  unfold fillNode
  by_cases hmem : key ∈ nodeKeysOf nodes
  · rw [if_pos (any_key_eq_true.mpr hmem), if_pos hmem]
  · rw [if_neg fun h => hmem (any_key_eq_true.mp h), if_neg hmem]
    simp [nodeKeysOf]

/-- Every key of the plan has a node once the missing ones are filled in. -/
theorem foldl_fillNode (keys : List String) (hnd : (nodeKeysOf nodes).Nodup) :
    (nodeKeysOf (keys.foldl fillNode nodes)).Nodup ∧
      ∀ k, k ∈ nodeKeysOf (keys.foldl fillNode nodes) ↔ k ∈ nodeKeysOf nodes ∨ k ∈ keys := by
  induction keys generalizing nodes with
  | nil => exact ⟨hnd, by simp⟩
  | cons key keys ih =>
    have hstep : nodeKeysOf (fillNode nodes key) = _ := nodeKeysOf_fillNode key
    rw [List.foldl_cons]
    by_cases hmem : key ∈ nodeKeysOf nodes
    · rw [if_pos hmem] at hstep
      have hnd' : (nodeKeysOf (fillNode nodes key)).Nodup := hstep ▸ hnd
      obtain ⟨hnodup, hall⟩ := ih hnd'
      refine ⟨hnodup, fun k => ?_⟩
      rw [hall, hstep, List.mem_cons]
      constructor
      · rintro (hk | hk)
        · exact .inl hk
        · exact .inr (.inr hk)
      · rintro (hk | rfl | hk)
        · exact .inl hk
        · exact .inl hmem
        · exact .inr hk
    · rw [if_neg hmem] at hstep
      have hnd' : (nodeKeysOf (fillNode nodes key)).Nodup := by
        rw [hstep]
        refine List.nodup_append.mpr ⟨hnd, List.nodup_singleton _, ?_⟩
        intro a ha b hb hab
        rw [List.mem_singleton] at hb
        exact hmem (hb ▸ hab ▸ ha)
      obtain ⟨hnodup, hall⟩ := ih hnd'
      refine ⟨hnodup, fun k => ?_⟩
      rw [hall, hstep, List.mem_append, List.mem_singleton, List.mem_cons, or_assoc]

theorem nodeKeysOf_foldl_raiseCaps (edges loops : List GraphEdge) :
    nodeKeysOf (loops.foldl (raiseCaps edges) nodes) = nodeKeysOf nodes := by
  induction loops generalizing nodes with
  | nil => rfl
  | cons loop loops ih =>
    rw [List.foldl_cons, ih]
    unfold nodeKeysOf raiseCaps
    simp only [List.map_map]
    refine List.map_congr_left fun n _ => ?_
    simp only [Function.comp]
    split <;> rfl

end Nodes

/-! ## Edges -/

section Edges

variable {nodes : List GraphNode}

theorem checkEdge_ok {seen : List GraphEdge} {raw : GraphEdgeInput} {edge : GraphEdge}
    (h : checkEdge nodes seen raw = .ok edge) : edge.target ∈ nodeKeysOf nodes := by
  simp only [checkEdge, bind_eq_ok, require_eq_ok, orThrow_eq_ok, pure_eq_ok] at h
  obtain ⟨_, _, _, htarget, _, _, _, _, _, _, _, _, _, _, rfl⟩ := h
  exact any_key_eq_true.mp htarget

theorem checkEdges_ok {seen edges : List GraphEdge} {raws : List GraphEdgeInput}
    (h : checkEdges nodes seen raws = .ok edges)
    (hseen : ∀ e ∈ seen, e.target ∈ nodeKeysOf nodes) :
    ∀ e ∈ edges, e.target ∈ nodeKeysOf nodes := by
  induction raws generalizing seen with
  | nil =>
    cases h
    exact hseen
  | cons raw raws ih =>
    simp only [checkEdges, bind_eq_ok] at h
    obtain ⟨edge, hedge, hrest⟩ := h
    refine ih hrest fun e he => ?_
    rw [List.mem_append, List.mem_singleton] at he
    cases he with
    | inl he => exact hseen e he
    | inr he => exact he ▸ checkEdge_ok hedge

theorem forwardPairs_target {edges : List GraphEdge}
    (h : ∀ e ∈ edges, e.target ∈ nodeKeysOf nodes) :
    ∀ p ∈ forwardPairs edges, p.2 ∈ nodeKeysOf nodes := by
  intro p hp
  obtain ⟨e, he, rfl⟩ := List.mem_map.mp hp
  exact h e (List.mem_of_mem_filter he)

/-- Looking up keys that have a node gives nodes with these keys, in order. -/
theorem nodeKeysOf_filterMap {keys : List String} (h : ∀ k ∈ keys, k ∈ nodeKeysOf nodes) :
    nodeKeysOf (keys.filterMap (nodeOf nodes)) = keys := by
  induction keys with
  | nil => rfl
  | cons k keys ih =>
    obtain ⟨n, hn, hkey⟩ : ∃ n, nodeOf nodes k = some n ∧ n.key = k := by
      obtain ⟨n, hn, rfl⟩ := List.mem_map.mp (h k List.mem_cons_self)
      cases hfind : nodeOf nodes n.key with
      | none =>
        have := List.find?_eq_none.mp hfind n hn
        simp at this
      | some m => exact ⟨m, rfl, by simpa using List.find?_some hfind⟩
    have hrest := ih fun j hj => h j (List.mem_cons_of_mem _ hj)
    rw [List.filterMap_cons_some hn]
    unfold nodeKeysOf at hrest ⊢
    rw [List.map_cons, hkey, hrest]

end Edges

/-! ## `validateGraphSpec` -/

section Validated

variable {input : GraphSpecInput} {nodeKeys : List String} {policy : ConfirmPolicy}
  {spec : GraphSpec}

/-- The phases of an accepted validation that the results below speak about. -/
theorem validateGraphSpec_ok (h : validateGraphSpec input nodeKeys policy = .ok spec) :
    ∃ given edges nodes loops,
      checkNodes nodeKeys [] input.nodes = .ok given ∧
      checkEdges (nodeKeys.foldl fillNode given) [] input.edges = .ok edges ∧
      (KahnQueue.order (nodeKeysOf (nodeKeys.foldl fillNode given)) (forwardPairs edges)).length =
        (nodeKeysOf (nodeKeys.foldl fillNode given)).length ∧
      checkBudget input.max_total_visits (nodeKeys.foldl fillNode given).length loops =
        .ok spec.max_total_visits ∧
      nodeKeysOf nodes = nodeKeysOf (nodeKeys.foldl fillNode given) ∧
      spec.nodes = (KahnQueue.order (nodeKeysOf (nodeKeys.foldl fillNode given))
        (forwardPairs edges)).filterMap (nodeOf nodes) := by
  simp only [validateGraphSpec, bind_eq_ok, require_eq_ok, pure_eq_ok] at h
  obtain ⟨_, _, _, _, given, hgiven, edges, hedges, _, hlen, _, _, budget, hbudget, _, _, _, _, _,
    _, rfl⟩ := h
  refine ⟨given, edges, _, _, hgiven, hedges, of_decide_eq_true hlen, hbudget, ?_, rfl⟩
  exact nodeKeysOf_foldl_raiseCaps _ _

/-- The nodes of an accepted graph are the steps of the plan. -/
theorem nodes_validateGraphSpec (h : validateGraphSpec input nodeKeys policy = .ok spec) :
    Covers spec nodeKeys := by
  obtain ⟨given, edges, nodes, _, hgiven, hedges, hlen, _, hnodes, hspec⟩ :=
    validateGraphSpec_ok h
  obtain ⟨hnd, hsub⟩ := checkNodes_ok hgiven List.nodup_nil (by simp [nodeKeysOf])
  obtain ⟨hnodup, hall⟩ := foldl_fillNode nodeKeys hnd
  have hpairs := forwardPairs_target (checkEdges_ok hedges (by simp))
  have horder : ∀ k ∈ KahnQueue.order (nodeKeysOf (nodeKeys.foldl fillNode given))
      (forwardPairs edges), k ∈ nodeKeysOf nodes := by
    intro k hk
    rw [hnodes]
    exact KahnQueue.order_subset hnodup hpairs hk
  have hkeys : nodeKeysOf spec.nodes =
      KahnQueue.order (nodeKeysOf (nodeKeys.foldl fillNode given)) (forwardPairs edges) := by
    rw [hspec]
    exact nodeKeysOf_filterMap horder
  refine ⟨?_, fun k => ?_⟩
  · rw [hkeys]
    exact KahnQueue.order_nodup hnodup hpairs
  · rw [hkeys, KahnQueue.mem_order hnodup hpairs hlen, hall]
    constructor
    · rintro (hk | hk)
      · exact hsub k hk
      · exact hk
    · exact .inr

theorem nodes_expandGraphTemplate {name : String} {params : GraphTemplateParams}
    (h : expandGraphTemplate name params nodeKeys policy = .ok spec) : Covers spec nodeKeys := by
  simp only [expandGraphTemplate, bind_eq_ok, orThrow_eq_ok, require_eq_ok] at h
  obtain ⟨_, _, _, _, _, _, hvalid⟩ := h
  split at hvalid
  · cases hvalid
  · rename_i hspec
    cases hvalid
    exact nodes_validateGraphSpec hspec

end Validated

/-! ## Replans and patches -/

/-- Keys the plan may use are not changed by trimming and are not empty. -/
def Trimmed (keys : List String) : Prop := ∀ k ∈ keys, trimText k = k ∧ k ≠ ""

theorem Trimmed.map_filter {keys : List String} (h : Trimmed keys) :
    (keys.map trimText).filter (· ≠ "") = keys := by
  have hmap : keys.map trimText = keys := by
    conv_rhs => rw [← List.map_id keys]
    exact List.map_congr_left fun k hk => (h k hk).1
  rw [hmap, List.filter_eq_self]
  intro k hk
  exact decide_eq_true (h k hk).2

section Replan

variable {spec next : GraphSpec} {nodeKeys : List String} {policy : ConfirmPolicy}

theorem nodes_graphFromWavePlan {steps : List WaveStepInput}
    (htrim : Trimmed (steps.map (·.step_key))) (h : graphFromWavePlan steps = .ok next) :
    Covers next (steps.map (·.step_key)) := by
  unfold graphFromWavePlan at h
  dsimp only at h
  have hkeys : (steps.map (trimText ·.step_key)).filter (· ≠ "") = steps.map (·.step_key) := by
    have := htrim.map_filter
    rwa [List.map_map] at this
  split at h
  · cases h
  · rename_i hvalid
    cases h
    rw [← hkeys]
    exact nodes_validateGraphSpec hvalid

theorem carry_eq (htrim : Trimmed nodeKeys) (hnd : nodeKeys.Nodup) :
    ((nodeKeys.map trimText).filter (· ≠ "")).eraseDups = nodeKeys := by
  rw [htrim.map_filter]
  exact eraseDups_of_nodup hnd

theorem nodes_carryGraphThroughReplan (htrim : Trimmed nodeKeys) (hnd : nodeKeys.Nodup)
    (h : carryGraphThroughReplan spec nodeKeys policy = .ok next) : Covers next nodeKeys := by
  unfold carryGraphThroughReplan at h
  dsimp only at h
  rw [carry_eq htrim hnd] at h
  exact nodes_validateGraphSpec h

theorem applyGraphPatch_ok {patch : GraphPatchInput} {runtime : GraphRuntimeState}
    {changes : List GraphPatchChange}
    (h : applyGraphPatch spec patch nodeKeys runtime policy = .ok (next, changes)) :
    Covers next nodeKeys ∧ runtime.total_visits ≤ next.max_total_visits := by
  simp only [applyGraphPatch, bind_eq_ok, require_eq_ok] at h
  obtain ⟨_, _, _, _, _, _, _, _, h⟩ := h
  split at h
  · simp only [bind_eq_ok, reduceCtorEq, false_and, exists_false] at h
  · rename_i spec' hvalid
    simp only [bind_eq_ok, require_eq_ok, pure_eq_ok, decide_eq_true_eq] at h
    obtain ⟨_, hspec, _, _, _, hused, heq⟩ := h
    cases hspec
    obtain ⟨rfl, -⟩ := Prod.mk.inj heq
    exact ⟨nodes_validateGraphSpec hvalid, hused⟩

end Replan

end WorkflowBoard.Orchestration
