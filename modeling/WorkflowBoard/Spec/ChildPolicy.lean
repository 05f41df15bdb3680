import WorkflowBoard.ForStd.Transition
import WorkflowBoard.Native.CollaborationGovernor

/-!
# Children within the session's policy

Whatever calls come for however many sessions, the children of a session stay within its depth, its
concurrency and its budget, and a call that throws changes nothing. Of the tools and skills that a
raw request names, the first hundred are checked; what stands behind them is cut off before. So the
child of a request is within the policy if what is cut off is.
-/

namespace WorkflowBoard.AgentManager

/-! ## What an input names -/

/-- All that a list names; `strings` gives the first hundred of them. -/
def named (value : Option Json) : List String :=
  match value with
  | some (.arr items) => ((items.filterMap stringEntry).map trimText).filter (· ≠ "")
  | _ => []

theorem strings_eq_take (value : Option Json) : strings value = (named value).take 100 := by
  unfold strings named
  split <;> simp

/-- The tools that the raw request names. -/
def ChildCall.tools (child : ChildCall) : List String :=
  named (nullishOr (child.raw.lookup "tools") (child.raw.lookup "allowed_tools"))

/-- The skills that the raw request names. -/
def ChildCall.skills (child : ChildCall) : List String :=
  named (nullishOr (child.raw.lookup "skills") (child.raw.lookup "skill_ids"))

/-- The names that the configuration has under the key. -/
def AgentRuntimeConfig.allowed (config : AgentRuntimeConfig) (key : String) : List String :=
  named ((config.extra.getD []).lookup key)

@[simp] theorem requestFrom_tools (child : ChildCall) :
    (requestFrom child).tools = child.tools.take 100 :=
  strings_eq_take _

@[simp] theorem requestFrom_skills (child : ChildCall) :
    (requestFrom child).skills = child.skills.take 100 :=
  strings_eq_take _

variable {config : AgentRuntimeConfig}

theorem mem_allowed {key name : String}
    (h : name ∈ config.configuredSet key) : name ∈ config.allowed key := by
  rw [AgentRuntimeConfig.configuredSet, strings_eq_take] at h
  exact List.mem_of_mem_take h

/-! ## The policy -/

/-- The configuration grants the tools and skills to a child. -/
structure Granted (config : AgentRuntimeConfig) (tools skills : List String) : Prop where
  tool : ∀ t ∈ tools, t ∈ config.allowed "allowed_child_tools" ∧ t ∉ childForbiddenTools
  skill : ∀ s ∈ skills, s ∈ config.allowed "allowed_child_skills"

theorem granted_append {tools tools' skills skills' : List String} :
    Granted config (tools ++ tools') (skills ++ skills') ↔
      Granted config tools skills ∧ Granted config tools' skills' := by
  constructor
  · intro h
    constructor
    · exact ⟨fun t ht => h.tool t (by simp [ht]), fun s hs => h.skill s (by simp [hs])⟩
    · exact ⟨fun t ht => h.tool t (by simp [ht]), fun s hs => h.skill s (by simp [hs])⟩
  · intro ⟨h, h'⟩
    constructor
    · intro t ht
      exact (List.mem_append.mp ht).elim (h.tool t) (h'.tool t)
    · intro s hs
      exact (List.mem_append.mp hs).elim (h.skill s) (h'.skill s)

/-- What is cut off from the raw request is granted. -/
def ChildCall.RestGranted (child : ChildCall) (config : AgentRuntimeConfig) : Prop :=
  Granted config (child.tools.drop 100) (child.skills.drop 100)

/-- A request whose first hundred names are granted is granted if and only if the others are. -/
theorem granted_iff {child : ChildCall}
    (h : Granted config (requestFrom child).tools (requestFrom child).skills) :
    Granted config child.tools child.skills ↔ child.RestGranted config := by
  have hsplit : Granted config child.tools child.skills ↔
      Granted config (child.tools.take 100) (child.skills.take 100) ∧ child.RestGranted config := by
    rw [ChildCall.RestGranted, ← granted_append, List.take_append_drop, List.take_append_drop]
  simp only [requestFrom_tools, requestFrom_skills] at h
  simp [hsplit, h]

/-- The session has room for the child, and the checked names are granted. -/
structure Admissible (config : AgentRuntimeConfig) (state : SessionState) (request : ChildRequest) :
    Prop where
  depth : request.depth ≤ config.maxDepth
  concurrency : (state.active.size : Int) < config.maxConcurrency
  children : state.total < config.maxChildren
  iterations : state.total < config.maxIterations
  granted : Granted config request.tools request.skills

theorem maxConcurrency_nonneg (config : AgentRuntimeConfig) : 0 ≤ config.maxConcurrency := by
  unfold AgentRuntimeConfig.maxConcurrency integer
  split
  · split <;> omega
  · omega

/-- The session with a child more. -/
def SessionState.withChild (state : SessionState) (request : ChildRequest) : SessionState where
  total := state.total + 1
  active := state.active.set request.childId request

/-- The session with a child less that is active. -/
def SessionState.finish (state : SessionState) (childId : String) : SessionState :=
  { state with active := state.active.delete childId }

/-- The child that a call is about: a permission request is about one if its tool starts one. -/
def CollaborationMethod.child : CollaborationMethod → Option ChildCall
  | .reservePermission toolCall _ => toolCall.filter fun c => isChildTool c.title c.kind
  | .observeStarted event _ => some event
  | .finish _ => none
  | .clear => none

theorem CollaborationMethod.ne_clear {method : CollaborationMethod} {child : ChildCall}
    (h : method.child = some child) : method ≠ .clear := by
  rintro rfl
  cases h

namespace CollaborationGovernor

variable {config : AgentRuntimeConfig} {configs : String → AgentRuntimeConfig}
variable {g g' : CollaborationGovernor} {key other : String} {state : SessionState}
variable {request : ChildRequest} {call : CollaborationCall}

/-- Put the state of a session. -/
def withSession (g : CollaborationGovernor) (key : String) (state : SessionState) :
    CollaborationGovernor :=
  { g with sessions := g.sessions.set key state }

@[simp] theorem session_withSession : (g.withSession key state).session key = state := by
  simp [withSession, session, InsertMap.get_set_self]

theorem session_withSession_other (h : other ≠ key) :
    (g.withSession key state).session other = g.session other := by
  simp [withSession, session, InsertMap.get_set_other h]

@[simp] theorem session_clear : (g.clear key).session key = {} := by
  simp [clear, session, InsertMap.get_delete_self]

theorem session_clear_other (h : other ≠ key) : (g.clear key).session other = g.session other := by
  simp [clear, session, InsertMap.get_delete_other h]

/-! ## What one call does -/

/-- A request is turned down and changes nothing, or is one of an active child again, or admits a
    child for which there is room. -/
theorem reserve_cases (g : CollaborationGovernor) (key : String) (config : AgentRuntimeConfig)
    (request : ChildRequest) (hostHealthy : Bool) :
    (∃ e, g.reserve key config request hostHealthy = (.error e, g)) ∨
    (∃ child, (g.session key).active.get request.childId = some child ∧
      g.reserve key config request hostHealthy = (.ok child, g)) ∨
    ((g.session key).active.get request.childId = none ∧
      Admissible config (g.session key) request ∧
      g.reserve key config request hostHealthy =
        (.ok request, g.withSession key ((g.session key).withChild request))) := by
  unfold reserve
  by_cases hsingle : config.strategy = .single
  · exact .inl ⟨_, by rw [if_pos hsingle]⟩
  rw [if_neg hsingle]
  cases hstrategy : assertStrategy config hostHealthy with
  | error e => exact .inl ⟨e, rfl⟩
  | ok _ =>
    cases hactive : (g.session key).active.get request.childId with
    | some child => exact .inr (.inl ⟨child, rfl, by simp [hactive]⟩)
    | none =>
      simp only [hactive]
      -- the checks, in the order of the source
      split
      · exact .inl ⟨_, rfl⟩
      split
      · exact .inl ⟨_, rfl⟩
      split
      · exact .inl ⟨_, rfl⟩
      split
      · exact .inl ⟨_, rfl⟩
      split
      · exact .inl ⟨_, rfl⟩
      split
      · exact .inl ⟨_, rfl⟩
      split
      · exact .inl ⟨_, rfl⟩
      rename_i hdepth hconcurrency hchildren hiterations htools hforbidden hskills
      refine .inr (.inr ⟨trivial, ⟨?_, ?_, ?_, ?_, ?_, ?_⟩, rfl⟩)
      · omega
      · omega
      · omega
      · omega
      · intro t ht
        constructor
        · apply mem_allowed
          by_contra hnot
          apply htools
          simpa using ⟨t, ht, hnot⟩
        · intro hmem
          apply hforbidden
          simpa using ⟨t, ht, hmem⟩
      · intro s hs
        apply mem_allowed
        by_contra hnot
        apply hskills
        simpa using ⟨s, hs, hnot⟩

/-- A call reserves the request of its child, or passes by, or ends a child or a session. -/
theorem act_cases (configs : String → AgentRuntimeConfig) (g : CollaborationGovernor)
    (call : CollaborationCall) :
    (∃ child hostHealthy, call.method.child = some child ∧
      g.act configs call =
        (some (Except.map some (g.reserve call.sessionKey (configs call.sessionKey)
            (requestFrom child) hostHealthy).1),
          (g.reserve call.sessionKey (configs call.sessionKey) (requestFrom child)
            hostHealthy).2)) ∨
    (call.method ≠ .clear ∧ g.act configs call = (some (.ok none), g)) ∨
    (∃ childId, call.method = .finish childId ∧
      g.act configs call = (none, g.finish call.sessionKey childId)) ∨
    (call.method = .clear ∧ g.act configs call = (none, g.clear call.sessionKey)) := by
  obtain ⟨key, method⟩ := call
  cases method with
  | reservePermission toolCall hostHealthy =>
    cases toolCall with
    | none => exact .inr (.inl ⟨nofun, rfl⟩)
    | some child =>
      by_cases htool : isChildTool child.title child.kind = true
      · exact .inl ⟨child, hostHealthy, by simp [CollaborationMethod.child, htool],
          by simp [act, reservePermission, htool]⟩
      · exact .inr (.inl ⟨nofun, by simp [act, reservePermission, htool]⟩)
  | observeStarted event hostHealthy => exact .inl ⟨event, hostHealthy, rfl, rfl⟩
  | finish childId => exact .inr (.inr (.inl ⟨childId, rfl, rfl⟩))
  | clear => exact .inr (.inr (.inr ⟨rfl, rfl⟩))

theorem act_error {e : CollaborationPolicyError} (h : (g.act configs call).1 = some (.error e)) :
    (g.act configs call).2 = g := by
  obtain ⟨child, hostHealthy, -, heq⟩ | ⟨-, heq⟩ | ⟨childId, -, heq⟩ | ⟨-, heq⟩ :=
    act_cases configs g call
  · rw [heq] at h ⊢
    obtain ⟨e, hr⟩ | ⟨dup, -, hr⟩ | ⟨-, -, hr⟩ :=
      reserve_cases g call.sessionKey (configs call.sessionKey) (requestFrom child) hostHealthy
    · simp [hr]
    · simp [hr]
    · simp [hr, Except.map] at h
  · rw [heq]
  · simp [heq] at h
  · simp [heq] at h

end CollaborationGovernor

/-! ## Runs -/

/-- A child that was admitted, with its raw request. -/
structure Admission where
  sessionKey : String
  child : ChildCall

/-- The governor, and the admissions of the sessions so far. A session that is cleared is over. -/
structure CollaborationRun where
  governor : CollaborationGovernor
  admitted : List Admission

namespace CollaborationRun

/-- The call makes a child active that was not. -/
def admits (configs : String → AgentRuntimeConfig) (g : CollaborationGovernor)
    (call : CollaborationCall) (child : ChildCall) : Bool :=
  let childId := (requestFrom child).childId
  ((g.session call.sessionKey).active.get childId).isNone &&
    (((g.act configs call).2.session call.sessionKey).active.get childId).isSome

def next (configs : String → AgentRuntimeConfig) (s : CollaborationRun)
    (call : CollaborationCall) : CollaborationRun where
  governor := (s.governor.act configs call).2
  admitted :=
    match call.method with
    | .clear => s.admitted.filter fun a => a.sessionKey ≠ call.sessionKey
    | method =>
      s.admitted ++ (method.child.toList.filter (admits configs s.governor call)).map
        fun child => { sessionKey := call.sessionKey, child }

end CollaborationRun

/-- The governor under any calls for any sessions, each with its own fixed configuration. -/
def collaboration (configs : String → AgentRuntimeConfig) :
    Transition CollaborationRun CollaborationCall where
  init s := s = { governor := {}, admitted := [] }
  step s call s' := s' = s.next configs call

/-- What one call can do. -/
inductive CollaborationStep (configs : String → AgentRuntimeConfig) (s : CollaborationRun)
    (call : CollaborationCall) : CollaborationRun → Prop
  | stays : CollaborationStep configs s call s
  | admits {child : ChildCall} (hchild : call.method.child = some child)
      (hfresh : (s.governor.session call.sessionKey).active.get (requestFrom child).childId = none)
      (hroom : Admissible (configs call.sessionKey) (s.governor.session call.sessionKey)
        (requestFrom child)) :
      CollaborationStep configs s call
        { governor := s.governor.withSession call.sessionKey
            ((s.governor.session call.sessionKey).withChild (requestFrom child))
          admitted := s.admitted ++ [{ sessionKey := call.sessionKey, child }] }
  | finishes (childId : String) :
      CollaborationStep configs s call
        { s with
          governor := s.governor.withSession call.sessionKey
            ((s.governor.session call.sessionKey).finish childId) }
  | clears :
      CollaborationStep configs s call
        { governor := s.governor.clear call.sessionKey
          admitted := s.admitted.filter fun a => a.sessionKey ≠ call.sessionKey }

namespace CollaborationRun

variable {configs : String → AgentRuntimeConfig} {s : CollaborationRun} {call : CollaborationCall}
variable {child : ChildCall}

theorem next_eq (hchild : call.method.child = some child) :
    s.next configs call =
      { governor := (s.governor.act configs call).2
        admitted := s.admitted ++ ([child].filter (admits configs s.governor call)).map
          fun child => { sessionKey := call.sessionKey, child } } := by
  unfold next
  split
  · rename_i hclear
    rw [hclear] at hchild
    cases hchild
  · rw [hchild, Option.toList_some]

theorem next_of_unchanged (hmethod : call.method ≠ .clear)
    (h : (s.governor.act configs call).2 = s.governor) : s.next configs call = s := by
  cases hchild : call.method.child with
  | none =>
    unfold next
    split
    · contradiction
    · simp [h, hchild]
  | some child =>
    have hnot : admits configs s.governor call child = false := by
      simp only [admits, h]
      cases (s.governor.session call.sessionKey).active.get (requestFrom child).childId <;> rfl
    simp [next_eq hchild, h, hnot]

theorem next_of_admitted (hchild : call.method.child = some child)
    (hfresh : (s.governor.session call.sessionKey).active.get (requestFrom child).childId = none)
    (h : (s.governor.act configs call).2 = s.governor.withSession call.sessionKey
      ((s.governor.session call.sessionKey).withChild (requestFrom child))) :
    s.next configs call =
      { governor := s.governor.withSession call.sessionKey
          ((s.governor.session call.sessionKey).withChild (requestFrom child))
        admitted := s.admitted ++ [{ sessionKey := call.sessionKey, child }] } := by
  have hadmits : admits configs s.governor call child = true := by
    simp [admits, h, hfresh, SessionState.withChild, InsertMap.get_set_self]
  simp [next_eq hchild, h, hadmits]

theorem step_next (configs : String → AgentRuntimeConfig) (s : CollaborationRun)
    (call : CollaborationCall) : CollaborationStep configs s call (s.next configs call) := by
  obtain ⟨child, hostHealthy, hchild, hact⟩ | ⟨hmethod, hact⟩ | ⟨childId, hmethod, hact⟩ |
    ⟨hmethod, hact⟩ := s.governor.act_cases configs call
  · have hclear := CollaborationMethod.ne_clear hchild
    obtain ⟨e, hr⟩ | ⟨dup, -, hr⟩ | ⟨hfresh, hroom, hr⟩ :=
      s.governor.reserve_cases call.sessionKey (configs call.sessionKey) (requestFrom child)
        hostHealthy
    · rw [next_of_unchanged hclear (by rw [hact, hr])]
      exact .stays
    · rw [next_of_unchanged hclear (by rw [hact, hr])]
      exact .stays
    · rw [next_of_admitted hchild hfresh (by rw [hact, hr])]
      exact .admits hchild hfresh hroom
  · rw [next_of_unchanged hmethod (by rw [hact])]
    exact .stays
  · have hnext : s.next configs call =
        { s with governor := s.governor.finish call.sessionKey childId } := by
      simp [next, hact, hmethod, CollaborationMethod.child]
    rw [hnext]
    cases hsession : s.governor.sessions.get call.sessionKey with
    | none =>
      simp only [CollaborationGovernor.finish, hsession]
      exact .stays
    | some state =>
      have hstate : s.governor.session call.sessionKey = state := by
        simp [CollaborationGovernor.session, hsession]
      simp only [CollaborationGovernor.finish, hsession]
      rw [← hstate]
      exact .finishes childId
  · have hnext : s.next configs call =
        { governor := s.governor.clear call.sessionKey
          admitted := s.admitted.filter fun a => a.sessionKey ≠ call.sessionKey } := by
      simp [next, hact, hmethod]
    rw [hnext]
    exact .clears

end CollaborationRun

/-! ## Bounds -/

/-- The sessions are within their bounds. The children that are active are admitted ones. -/
structure WithinBounds (configs : String → AgentRuntimeConfig) (s : CollaborationRun) : Prop where
  depth : ∀ a ∈ s.admitted, (requestFrom a.child).depth ≤ (configs a.sessionKey).maxDepth
  concurrency : ∀ key,
    ((s.governor.session key).active.size : Int) ≤ (configs key).maxConcurrency
  total : ∀ key, (s.governor.session key).total = s.admitted.countP (·.sessionKey = key)
  budget : ∀ key, (s.governor.session key).total ≤
    min (configs key).maxChildren (configs key).maxIterations
  active : ∀ key childId request,
    (s.governor.session key).active.get childId = some request →
      ∃ a ∈ s.admitted, a.sessionKey = key ∧ requestFrom a.child = request

/-- The names that were checked are granted. -/
def Checked (configs : String → AgentRuntimeConfig) (s : CollaborationRun) : Prop :=
  ∀ a ∈ s.admitted,
    Granted (configs a.sessionKey) (requestFrom a.child).tools (requestFrom a.child).skills

section Invariants

variable {configs : String → AgentRuntimeConfig} {s s' : CollaborationRun}
variable {call : CollaborationCall}

theorem Checked.step (h : Checked configs s) (hstep : CollaborationStep configs s call s') :
    Checked configs s' := by
  cases hstep with
  | stays => exact h
  | admits hchild hfresh hroom =>
    intro a ha
    obtain ha | ha := List.mem_append.mp ha
    · exact h a ha
    · obtain rfl := List.mem_singleton.mp ha
      exact hroom.granted
  | finishes childId => exact h
  | clears => exact fun a ha => h a (List.mem_of_mem_filter ha)

theorem WithinBounds.step (h : WithinBounds configs s)
    (hstep : CollaborationStep configs s call s') : WithinBounds configs s' := by
  cases hstep with
  | stays => exact h
  | @admits child hchild hfresh hroom =>
    constructor
    case depth =>
      intro a ha
      obtain ha | ha := List.mem_append.mp ha
      · exact h.depth a ha
      · obtain rfl := List.mem_singleton.mp ha
        exact hroom.depth
    case concurrency =>
      intro key
      by_cases hkey : key = call.sessionKey
      · subst hkey
        have hlt := hroom.concurrency
        simp only [CollaborationGovernor.session_withSession, SessionState.withChild,
          InsertMap.size_set_of_none hfresh]
        omega
      · rw [CollaborationGovernor.session_withSession_other hkey]
        exact h.concurrency key
    case total =>
      intro key
      rw [List.countP_append, ← h.total key]
      by_cases hkey : key = call.sessionKey
      · subst hkey
        simp [SessionState.withChild]
      · rw [CollaborationGovernor.session_withSession_other hkey]
        simp [Ne.symm hkey]
    case budget =>
      intro key
      by_cases hkey : key = call.sessionKey
      · subst hkey
        have hchildren := hroom.children
        have hiterations := hroom.iterations
        simp only [CollaborationGovernor.session_withSession, SessionState.withChild]
        omega
      · rw [CollaborationGovernor.session_withSession_other hkey]
        exact h.budget key
    case active =>
      intro key childId request hget
      by_cases hkey : key = call.sessionKey
      · subst hkey
        simp only [CollaborationGovernor.session_withSession, SessionState.withChild] at hget
        by_cases hid : childId = (requestFrom child).childId
        · rw [hid, InsertMap.get_set_self] at hget
          exact ⟨_, List.mem_append_right _ (List.mem_singleton_self _), rfl,
            Option.some.inj hget⟩
        · rw [InsertMap.get_set_other hid] at hget
          obtain ⟨a, ha, hsame⟩ := h.active _ _ _ hget
          exact ⟨a, List.mem_append_left _ ha, hsame⟩
      · rw [CollaborationGovernor.session_withSession_other hkey] at hget
        obtain ⟨a, ha, hsame⟩ := h.active _ _ _ hget
        exact ⟨a, List.mem_append_left _ ha, hsame⟩
  | finishes id =>
    -- the session that the call is for has lost a child, and no admission is undone
    have hsession : ∀ key,
        (s.governor.withSession call.sessionKey
          ((s.governor.session call.sessionKey).finish id)).session key =
        if key = call.sessionKey then (s.governor.session key).finish id
        else s.governor.session key := by
      intro key
      by_cases hkey : key = call.sessionKey
      · subst hkey
        simp
      · rw [CollaborationGovernor.session_withSession_other hkey, if_neg hkey]
    constructor
    case depth => exact h.depth
    case concurrency =>
      intro key
      have hle := h.concurrency key
      have hless := InsertMap.size_delete_le (s.governor.session key).active id
      rw [hsession]
      split
      · simp only [SessionState.finish]
        omega
      · exact hle
    case total =>
      intro key
      rw [hsession, ← h.total key]
      split <;> rfl
    case budget =>
      intro key
      rw [hsession]
      have hle := h.budget key
      split
      · exact hle
      · exact hle
    case active =>
      intro key childId request hget
      apply h.active key childId request
      rw [hsession] at hget
      split at hget
      · simp only [SessionState.finish] at hget
        by_cases hid : childId = id
        · rw [hid, InsertMap.get_delete_self] at hget
          cases hget
        · rwa [InsertMap.get_delete_other hid] at hget
      · exact hget
  | clears =>
    constructor
    case depth => exact fun a ha => h.depth a (List.mem_of_mem_filter ha)
    case concurrency =>
      intro key
      by_cases hkey : key = call.sessionKey
      · subst hkey
        simpa [InsertMap.size] using maxConcurrency_nonneg (configs call.sessionKey)
      · rw [CollaborationGovernor.session_clear_other hkey]
        exact h.concurrency key
    case total =>
      intro key
      rw [List.countP_filter]
      by_cases hkey : key = call.sessionKey
      · subst hkey
        simp
      · rw [CollaborationGovernor.session_clear_other hkey, h.total key]
        apply List.countP_congr
        intro a ha
        simp only [decide_eq_true_eq, Bool.and_eq_true, iff_self_and]
        rintro rfl
        exact hkey
    case budget =>
      intro key
      by_cases hkey : key = call.sessionKey
      · subst hkey
        simp
      · rw [CollaborationGovernor.session_clear_other hkey]
        exact h.budget key
    case active =>
      intro key childId request hget
      by_cases hkey : key = call.sessionKey
      · subst hkey
        simp [InsertMap.get] at hget
      · rw [CollaborationGovernor.session_clear_other hkey] at hget
        obtain ⟨a, ha, rfl, hrequest⟩ := h.active _ _ _ hget
        exact ⟨a, List.mem_filter.mpr ⟨ha, by simpa using hkey⟩, rfl, hrequest⟩

/-- The answer to a call is a child that is active already, or is admitted by it. -/
theorem WithinBounds.answered {request : ChildRequest} (h : WithinBounds configs s)
    (hact : (s.governor.act configs call).1 = some (.ok (some request))) :
    ∃ a ∈ (s.next configs call).admitted,
      a.sessionKey = call.sessionKey ∧ requestFrom a.child = request := by
  obtain ⟨child, hostHealthy, hchild, heq⟩ | ⟨-, heq⟩ | ⟨childId, -, heq⟩ | ⟨-, heq⟩ :=
    s.governor.act_cases configs call
  · have hclear := CollaborationMethod.ne_clear hchild
    rw [heq] at hact
    obtain ⟨e, hr⟩ | ⟨dup, hdup, hr⟩ | ⟨hfresh, -, hr⟩ :=
      s.governor.reserve_cases call.sessionKey (configs call.sessionKey) (requestFrom child)
        hostHealthy
    · rw [hr] at hact
      cases hact
    · rw [CollaborationRun.next_of_unchanged hclear (by rw [heq, hr])]
      apply h.active call.sessionKey (requestFrom child).childId request
      rw [hr] at hact
      simp only [Except.map, Option.some.injEq, Except.ok.injEq] at hact
      rw [hdup, hact]
    · rw [CollaborationRun.next_of_admitted hchild hfresh (by rw [heq, hr])]
      rw [hr] at hact
      simp only [Except.map, Option.some.injEq, Except.ok.injEq] at hact
      exact ⟨_, List.mem_append_right _ (List.mem_singleton_self _), rfl, hact⟩
  · simp [heq] at hact
  · simp [heq] at hact
  · simp [heq] at hact

theorem withinBounds_init (configs : String → AgentRuntimeConfig) :
    WithinBounds configs { governor := {}, admitted := [] } where
  depth := nofun
  concurrency key := by
    simpa [CollaborationGovernor.session, InsertMap.get, InsertMap.size] using
      maxConcurrency_nonneg (configs key)
  total key := by simp [CollaborationGovernor.session, InsertMap.get]
  budget key := by simp [CollaborationGovernor.session, InsertMap.get]
  active key childId request hget := by
    simp [CollaborationGovernor.session, InsertMap.get] at hget

theorem withinBounds_of_reachable (h : (collaboration configs).Reachable s) :
    WithinBounds configs s ∧ Checked configs s := by
  apply h.invariant
  · rintro s rfl
    exact ⟨withinBounds_init configs, nofun⟩
  · rintro s call s' - ⟨hbounds, hchecked⟩ rfl
    have hstep := s.step_next configs call
    exact ⟨hbounds.step hstep, hchecked.step hstep⟩

end Invariants

/-! ## The policy -/

/-- A request for a child that is not active names nothing behind the first hundred tools and skills
    that the configuration does not grant. -/
def RestsGranted (configs : String → AgentRuntimeConfig) (s : CollaborationRun)
    (call : CollaborationCall) : Prop :=
  ∀ child, call.method.child = some child →
    (s.governor.session call.sessionKey).active.get (requestFrom child).childId = none →
      child.RestGranted (configs call.sessionKey)

/-- The policy: the sessions are within their bounds, and every name of the raw request of a child
    that was admitted is granted. -/
structure PolicyKept (configs : String → AgentRuntimeConfig) (s : CollaborationRun) : Prop
    extends WithinBounds configs s where
  granted : ∀ a ∈ s.admitted, Granted (configs a.sessionKey) a.child.tools a.child.skills

/-- The runs whose requests all name only what is granted behind the names that are checked. -/
def grantedCollaboration (configs : String → AgentRuntimeConfig) :
    Transition CollaborationRun CollaborationCall :=
  (collaboration configs).restrict fun s call _ => RestsGranted configs s call

theorem restGranted_of_admitted {configs : String → AgentRuntimeConfig} {s : CollaborationRun}
    (h : (grantedCollaboration configs).Reachable s) :
    ∀ a ∈ s.admitted, a.child.RestGranted (configs a.sessionKey) := by
  apply h.invariant
  · rintro s rfl
    exact nofun
  · rintro s call s' - hs ⟨rfl, hrest⟩
    have hstep := s.step_next configs call
    generalize s.next configs call = s' at hstep
    cases hstep with
    | stays => exact hs
    | admits hchild hfresh hroom =>
      intro a ha
      obtain ha | ha := List.mem_append.mp ha
      · exact hs a ha
      · obtain rfl := List.mem_singleton.mp ha
        exact hrest _ hchild hfresh
    | finishes childId => exact hs
    | clears => exact fun a ha => hs a (List.mem_of_mem_filter ha)

/-- In every run whose requests name nothing that is not granted behind the hundred checked names,
    the policy is kept. In any run the sessions are within their bounds, a child that was admitted
    is granted all that its request names if and only if it is granted what was cut off, a call that
    does not throw is answered with a child that was admitted, and one that throws changes
    nothing. -/
theorem children_within_policy (configs : String → AgentRuntimeConfig) :
    (∀ s, (grantedCollaboration configs).Reachable s → PolicyKept configs s) ∧
    (∀ s, (collaboration configs).Reachable s → WithinBounds configs s ∧
      (∀ a ∈ s.admitted, (Granted (configs a.sessionKey) a.child.tools a.child.skills ↔
        a.child.RestGranted (configs a.sessionKey))) ∧
      ∀ call request, (s.governor.act configs call).1 = some (.ok (some request)) →
        ∃ a ∈ (s.next configs call).admitted,
          a.sessionKey = call.sessionKey ∧ requestFrom a.child = request) ∧
    ∀ (g : CollaborationGovernor) call e,
      (g.act configs call).1 = some (.error e) → (g.act configs call).2 = g := by
  refine ⟨?_, ?_, fun g call e => CollaborationGovernor.act_error⟩
  · intro s hs
    obtain ⟨hbounds, hchecked⟩ := withinBounds_of_reachable hs.of_restrict
    exact ⟨hbounds, fun a ha => (granted_iff (hchecked a ha)).mpr (restGranted_of_admitted hs a ha)⟩
  · intro s hs
    obtain ⟨hbounds, hchecked⟩ := withinBounds_of_reachable hs
    exact ⟨hbounds, fun a ha => granted_iff (hchecked a ha), fun call request =>
      hbounds.answered⟩

/-- A configuration that lets children read. -/
def readOnly : AgentRuntimeConfig where
  strategy := .delegated
  extra := some [("allowed_child_tools", .arr [.str "read"])]

/-- A tool call that delegates to a child with the tools. -/
def delegation (tools : List String) : ChildCall where
  toolCallId := some "child-1"
  title := some "Delegate subagent"
  kind := some "delegate"
  rawInput := some (.obj [("tools", .arr (tools.map .str))])

def permissionCall (tools : List String) : CollaborationCall where
  sessionKey := "session-1"
  method := .reservePermission (some (delegation tools)) true

/-- The tool of a delegation starts a child. -/
theorem child_permissionCall (tools : List String) :
    (permissionCall tools).method.child = some (delegation tools) := by
  have htool : isChildTool (some "Delegate subagent") (some "delegate") = true := by decide +kernel
  simp [permissionCall, CollaborationMethod.child, delegation, htool]

/-- A hundred tools that are granted, and `run_action`. -/
def manyTools : List String := List.replicate 100 "read" ++ ["run_action"]

/-- Behind a hundred tools that are granted, `run_action` is not seen. -/
theorem run_action_admitted :
    ∃ s, (collaboration fun _ => readOnly).Reachable s ∧ ¬ PolicyKept (fun _ => readOnly) s := by
  let start : CollaborationRun := { governor := {}, admitted := [] }
  have hadmits : CollaborationRun.admits (fun _ => readOnly) {} (permissionCall manyTools)
      (delegation manyTools) = true := by decide +kernel
  have hmem : "run_action" ∈ (delegation manyTools).tools := by decide +kernel
  refine ⟨start.next (fun _ => readOnly) (permissionCall manyTools), .step (.init rfl) rfl, ?_⟩
  intro hkept
  have hadmitted : ({ sessionKey := "session-1", child := delegation manyTools } : Admission) ∈
      (start.next (fun _ => readOnly) (permissionCall manyTools)).admitted := by
    rw [CollaborationRun.next_eq (child_permissionCall manyTools)]
    simpa [start, permissionCall] using hadmits
  exact ((hkept.granted _ hadmitted).tool _ hmem).2 (by decide)

/-- A request that names more than a hundred tools, all of them granted. -/
theorem children_within_policy_read :
    ∃ s, s.admitted.length = 1 ∧ PolicyKept (fun _ => readOnly) s := by
  let start : CollaborationRun := { governor := {}, admitted := [] }
  refine ⟨start.next (fun _ => readOnly) (permissionCall (List.replicate 101 "read")),
    by decide +kernel, ?_⟩
  apply (children_within_policy fun _ => readOnly).1
  refine .step (.init rfl) ⟨rfl, ?_⟩
  rintro child hchild -
  obtain rfl := Option.some.inj ((child_permissionCall _).symm.trans hchild)
  constructor
  · decide +kernel
  · decide +kernel

end WorkflowBoard.AgentManager
