import WorkflowBoard.Spec.ConfirmGate
import WorkflowBoard.Spec.ManualRetry

/-!
# Limits of a mission

A mission limits the steps in flight, over all and for each slot of its roster, the visits of
its graph, and the attempts of a step within a visit. The pump counts all of them before it
dispatches. The other paths do not: the reconciler dispatches a silent step again without a
look at the visits, `updateStep` reassigns an ended step whose attempts are used up, and a
report of `blocked` by a step that still has the mark of an automatic block lets the engine
release it with its attempts used up. Where these find room, and no limit is lowered below
what is used, the limits hold in every state.
-/

namespace WorkflowBoard.Orchestration

/-! ## Attempts -/

/-- A step has attempts left where the pump may take it, now or once it is unblocked. -/
structure AttemptInv (_ : Mission) (t : Step) (_ : List Effect) : Prop where
  positive : 1 ≤ t.max_attempts
  within : t.attempt ≤ t.max_attempts
  left : t.isWaiting = true ∨ isAutoBlocked t = true → t.attempt < t.max_attempts

/-- The visits of the graph are within its budget. -/
def VisitsWithin (m : Mission) : Prop :=
  ∀ spec, m.graph_spec = some spec → m.total_visits ≤ spec.max_total_visits

/-- The guard of this module: the paths past the pump find room, and no limit is lowered below
    what is used. -/
def limitGuards : Guards :=
  { report := fun _ s input =>
      input.status = .blocked → s.auto_blocked = true → s.attempt < s.max_attempts
    redispatch := fun m => hasVisitBudget m = true
    reassign := fun s => s.status.isTerminal = true → s.attempt < s.max_attempts
    budget := fun s n => s.isWaiting = true ∨ isAutoBlocked s = true → s.attempt < n
    plan := fun _ _ r' => VisitsWithin r'.mission
    settings := fun r p => r.inFlightCount ≤
      clampInt p.max_parallel_steps r.mission.max_parallel_steps 1 MAX_PARALLEL_CEILING }

section Attempts

variable {r r' : Runner} {m m' : Mission} {s t : Step} {es es' : List Effect}

/-- A change that counts no attempt and does not bring the step closer to one. -/
theorem AttemptInv.congr (h : AttemptInv m s es) (hattempt : t.attempt = s.attempt)
    (hmax : t.max_attempts = s.max_attempts)
    (hleft : t.isWaiting = true ∨ isAutoBlocked t = true →
      s.isWaiting = true ∨ isAutoBlocked s = true) : AttemptInv m' t es' := by
  refine ⟨?_, ?_, fun ht => ?_⟩
  · rw [hmax]
    exact h.positive
  · rw [hattempt, hmax]
    exact h.within
  · rw [hattempt, hmax]
    exact h.left (hleft ht)

/-- A change behind which the pump does not take the step. -/
theorem AttemptInv.stop (h : AttemptInv m s es) (hattempt : t.attempt = s.attempt)
    (hmax : t.max_attempts = s.max_attempts) (hidle : t.isWaiting = false)
    (hblocked : isAutoBlocked t = false) : AttemptInv m' t es' := by
  refine h.congr hattempt hmax fun ht => ?_
  rw [hidle, hblocked] at ht
  simp at ht

/-- A change of a step with attempts left that counts none. -/
theorem AttemptInv.free (h : AttemptInv m s es) (hattempt : t.attempt = s.attempt)
    (hmax : t.max_attempts = s.max_attempts) (hfree : s.attempt < s.max_attempts) :
    AttemptInv m' t es' := by
  refine ⟨?_, ?_, fun _ => ?_⟩
  · rw [hmax]
    exact h.positive
  · rw [hattempt, hmax]
    exact h.within
  · rwa [hattempt, hmax]

theorem AttemptInv.stamped (h : AttemptInv m s es) {r : Runner} (now : Date)
    (hfree : s.attempt < s.max_attempts) : AttemptInv m' (r.stamped s now) es' :=
  ⟨h.positive, hfree, fun ht => by rcases ht with ht | ht <;> cases ht⟩

open Runner in
theorem AttemptInv.write (h : AttemptInv m s es) (hw : RowWrite limitGuards r s t es') :
    AttemptInv m' t (es ++ es') := by
  cases hw with
  | keep => exact h.congr rfl rfl id
  | openGate artifacts now hwaits _ => exact h.free rfl rfl (h.left (.inl hwaits))
  | dispatch now hwaits _ => exact h.stamped now (h.left (.inl hwaits))
  | redispatch now _ _ hfree => exact h.stamped now hfree
  | markReady hwaits => exact h.free rfl rfl (h.left (.inl hwaits))
  | failDispatch error now _ => exact h.stop rfl rfl rfl rfl
  | block now hwaits => exact h.free rfl rfl (h.left (.inl hwaits))
  | unblock hblocked _ => exact h.free rfl rfl (h.left (.inr hblocked))
  | reenter _ _ => exact ⟨h.positive, Nat.zero_le _, fun _ => h.positive⟩
  | noteLease since _ => exact h.congr rfl rfl id
  | expire reason budgetLeft now _ =>
    refine h.stop rfl rfl ?_ ?_ <;> unfold unrecoverable
    · unfold Step.isWaiting
      dsimp only
      split <;> rfl
    · unfold isAutoBlocked
      dsimp only
      split <;> rfl
  | failExternally reason now _ =>
    refine h.stop rfl rfl ?_ ?_ <;> unfold failedExternally
    · unfold Step.isWaiting
      dsimp only
      split <;> rfl
    · unfold isAutoBlocked
      dsimp only
      split <;> rfl
  | progress checkpoint now _ _ =>
    refine h.congr rfl rfl fun ht => ?_
    unfold progressed Step.isWaiting isAutoBlocked at *
    dsimp only at ht
    split at ht
    · rcases ht with ht | ht <;> cases ht
    · exact ht
  | @report input now _ _ hguard =>
    cases hstatus : input.status with
    | blocked =>
      by_cases hflag : s.auto_blocked = true
      · exact h.free rfl rfl (hguard hstatus hflag)
      · refine h.stop rfl rfl ?_ ?_
        · unfold reported Step.isWaiting
          rw [hstatus]
          rfl
        · unfold reported isAutoBlocked
          dsimp only
          rw [Bool.not_eq_true _ |>.mp hflag, Bool.and_false]
    | done =>
      refine h.stop rfl rfl ?_ ?_
      · unfold reported Step.isWaiting
        rw [hstatus]
        rfl
      · unfold reported isAutoBlocked
        rw [hstatus]
        rfl
    | failed =>
      refine h.stop rfl rfl ?_ ?_
      · unfold reported Step.isWaiting
        rw [hstatus]
        rfl
      · unfold reported isAutoBlocked
        rw [hstatus]
        rfl
  | decide verdict now _ _ _ _ _ => exact h.stop rfl rfl rfl rfl
  | budget hlo hused hguard => exact ⟨hlo, hused, hguard⟩
  | skip status now _ hstatus _ =>
    rcases hstatus with rfl | rfl <;> exact h.stop rfl rfl rfl rfl
  | amend input a _ =>
    obtain ⟨_, _, _, _, _, _, _, _, _, heq⟩ := amended_revises s input a
    rw [heq]
    exact h.congr rfl rfl id
  | reassign a _ hguard =>
    by_cases hended : s.status.isTerminal = true
    · exact h.free rfl rfl (hguard hended)
    · refine h.congr rfl rfl fun ht => ?_
      unfold reopenedBy Step.isWaiting isAutoBlocked at *
      dsimp only at ht
      rwa [if_neg hended] at ht
  | retry input a _ hfree _ =>
    obtain ⟨_, _, _, _, _, _, _, _, _, heq⟩ := amended_revises s input a
    refine h.free ?_ ?_ hfree
    all_goals
      unfold retried
      rw [heq]
  | cancel now _ _ => exact h.stop rfl rfl rfl rfl

/-- Each write keeps the limits of a row. -/
theorem AttemptInv.step (h : AttemptInv r.mission s es) (hw : RowStep limitGuards r r' s t es') :
    AttemptInv r'.mission t (es ++ es') := by
  cases hw with
  | write _ hw => exact h.write hw
  | plan _ hrev _ _ =>
    obtain ⟨_, _, _, _, _, _, _, _, _, rfl⟩ := hrev
    exact h.congr rfl rfl id
  | patch _ => exact h.congr rfl rfl id

theorem attemptInv_fresh (hw : FreshRow limitGuards r r' t es) : AttemptInv r'.mission t es := by
  cases hw with
  | @mk input s a i m n _ _ _ =>
    obtain ⟨_, _, _, heq⟩ := Runner.newStep_eq (v := r.mission.plan_version + 1) (s := s) (a := a)
      (i := i)
    rw [heq]
    exact ⟨Nat.le_succ 1, Nat.zero_le 2, fun _ => Nat.zero_lt_succ 1⟩

end Attempts

/-! ## Steps in flight -/

/-- The steps of a slot that are in flight. -/
def Runner.slotLoad (r : Runner) (slot : String) : Nat :=
  r.steps.countP fun t => t.status.isInFlight && t.assignee_slot = some slot

/-- Every step in flight was in flight before, in the same slot. -/
def NoneStarted (r r' : Runner) : Prop :=
  ∀ t ∈ r'.steps, t.status.isInFlight = true → ∃ s ∈ r.steps, s.step_key = t.step_key ∧
    s.status.isInFlight = true ∧ s.assignee_slot = t.assignee_slot

section Flights

variable {G : Guards} {r r' : Runner} {s t : Step} {es : List Effect}

/-- Rows with distinct keys that come from rows of a kind are no more than those. -/
theorem countP_le_of_origin {p q : Step → Bool} (hd : r'.Distinct)
    (h : ∀ t ∈ r'.steps, q t = true → ∃ s ∈ r.steps, s.step_key = t.step_key ∧ p s = true) :
    r'.steps.countP q ≤ r.steps.countP p := by
  have hnd : ((r'.steps.filter q).map (·.step_key)).Nodup :=
    hd.sublist (List.Sublist.map _ List.filter_sublist)
  have hsub : (r'.steps.filter q).map (·.step_key) ⊆ (r.steps.filter p).map (·.step_key) := by
    intro key hkey
    obtain ⟨t, ht, rfl⟩ := List.mem_map.mp hkey
    obtain ⟨ht, hq⟩ := List.mem_filter.mp ht
    obtain ⟨s, hs, heq, hp⟩ := h t ht hq
    exact List.mem_map.mpr ⟨s, List.mem_filter.mpr ⟨hs, hp⟩, heq⟩
  have hle := (List.subperm_of_subset hnd hsub).length_le
  rwa [List.length_map, List.length_map, ← List.countP_eq_length_filter,
    ← List.countP_eq_length_filter] at hle

theorem NoneStarted.inFlightCount_le (h : NoneStarted r r') (hd : r'.Distinct) :
    r'.inFlightCount ≤ r.inFlightCount :=
  countP_le_of_origin hd fun t ht hin => by
    obtain ⟨s, hs, hkey, hsin, _⟩ := h t ht hin
    exact ⟨s, hs, hkey, hsin⟩

theorem NoneStarted.slotLoad_le (h : NoneStarted r r') (hd : r'.Distinct) (slot : String) :
    r'.slotLoad slot ≤ r.slotLoad slot := by
  refine countP_le_of_origin hd fun t ht hin => ?_
  rw [Bool.and_eq_true] at hin
  obtain ⟨s, hs, hkey, hsin, hslot⟩ := h t ht hin.1
  refine ⟨s, hs, hkey, ?_⟩
  rw [hsin, hslot, hin.2]
  rfl

/-- A saved row that is in flight only if it was, and then in the same slot. -/
theorem noneStarted_of_saved (hmem : s ∈ r.steps) (hsteps : r'.steps = (r.saveStep t).steps)
    (hkey : t.step_key = s.step_key)
    (h : t.status.isInFlight = true →
      s.status.isInFlight = true ∧ s.assignee_slot = t.assignee_slot) : NoneStarted r r' := by
  intro u hu hin
  rw [hsteps] at hu
  rcases Runner.mem_saveStep hu with rfl | ⟨hu, _⟩
  · obtain ⟨hsin, hslot⟩ := h hin
    exact ⟨s, hmem, hkey.symm, hsin, hslot⟩
  · exact ⟨u, hu, rfl, hin, rfl⟩

theorem noneStarted_of_idle (hmem : s ∈ r.steps) (hsteps : r'.steps = (r.saveStep t).steps)
    (hkey : t.step_key = s.step_key) (hidle : t.status.isInFlight = false) : NoneStarted r r' :=
  noneStarted_of_saved hmem hsteps hkey fun hin => by
    rw [hidle] at hin
    cases hin

theorem noneStarted_of_savedAll {p : Step → Bool} {f : Step → Step}
    (hsteps : r'.steps = (r.saveSteps p f).steps) (hidle : ∀ s, (f s).status.isInFlight = false) :
    NoneStarted r r' := by
  intro u hu hin
  rw [hsteps] at hu
  obtain ⟨v, hv, ⟨_, rfl⟩ | ⟨_, rfl⟩⟩ := Runner.mem_saveSteps hu
  · rw [hidle] at hin
    cases hin
  · exact ⟨u, hv, rfl, hin, rfl⟩

theorem noneStarted_of_steps (hsteps : r'.steps = r.steps) : NoneStarted r r' := by
  intro u hu hin
  rw [hsteps] at hu
  exact ⟨u, hu, rfl, hin, rfl⟩

theorem noneStarted_of_life (h : LifeWrite G r r') : NoneStarted r r' := by
  rcases h.frame with hframe | ⟨all, now, hframe⟩
  · exact noneStarted_of_steps hframe.steps
  · exact noneStarted_of_savedAll hframe.steps fun _ => rfl

/-- A plan leaves the rows that have started, and adds pending ones. -/
theorem noneStarted_of_accepted {input : PlanInput} (h : Runner.Accepted r input r')
    (hs : r.Sane) : NoneStarted r r' := by
  intro t ht hin
  rcases h.row hs.named ht with ⟨s, a, i, _, _, rfl⟩ | ⟨found, _, _, huntouched, hrev⟩ |
    ⟨found, hfound, _, i, rfl⟩
  · obtain ⟨_, _, _, heq⟩ := Runner.newStep_eq (v := r.mission.plan_version + 1) (s := s) (a := a)
      (i := i)
    rw [heq] at hin
    cases hin
  · obtain ⟨_, _, _, _, _, _, _, _, _, rfl⟩ := hrev
    have hin : found.status.isInFlight = true := hin
    unfold Step.isUntouchable at huntouched
    rw [hin] at huntouched
    cases huntouched
  · exact ⟨found, hfound, rfl, hin, rfl⟩

open Runner in
theorem PumpWrite.flights (h : PumpWrite r r') : NoneStarted r r' ∨
    ∃ step now, r' = r.stampDispatch step now ∧ step ∈ r.steps ∧
      r.mission.status = .running ∧ hasVisitBudget r.mission = true ∧
      r.inFlightCount < r.mission.max_parallel_steps ∧
      loadBySlot r.steps (loadKey step) < slotCap r.mission (step.assignee_slot.getD "") := by
  cases h with
  | openGate now _ hmem _ _ _ => exact .inl (noneStarted_of_idle hmem rfl rfl rfl)
  | @dispatch step now hrun hmem _ _ hvisits _ hroom hload _ =>
    exact .inr ⟨step, now, rfl, hmem, hrun, hvisits, hroom, hload⟩
  | markReady _ hmem _ => exact .inl (noneStarted_of_idle hmem rfl rfl rfl)
  | failDispatch error now _ hmem _ => exact .inl (noneStarted_of_idle hmem rfl rfl rfl)

open Runner in
/-- Only the pump puts another step in flight. -/
theorem Write.flights (hw : Write G r r') (hs : r.Sane) : NoneStarted r r' ∨
    ∃ step now, r' = r.stampDispatch step now ∧ step ∈ r.steps ∧
      r.mission.status = .running ∧ hasVisitBudget r.mission = true ∧
      r.inFlightCount < r.mission.max_parallel_steps ∧
      loadBySlot r.steps (loadKey step) < slotCap r.mission (step.assignee_slot.getD "") := by
  cases hw with
  | pump hpump => exact hpump.flights
  | block now _ => exact .inl (noneStarted_of_savedAll rfl fun _ => rfl)
  | unblock _ => exact .inl (noneStarted_of_savedAll rfl fun _ => rfl)
  | reenter _ _ _ _ => exact .inl (noneStarted_of_savedAll rfl fun _ => rfl)
  | noteLease since _ hmem hin => exact .inl (noneStarted_of_saved hmem rfl rfl fun _ => ⟨hin, rfl⟩)
  | redispatch now _ hmem hin _ _ _ =>
    exact .inl (noneStarted_of_saved hmem rfl rfl fun _ => ⟨hin, rfl⟩)
  | expire reason budgetLeft now _ hmem hin =>
    exact .inl (noneStarted_of_saved hmem rfl rfl fun _ => ⟨hin, rfl⟩)
  | failExternally reason now _ hmem _ =>
    refine .inl (noneStarted_of_idle hmem rfl rfl ?_)
    unfold failedExternally
    dsimp only
    split <;> rfl
  | progress checkpoint now hmem _ _ =>
    refine .inl (noneStarted_of_saved hmem rfl rfl fun hin => ?_)
    rw [progressed_inFlight] at hin
    exact ⟨hin, rfl⟩
  | @report step input now _ hmem _ _ _ =>
    refine .inl (noneStarted_of_idle hmem rfl rfl ?_)
    unfold reported
    cases input.status <;> rfl
  | decide verdict now _ hmem _ _ _ _ _ => exact .inl (noneStarted_of_idle hmem rfl rfl rfl)
  | budget _ hmem _ _ _ => exact .inl (noneStarted_of_saved hmem rfl rfl fun hin => ⟨hin, rfl⟩)
  | skip status now _ hmem _ hstatus _ =>
    refine .inl (noneStarted_of_idle hmem rfl rfl ?_)
    rcases hstatus with rfl | rfl <;> rfl
  | @amend step input a _ hmem hidle =>
    obtain ⟨_, _, _, _, _, _, _, _, _, heq⟩ := amended_revises step input a
    refine .inl (noneStarted_of_idle hmem rfl ?_ ?_)
    all_goals rw [heq]
    exact hidle
  | reassign a _ hmem hidle _ =>
    refine .inl (noneStarted_of_idle hmem rfl rfl ?_)
    unfold reopenedBy
    dsimp only
    split
    · rfl
    · exact hidle
  | @retry step input a _ hmem _ _ _ =>
    obtain ⟨_, _, _, _, _, _, _, _, _, heq⟩ := amended_revises step input a
    refine .inl (noneStarted_of_idle hmem rfl ?_ rfl)
    unfold retried
    rw [heq]
  | plan hplan _ =>
    obtain ⟨haccepted⟩ := acceptPlan_ok hplan
    exact .inl (noneStarted_of_accepted haccepted hs)
  | patch hpatch _ =>
    obtain ⟨_, _, _, _, _, rfl⟩ := acceptPatch_ok hpatch
    exact .inl (noneStarted_of_steps rfl)
  | life hlife => exact .inl (noneStarted_of_life hlife)

end Flights

/-! ## Limits of the mission -/

/-- At most one visit more of a graph that has one left. -/
theorem VisitsWithin.visit {m m' : Mission} (hbudget : hasVisitBudget m = true)
    (hgraph : m'.graph_spec = m.graph_spec) (hvisits : m'.total_visits ≤ m.total_visits + 1) :
    VisitsWithin m' := by
  intro spec hspec
  rw [hgraph] at hspec
  unfold hasVisitBudget at hbudget
  rw [hspec] at hbudget
  have hleft : m.total_visits < spec.max_total_visits := by simpa using hbudget
  exact Nat.le_trans hvisits hleft

theorem visit_le (m : Mission) :
    (m.total_visits + if m.graph_spec.isSome then 1 else 0) ≤ m.total_visits + 1 := by
  split <;> omega

theorem VisitsWithin.congr {m m' : Mission} (h : VisitsWithin m)
    (hgraph : m'.graph_spec = m.graph_spec) (hvisits : m'.total_visits = m.total_visits) :
    VisitsWithin m' := by
  intro spec hspec
  rw [hvisits]
  exact h spec (hgraph ▸ hspec)

/-- The limits on the steps in flight and on the visits. A mission that has not started or has
    ended, and may get another roster, has no step in flight. -/
structure LimitInv (r : Runner) : Prop where
  parallel : r.inFlightCount ≤ r.mission.max_parallel_steps
  slots : ∀ slot, slot ≠ "" → r.slotLoad slot ≤ slotCap r.mission slot
  visits : VisitsWithin r.mission
  idle : r.mission.status = .draft ∨ r.mission.status.isTerminal = true → r.inFlightCount = 0

section Limits

variable {r r' : Runner}

theorem Runner.slotLoad_le_inFlightCount (slot : String) : r.slotLoad slot ≤ r.inFlightCount := by
  refine List.countP_mono_left fun t _ ht => ?_
  exact (Bool.and_eq_true_iff.mp ht).1

/-- The pump counts every step of the slot in flight. -/
theorem Runner.slotLoad_le_loadBySlot {slot : String} (hslot : slot ≠ "") :
    r.slotLoad slot ≤ loadBySlot r.steps slot := by
  rw [Runner.loadBySlot_eq _ hslot]
  refine List.countP_mono_left fun t _ ht => ?_
  simp only [Bool.and_eq_true, decide_eq_true_eq] at ht
  simp [Runner.loads, loadKey, ht.1, ht.2, Option.filter_some, hslot]

/-- Without a step in flight the limits on them hold. -/
theorem LimitInv.of_idle (hidle : r.inFlightCount = 0) (hvisits : VisitsWithin r.mission) :
    LimitInv r := by
  refine ⟨?_, fun slot _ => ?_, hvisits, fun _ => hidle⟩
  · rw [hidle]
    exact Nat.zero_le _
  · have hle := Runner.slotLoad_le_inFlightCount (r := r) slot
    rw [hidle] at hle
    exact Nat.le_trans hle (Nat.zero_le _)

/-- No step was put in flight, and the limits are no lower. -/
theorem LimitInv.of_none (h : LimitInv r) (hnone : NoneStarted r r') (hd : r'.Distinct)
    (hparallel : r.inFlightCount ≤ r'.mission.max_parallel_steps)
    (hroster : r'.mission.runtime_roster = r.mission.runtime_roster)
    (hvisits : VisitsWithin r'.mission)
    (hstatus : r'.mission.status = .draft ∨ r'.mission.status.isTerminal = true →
      r.mission.status = .draft ∨ r.mission.status.isTerminal = true) : LimitInv r' := by
  refine ⟨?_, fun slot hslot => ?_, hvisits, fun hended => ?_⟩
  · exact Nat.le_trans (hnone.inFlightCount_le hd) hparallel
  · have hcap : slotCap r'.mission slot = slotCap r.mission slot := by
      unfold slotCap
      rw [hroster]
    rw [hcap]
    exact Nat.le_trans (hnone.slotLoad_le hd slot) (h.slots slot hslot)
  · have hle := hnone.inFlightCount_le hd
    have hzero := h.idle (hstatus hended)
    omega

open Runner in
theorem LimitInv.dispatched (h : LimitInv r) {step : Step} (now : Date) (hs : r.Sane)
    (hmem : step ∈ r.steps) (hrun : r.mission.status = .running)
    (hbudget : hasVisitBudget r.mission = true)
    (hroom : r.inFlightCount < r.mission.max_parallel_steps)
    (hload : loadBySlot r.steps (loadKey step) < slotCap r.mission (step.assignee_slot.getD "")) :
    LimitInv (r.stampDispatch step now) := by
  have hcount := (hs.distinct.counts_started hmem (t := r.stamped step now) rfl).1
  refine ⟨?_, fun slot hslot => ?_, .visit hbudget rfl (visit_le r.mission), fun hended => ?_⟩
  · exact Nat.le_trans hcount hroom
  · have hsaved := hs.distinct.countP_saveStep hmem (t := r.stamped step now) rfl
      fun t => t.status.isInFlight && t.assignee_slot = some slot
    change (r.saveStep (r.stamped step now)).slotLoad slot ≤ slotCap r.mission slot
    unfold slotLoad
    by_cases hsame : step.assignee_slot = some slot
    · -- the step's own slot, below its limit before
      have hkey : loadKey step = slot := by
        simp [loadKey, hsame, Option.filter_some, hslot]
      rw [hkey, hsame, Option.getD_some] at hload
      have hless := slotLoad_le_loadBySlot (r := r) hslot
      unfold slotLoad at hless
      split at hsaved <;> split at hsaved <;> omega
    · have hold := h.slots slot hslot
      unfold slotLoad at hold
      have hother : ((r.stamped step now).status.isInFlight &&
          decide ((r.stamped step now).assignee_slot = some slot)) = false := by
        simp [stamped, hsame]
      rw [hother] at hsaved
      simp only [Bool.false_eq_true, if_false] at hsaved
      omega
  · have hended : r.mission.status = .draft ∨ r.mission.status.isTerminal = true := hended
    rw [hrun] at hended
    rcases hended with hended | hended <;> cases hended

open Runner in
theorem Write.visitsWithin (hw : Write limitGuards r r') (h : VisitsWithin r.mission) :
    VisitsWithin r'.mission := by
  cases hw with
  | pump hpump =>
    cases hpump with
    | openGate now _ _ _ _ hbudget => exact .visit hbudget rfl (Nat.le_refl _)
    | dispatch now _ _ _ _ hbudget _ _ _ _ => exact .visit hbudget rfl (visit_le r.mission)
    | markReady _ _ _ => exact h
    | failDispatch error now _ _ _ => exact h
  | redispatch now _ _ _ _ _ hbudget => exact .visit hbudget rfl (visit_le r.mission)
  | plan _ hguard => exact hguard
  | patch hpatch _ =>
    obtain ⟨_, next, _, _, hbudget, rfl⟩ := acceptPatch_ok hpatch
    intro spec hspec
    obtain rfl : next = spec := Option.some.inj hspec
    exact hbudget
  | life hlife =>
    rcases hlife.frame with hframe | ⟨all, now, hframe⟩
    · exact h.congr hframe.graph hframe.visits
    · exact h.congr hframe.graph hframe.visits
  | _ => exact h

open Runner in
/-- The operations on the mission that close it leave no step in flight; the others lower no
    limit. -/
theorem LimitInv.life (h : LimitInv r) (hw : LifeWrite limitGuards r r') (hs : r.Sane) :
    LimitInv r' := by
  have hwrite : Write limitGuards r r' := .life hw
  have hvisits := hwrite.visitsWithin h.visits
  have hd := (hwrite.sane hs).distinct
  have hnone := noneStarted_of_life hw
  have hzero : r.inFlightCount = 0 → LimitInv r' := fun hidle => by
    refine .of_idle ?_ hvisits
    have hle := hnone.inFlightCount_le hd
    omega
  have hcancelled : ∀ (all : Bool) (now : Date),
      (r.cancelSteps (closes all) now).inFlightCount = 0 := by
    intro all now
    refine List.countP_eq_zero.mpr fun t ht hin => ?_
    obtain ⟨u, _, ⟨_, rfl⟩ | ⟨hopen, rfl⟩⟩ := mem_saveSteps ht
    · cases hin
    · have hlive := not_terminal_of_inFlight hin
      unfold closes at hopen
      rw [hin, hlive] at hopen
      cases all <;> cases hopen
  -- the same limits, in a mission that may have changed its status
  have hkept : ∀ m : Mission, r'.mission = m →
      m.max_parallel_steps = r.mission.max_parallel_steps →
      m.runtime_roster = r.mission.runtime_roster →
      (m.status = .draft ∨ m.status.isTerminal = true →
        r.mission.status = .draft ∨ r.mission.status.isTerminal = true) → LimitInv r' := by
    rintro _ rfl hparallel hroster hstatus
    exact h.of_none hnone hd (hparallel ▸ h.parallel) hroster hvisits hstatus
  cases hw.lifeCase with
  | same => exact h
  | settings _ _ hguard => exact h.of_none hnone hd hguard rfl hvisits id
  | prepared _ hdraft => exact hzero (h.idle (.inl hdraft))
  | unbriefed _ _ hdraft => exact hzero (h.idle (.inl hdraft))
  | started _ _ _ _ _ hdraft => exact hzero (h.idle (.inl hdraft))
  | paused =>
    refine hkept _ rfl rfl rfl fun hended => ?_
    rcases hended with hended | hended <;> cases hended
  | resumed =>
    refine hkept _ rfl rfl rfl fun hended => ?_
    dsimp only at hended
    split at hended <;> rcases hended with hended | hended <;> cases hended
  | closed => exact .of_idle (hcancelled true _) hvisits
  | redrafted _ _ hended => exact hzero (h.idle (.inr hended))
  | reopened _ _ hended => exact hzero (h.idle (.inr hended))
  | completed =>
    refine .of_idle ?_ hvisits
    unfold inFlightCount
    rw [framed_runPostActions.steps]
    exact hcancelled false _
  | criteria => exact hkept _ rfl rfl rfl id
  | postStep now fate =>
    obtain ⟨_, _, hmission⟩ := postStep_mission (r := r) now fate
    exact hkept _ hmission rfl rfl id
  | crash => exact hkept _ rfl rfl rfl id
  | recover => exact hkept _ runPostActions_mission rfl rfl id

theorem LimitInv.write (h : LimitInv r) (hw : Write limitGuards r r') (hs : r.Sane) :
    LimitInv r' := by
  rcases hw.flights hs with hnone | ⟨step, now, rfl, hmem, hrun, hbudget, hroom, hload⟩
  · rcases hw.kept_or_life with hkept | hlife
    · obtain ⟨_, _, _, _, _, status, hmission, hstatus⟩ := hkept.mission
      refine h.of_none hnone (hw.sane hs).distinct ?_ ?_ (hw.visitsWithin h.visits) fun hended => ?_
      · rw [hmission]
        exact h.parallel
      · rw [hmission]
      · rw [hmission] at hended
        rcases hstatus with rfl | ⟨_, rfl⟩
        · exact hended
        · rcases hended with hended | hended <;> cases hended
    · exact h.life hlife hs
  · exact h.dispatched now hs hmem hrun hbudget hroom hload

theorem limitInv_createMission {input : MissionInput} (h : createMission input = some r) :
    LimitInv r := by
  obtain ⟨_, _, hgraph, hsteps, _, _⟩ := Runner.createMission_ok h
  refine .of_idle ?_ fun spec hspec => ?_
  · unfold Runner.inFlightCount
    rw [hsteps]
    rfl
  · rw [hgraph] at hspec
    cases hspec

end Limits

/-! ## The calls -/

namespace Runner

/-- What the condition asks of a call. -/
def KeepsLimits (now : Date) (r : Runner) : Action → Prop
  | .updateMission p => ∀ r', r.updateMission p = .ok r' → r.inFlightCount ≤
    clampInt p.max_parallel_steps r.mission.max_parallel_steps 1 MAX_PARALLEL_CEILING
  | .submitPlan caller input _ => ∀ r', r.acceptPlan caller input = .ok r' →
    VisitsWithin r'.mission
  | .updateStep key caller input _ =>
    ∀ fresh a n, r.updateChecks key caller input = .ok (fresh, a, n) →
      (n ≠ fresh.max_attempts → fresh.isWaiting = true ∨ isAutoBlocked fresh = true →
        fresh.attempt < n) ∧
      (input.action = .reassign → fresh.status.isTerminal = true → fresh.attempt < n)
  | .reportStep key caller input _ => ∀ step, r.reportChecks key caller input = .ok step →
    input.status = .blocked → step.auto_blocked = true → step.attempt < step.max_attempts
  | .reconcileStaleLease key graceMs timeoutMinutes fates =>
    ∀ step, r.stepOf key = some step → step.status.isInFlight = true →
      r.mission.status = .running → GraceOver step now graceMs timeoutMinutes →
      step.retry_policy = .auto → step.attempt < step.max_attempts →
      (∀ error, fates step.step_key ≠ .refused error) → hasVisitBudget r.mission = true
  | _ => True

/-- The limits of a mission; `slotCap` is the `max_concurrent` of the slot in the roster. -/
structure WithinLimits (r : Runner) : Prop where
  parallel : r.inFlightCount ≤ r.mission.max_parallel_steps
  slots : ∀ slot, slot ≠ "" → r.slotLoad slot ≤ slotCap r.mission slot
  visits : VisitsWithin r.mission
  attempts : ∀ t ∈ r.steps, t.attempt ≤ t.max_attempts

section Calls

variable {r : Runner} {now : Date} {a : Action}

theorem meets_limits (hc : KeepsLimits now r a) : Meets limitGuards now r a := by
  cases a with
  | updateMission => exact hc
  | submitPlan => exact hc
  | updateStep key caller input fates =>
    intro fresh x n hchecks
    obtain ⟨hbudget, hreassign⟩ := hc fresh x n hchecks
    exact ⟨hbudget, fun haction _ _ => hreassign haction, fun _ => trivial⟩
  | reportStep key caller input fates =>
    exact fun step hchecks => ⟨hc step hchecks, fun _ _ _ => trivial⟩
  | reconcileStaleLease => exact hc
  | _ => simp [Meets, limitGuards]

theorem limits_reachable
    (h : (missionSystem.restrict fun r call _ => KeepsLimits call.1 r call.2).Reachable r) :
    r.Sane ∧ LimitInv r ∧ Rowwise AttemptInv r := by
  refine mission_invariant (P := fun r => LimitInv r ∧ Rowwise AttemptInv r) limitGuards
    (fun _ _ _ _ hc => meets_limits hc) ?_ ?_ h
  · intro input r hcreate
    exact ⟨limitInv_createMission hcreate, rowwise_createMission hcreate⟩
  · rintro r r' hs ⟨hlimits, hrows⟩ hw
    refine ⟨hlimits.write hw hs, ?_⟩
    exact hrows.write hw hs (fun _ _ _ _ h hstep => h.step hstep) fun _ _ hfresh =>
      attemptInv_fresh hfresh

/-- The limits hold in every state of a run whose calls meet the condition. -/
theorem limits_hold
    (h : (missionSystem.restrict fun r call _ => KeepsLimits call.1 r call.2).Reachable r) :
    r.WithinLimits := by
  obtain ⟨_, hlimits, hrows⟩ := limits_reachable h
  exact ⟨hlimits.parallel, hlimits.slots, hlimits.visits, fun t ht => (hrows.row t ht).within⟩

end Calls

/-! ## Runs -/

/-- One step of the member, on a graph that has a single visit. -/
def oneVisit : PlanInput :=
  { memberStep none with graph := some { nodes := [{ key := "a" }], max_total_visits := some 1 } }

/-- The step is dispatched. -/
def oneVisitCalls : List (Date × Action) :=
  [(0, .startMission smallView),
    (1, .submitPlan (smallCaller smallOrchestrator) oneVisit fun _ => .delivered)]

/-- The step is in flight, and it used the visit. -/
theorem limits_hold_small : ∃ r : Runner, 0 < r.inFlightCount ∧ r.WithinLimits := by
  let check : Runner → Date × Action → Bool := fun r call =>
    match call.2 with
    | .startMission _ => true
    | .submitPlan caller input _ => (r.acceptPlan caller input).toOption.all fun r' =>
      r'.mission.graph_spec.all fun spec => r'.mission.total_visits ≤ spec.max_total_visits
    | _ => false
  have hcheck : ∀ r call r', check r call = true →
      (fun r (call : Date × Action) (_ : Runner) => KeepsLimits call.1 r call.2) r call r' := by
    rintro r ⟨now, a⟩ _ hpass
    cases a with
    | startMission => trivial
    | submitPlan caller input fates =>
      intro r' haccept spec hspec
      simpa [check, haccept, hspec, Except.toOption] using hpass
    | _ => cases hpass
  obtain ⟨r, hr, hp⟩ := exists_restricted_of_run check hcheck graphMission oneVisitCalls
    (fun r => 0 < r.inFlightCount) (by decide +kernel)
  exact ⟨r, of_decide_eq_true hp, limits_hold hr⟩

/-- The call leaves the limits that are set as they are. -/
def leavesLimits (r r' : Runner) : Bool :=
  r'.mission.max_parallel_steps = r.mission.max_parallel_steps &&
  r.mission.runtime_roster.all (fun roster => r'.mission.runtime_roster = some roster) &&
  r.mission.graph_spec.all (fun spec => r'.mission.graph_spec.any
    (·.max_total_visits = spec.max_total_visits)) &&
  r.steps.all fun s => r'.steps.all fun t =>
    t.step_key ≠ s.step_key || t.max_attempts = s.max_attempts

/-- The member's report that the attempt with a lease has failed. -/
def failedReport (lease_token : Nat) : Action :=
  .reportStep "a" (smallCaller smallMember) { status := .failed, lease_token := some lease_token }
    fun _ => .delivered

def reassignStep : Action :=
  .updateStep "a" (smallCaller smallOrchestrator) { action := .reassign, assignee := some "member" }
    fun _ => .delivered

/-- With the limits fixed, the reconciler dispatches the silent step for a second visit of its
    graph; and a step that is reassigned twice after it failed has a third attempt of two. -/
theorem limits_exceeded :
    (∃ r, (missionSystem.restrict fun r call _ =>
      leavesLimits r (call.2.run call.1 r).runner = true).Reachable r ∧
        ¬ VisitsWithin r.mission) ∧
    ∃ r, (missionSystem.restrict fun r call _ =>
      leavesLimits r (call.2.run call.1 r).runner = true).Reachable r ∧
        ∃ t ∈ r.steps, t.visit = 1 ∧ t.max_attempts < t.attempt := by
  have hcheck : ∀ r (call : Date × Action) (r' : Runner),
      leavesLimits r (call.2.run call.1 r).runner = true →
      (fun r (call : Date × Action) (_ : Runner) =>
        leavesLimits r (call.2.run call.1 r).runner = true) r call r' := fun _ _ _ h => h
  constructor
  · obtain ⟨r, hr, hp⟩ := exists_restricted_of_run
      (fun r call => leavesLimits r (call.2.run call.1 r).runner) hcheck graphMission
      (oneVisitCalls ++ silence) (fun r => r.mission.graph_spec.any fun spec =>
        spec.max_total_visits < r.mission.total_visits) (by decide +kernel)
    obtain ⟨spec, hspec, hlt⟩ := (Option.any_eq_true _ _).mp hp
    exact ⟨r, hr, fun hwithin => Nat.not_le.mpr (of_decide_eq_true hlt) (hwithin spec hspec)⟩
  · obtain ⟨r, hr, hp⟩ := exists_restricted_of_run
      (fun r call => leavesLimits r (call.2.run call.1 r).runner) hcheck smallMission
      [(0, .startMission smallView),
        (1, .submitPlan (smallCaller smallOrchestrator) (memberStep none) fun _ => .delivered),
        (2, failedReport 0), (3, reassignStep), (4, failedReport 1), (5, reassignStep)]
      (fun r => r.steps.any fun t => t.visit = 1 ∧ t.max_attempts < t.attempt)
      (by decide +kernel)
    obtain ⟨t, ht, hlt⟩ := List.any_eq_true.mp hp
    exact ⟨r, hr, t, ht, of_decide_eq_true hlt⟩

end Runner

end WorkflowBoard.Orchestration
