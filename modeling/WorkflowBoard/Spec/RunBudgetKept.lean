import WorkflowBoard.ForStd.List
import WorkflowBoard.Native.RunBudget

/-!
# The run budget holds where the count sees every run

A dispatch counts the runs of its window and inserts its own some statements later. The limit
holds in every window if the count has seen every run of it: none of them was deleted before, none
was inserted behind it, and the budget could be evaluated.
-/

namespace WorkflowBoard.Budget

/-- A run of the kind and account that was inserted at `since`, in microseconds, or later. -/
def CreatedRun.isSince (r : CreatedRun) (kind : RunBudgetKind) (accountId : String)
    (since : Int) : Bool :=
  r.kind = kind && r.account_id = accountId && since ≤ r.inserted_at

/-- The bound of the query takes in every run of the window. -/
theorem createdAt_ge {store : SqlStore} {since : Int} {clock : Nat}
    (h : since * 1000 ≤ (clock : Int)) :
    sinceBoundaryParam store since ≤ createdAt store clock := by
  cases store with
  | postgres => exact h
  | sqljs =>
    show since / 1000 * 1000000 ≤ (clock : Int) / 1000000 * 1000000
    omega

namespace BudgetState

variable (w : BudgetWorld)

/-- The runs of the kind that were created in the account from `start` to `stop`. -/
def runsWithin (s : BudgetState) (kind : RunBudgetKind) (accountId : String) (start stop : Int) :
    Nat :=
  s.runs.countP fun r => r.isSince kind accountId start && (r.inserted_at : Int) ≤ stop

/-- The count of a dispatch sees every run of its window, none is created behind it before the
    dispatch creates its own, and the budget of an account that has one is evaluated. -/
def countsAll (s : BudgetState) : BudgetAction → Bool
  | .failOpen k => (s.calls[k]?).all fun (d, _) => !(w.budget d.account_id).enabled
  | .next k =>
    (s.calls[k]?).all fun (d, phase) =>
      match phase with
      | .counting cfg =>
        let since := windowStart s.clock cfg.windowMs
        s.runs.all fun r => !r.isSince d.kind d.account_id (since * 1000) || !r.deleted
      | .admitted (some basis) =>
        (s.runs.drop basis.seen).all fun r => !(r.kind = d.kind && r.account_id = d.account_id)
      | _ => true
  | _ => true

section Steps

variable {w} {s s' : BudgetState} {k : Nat} {d : Dispatch} {phase : DispatchPhase}
  {kind : RunBudgetKind} {a : String} {start stop : Int}

/-- What a dispatch knows that was admitted: fewer runs than the limit had been created since the
    start of its window. -/
structure BasisOk (w : BudgetWorld) (s : BudgetState) (d : Dispatch) (b : BudgetBasis) : Prop where
  seen : b.seen ≤ s.runs.length
  since : b.since * 1000 ≤ s.clock - (w.budget d.account_id).windowMs * 1000
  room : (s.runs.take b.seen).countP (·.isSince d.kind d.account_id (b.since * 1000)) <
    (w.budget d.account_id).maxRunsPerWindow

/-- What holds of a dispatch at its phase. -/
def CallOk (w : BudgetWorld) (s : BudgetState) : Dispatch × DispatchPhase → Prop
  | (d, .counting cfg) => cfg = w.budget d.account_id
  | (d, .admitted (some b)) => BasisOk w s d b
  | (d, .admitted none) => (w.budget d.account_id).enabled = false
  | _ => True

/-- What holds along a run. -/
structure BudgetInv (w : BudgetWorld) (s : BudgetState) : Prop where
  stamped : ∀ r ∈ s.runs, r.created_at = createdAt w.store r.inserted_at
  calls : ∀ c ∈ s.calls, CallOk w s c
  kept : ∀ (kind : RunBudgetKind) (a : String) (start : Int), (w.budget a).enabled = true →
    s.runsWithin kind a start (start + (w.budget a).windowMs * 1000) ≤
      (w.budget a).maxRunsPerWindow

/-- What the counts of runs see of a run. -/
def sight (r : CreatedRun) : RunBudgetKind × String × Nat := (r.kind, r.account_id, r.inserted_at)

theorem countP_isSince_of_sight {l l' : List CreatedRun} (h : l'.map sight = l.map sight) :
    l'.countP (·.isSince kind a start) = l.countP (·.isSince kind a start) := by
  let p : RunBudgetKind × String × Nat → Bool :=
    fun v => v.1 = kind && v.2.1 = a && start ≤ (v.2.2 : Int)
  have hcount := congrArg (List.countP p) h
  rwa [List.countP_map, List.countP_map] at hcount

theorem runsWithin_of_sight (h : s'.runs.map sight = s.runs.map sight) :
    s'.runsWithin kind a start stop = s.runsWithin kind a start stop := by
  let p : RunBudgetKind × String × Nat → Bool :=
    fun v => (v.1 = kind && v.2.1 = a && start ≤ (v.2.2 : Int)) && (v.2.2 : Int) ≤ stop
  have hcount := congrArg (List.countP p) h
  rwa [List.countP_map, List.countP_map] at hcount

theorem CallOk.mono {c : Dispatch × DispatchPhase} (h : CallOk w s c) (hclock : s.clock ≤ s'.clock)
    (hruns : ∃ new, s'.runs.map sight = s.runs.map sight ++ new) : CallOk w s' c := by
  obtain ⟨d, phase⟩ := c
  cases phase with
  | admitted basis =>
    cases basis with
    | none => exact h
    | some b =>
      have h : BasisOk w s d b := h
      obtain ⟨new, hnew⟩ := hruns
      have hlen : s.runs.length ≤ s'.runs.length := by
        have := congrArg List.length hnew
        simp only [List.length_map, List.length_append] at this
        omega
      have htake : (s'.runs.take b.seen).map sight = (s.runs.take b.seen).map sight := by
        rw [List.map_take, hnew, List.take_append_of_le_length (by simpa using h.seen),
          ← List.map_take]
      have hsince := h.since
      refine ⟨Nat.le_trans h.seen hlen, by omega, ?_⟩
      rw [countP_isSince_of_sight htake]
      exact h.room
  | _ => exact h

section

variable (h : BudgetInv w s)
include h

theorem BudgetInv.move (hclock : s.clock ≤ s'.clock)
    (hstamped : ∀ r ∈ s'.runs, r.created_at = createdAt w.store r.inserted_at)
    (hruns : s'.runs.map sight = s.runs.map sight)
    (hcalls : ∀ c ∈ s'.calls, c ∈ s.calls ∨ CallOk w s' c) : BudgetInv w s' where
  stamped := hstamped
  calls c hc := (hcalls c hc).elim
    (fun hold => (h.calls c hold).mono hclock ⟨[], by rw [hruns, List.append_nil]⟩) id
  kept kind a start ha := by
    rw [runsWithin_of_sight hruns]
    exact h.kept kind a start ha

theorem BudgetInv.setPhase (hc : CallOk w s (d, phase)) :
    BudgetInv w (s.setPhase k d phase) := by
  refine h.move (Nat.le_refl _) h.stamped rfl fun c hmem => ?_
  rcases List.mem_or_eq_of_mem_set hmem with hmem | rfl
  · exact .inl hmem
  · exact .inr (hc.mono (Nat.le_refl _) ⟨[], (List.append_nil _).symm⟩)

/-- A run is deleted, which no count of what was created can tell. -/
theorem BudgetInv.deleteRun (i : Nat) : BudgetInv w (s.deleteRun i) := by
  refine h.move (Nat.le_refl _) (fun r hr => ?_) (map_modify_of_eq fun _ => rfl)
    fun c hc => .inl hc
  obtain ⟨j, hj⟩ := List.mem_iff_getElem?.mp hr
  rcases getElem?_modify_cases hj with ⟨-, r₀, hr₀, rfl⟩ | ⟨-, hold⟩
  · exact h.stamped r₀ (List.mem_of_getElem? hr₀)
  · exact h.stamped r (List.mem_of_getElem? hold)

/-- The count of a dispatch that sees every run of its window. -/
theorem BudgetInv.count {cfg : ResolvedHardBudget} (hcfg : cfg = w.budget d.account_id)
    (hroom : s.countRunsInWindow w d.kind d.account_id (windowStart s.clock cfg.windowMs) <
      cfg.maxRunsPerWindow)
    (hall : (s.runs.all fun r => !r.isSince d.kind d.account_id
      (windowStart s.clock cfg.windowMs * 1000) || !r.deleted) = true) :
    BasisOk w s d { seen := s.runs.length, since := windowStart s.clock cfg.windowMs } := by
  subst hcfg
  refine ⟨Nat.le_refl _, ?_, ?_⟩
  · show ((s.clock / 1000 : Nat) - ((w.budget d.account_id).windowMs : Int)) * 1000 ≤ _
    omega
  · rw [List.take_length]
    refine Nat.lt_of_le_of_lt (List.countP_mono_left fun r hr hsince => ?_) hroom
    have hlive := List.all_eq_true.mp hall r hr
    rw [hsince, Bool.not_true, Bool.false_or] at hlive
    simp only [CreatedRun.isSince, Bool.and_eq_true, decide_eq_true_eq] at hsince
    obtain ⟨⟨hkind, haccount⟩, hat⟩ := hsince
    have hbound : sinceBoundaryParam w.store _ ≤ createdAt w.store _ := createdAt_ge hat
    rw [← h.stamped r hr] at hbound
    simp [hlive, hkind, haccount, hbound]

/-- The insert behind a full count: the runs of a window that ends now were all counted. -/
theorem BudgetInv.insert {basis : Option BudgetBasis}
    (hk : s.calls[k]? = some (d, .admitted basis)) (hclear : s.countsAll w (.next k) = true)
    (hs : s.callNext w k d (.admitted basis) = some s') : BudgetInv w s' := by
  cases hs
  have hok := h.calls _ (List.mem_of_getElem? hk)
  refine ⟨fun r hr => ?_, fun c hc => ?_, fun kind a start ha => ?_⟩
  · rcases List.mem_append.mp hr with hr | hr
    · exact h.stamped r hr
    · rw [List.mem_singleton.mp hr]
  · rcases List.mem_or_eq_of_mem_set hc with hc | rfl
    · exact (h.calls c hc).mono (Nat.le_refl _) ⟨_, List.map_append⟩
    · cases d.max_runs <;> trivial
  · have hkept := h.kept kind a start ha
    unfold runsWithin at hkept ⊢
    rw [List.countP_append, List.countP_singleton]
    split
    · -- The new run is in the window, which then begins behind the bound of the count.
      rename_i hnew
      simp only [CreatedRun.isSince, Bool.and_eq_true, decide_eq_true_eq] at hnew
      obtain ⟨⟨⟨rfl, rfl⟩, hstart⟩, hstop⟩ := hnew
      cases basis with
      | none =>
        change (w.budget d.account_id).enabled = false at hok
        rw [hok] at ha
        cases ha
      | some b =>
        have hok : BasisOk w s d b := hok
        simp only [countsAll, hk, Option.all_some] at hclear
        have hbound : b.since * 1000 ≤ start := by
          have := hok.since
          omega
        have hsplit : s.runs.countP (·.isSince d.kind d.account_id start) ≤
            (s.runs.take b.seen).countP (·.isSince d.kind d.account_id (b.since * 1000)) := by
          conv_lhs => rw [← List.take_append_drop b.seen s.runs]
          rw [List.countP_append]
          have hbehind : (s.runs.drop b.seen).countP (·.isSince d.kind d.account_id start) = 0 := by
            refine List.countP_eq_zero.mpr fun r hr hsince => ?_
            have hother := List.all_eq_true.mp hclear r hr
            simp only [CreatedRun.isSince, Bool.and_eq_true] at hsince
            simp [hsince.1.1, hsince.1.2] at hother
          rw [hbehind, Nat.add_zero]
          refine List.countP_mono_left fun r _ hsince => ?_
          simp only [CreatedRun.isSince, Bool.and_eq_true, decide_eq_true_eq] at hsince ⊢
          exact ⟨hsince.1, Int.le_trans hbound hsince.2⟩
        have hle : s.runs.countP (fun r => r.isSince d.kind d.account_id start &&
            decide ((r.inserted_at : Int) ≤ start + (w.budget d.account_id).windowMs * 1000)) ≤
            s.runs.countP (·.isSince d.kind d.account_id start) :=
          List.countP_mono_left fun r _ hr => (Bool.and_eq_true _ _ ▸ hr).1
        have hroom := hok.room
        omega
    · exact hkept

theorem BudgetInv.callNext (hk : s.calls[k]? = some (d, phase))
    (hclear : s.countsAll w (.next k) = true) (hs : s.callNext w k d phase = some s') :
    BudgetInv w s' := by
  cases phase with
  | resolving =>
    cases hs
    refine h.setPhase ?_
    split
    · rfl
    · rename_i hoff
      show (w.budget d.account_id).enabled = false
      simpa using hoff
  | counting cfg =>
    simp only [BudgetState.callNext] at hs
    split at hs
    · rename_i hroom
      cases hs
      simp only [countsAll, hk, Option.all_some] at hclear
      exact h.setPhase (h.count (h.calls _ (List.mem_of_getElem? hk)) hroom hclear)
    · cases hs
      exact h.setPhase trivial
  | admitted basis => exact h.insert hk hclear hs
  | pruning =>
    cases hs
    exact h.setPhase trivial
  | deleting runs =>
    cases runs with
    | nil =>
      cases hs
      exact h.setPhase trivial
    | cons i rest =>
      cases hs
      exact (h.deleteRun i).setPhase trivial
  | ended => cases hs

theorem BudgetInv.step {a : BudgetAction} (hs : a.run w s = some s')
    (hclear : s.countsAll w a = true) : BudgetInv w s' := by
  cases a with
  | tick elapsed =>
    cases hs
    exact h.move (Nat.le_add_right _ _) h.stamped rfl fun c hc => .inl hc
  | start d =>
    cases hs
    refine h.move (Nat.le_refl _) h.stamped rfl fun c hc => ?_
    rcases List.mem_append.mp hc with hc | hc
    · exact .inl hc
    · obtain rfl := List.mem_singleton.mp hc
      exact .inr trivial
  | next k =>
    obtain ⟨⟨d, phase⟩, hk, hs⟩ := Option.bind_eq_some_iff.mp hs
    exact h.callNext hk hclear hs
  | failOpen k =>
    obtain ⟨⟨d, phase⟩, hk, hs⟩ := Option.bind_eq_some_iff.mp hs
    have hoff : (w.budget d.account_id).enabled = false := by
      simpa [countsAll, hk] using hclear
    cases phase with
    | resolving =>
      cases hs
      exact h.setPhase hoff
    | counting cfg =>
      cases hs
      exact h.setPhase hoff
    | _ => cases hs
  | throws k =>
    obtain ⟨⟨d, phase⟩, hk, rfl⟩ := Option.map_eq_some_iff.mp hs
    exact h.setPhase trivial
  | delete i =>
    cases hs
    exact h.deleteRun i

end

/-- The budget is kept: in every run whose counts see every run of their window, in an account
    whose budget is on, no window has more runs of a kind than the limit. -/
theorem run_budget_kept
    (h : ((budgetSystem w).restrict fun s a _ => s.countsAll w a = true).Reachable s)
    (ha : (w.budget a).enabled = true) :
    s.runsWithin kind a start (start + (w.budget a).windowMs * 1000) ≤
      (w.budget a).maxRunsPerWindow := by
  have hinv : BudgetInv w s := by
    refine h.invariant (P := BudgetInv w) ?_ ?_
    · rintro s ⟨hruns, hcalls⟩
      refine ⟨by simp [hruns], by simp [hcalls], fun kind a start _ => ?_⟩
      simp [runsWithin, hruns]
    · rintro s a s' _ hi ⟨hs, hclear⟩
      exact hi.step hs hclear
  exact hinv.kept kind a start ha

end Steps

/-! ## Runs with a small budget -/

/-- A store whose accounts may create `limit` runs in an hour. -/
def smallWorld (limit : Nat) : BudgetWorld :=
  { store := .postgres, base := { maxRunsPerWindow := limit }, config := fun _ => none }

theorem exists_checked_budget (limit : Nat) (C : BudgetState → BudgetAction → Bool)
    (actions : List BudgetAction) (q : BudgetState → Bool)
    (h : (Transition.runChecked (BudgetAction.run (smallWorld limit)) C {} actions).any q =
      true) :
    ∃ s, ((budgetSystem (smallWorld limit)).restrict fun s a _ => C s a = true).Reachable s ∧
      q s = true :=
  Transition.exists_reachable_checked (M := budgetSystem (smallWorld limit)) (fun _ _ _ hs => hs)
    ⟨rfl, rfl⟩ actions q h

/-- The runs of the first hour in account `a`. -/
def firstHour (limit : Nat) (s : BudgetState) : Nat :=
  s.runsWithin .qa "a" 0 (0 + ((smallWorld limit).budget "a").windowMs * 1000)

/-- A run of a scenario of account `a` that keeps one run. -/
def qaRun : Dispatch := { kind := .qa, account_id := "a", owner_id := "s1", max_runs := some 1 }

/-- Dispatch `k` from its start to its end. -/
def dispatches (k : Nat) : List BudgetAction := .start qaRun :: List.replicate 5 (.next k)

/-- The first dispatch creates its run, the second one is refused. -/
theorem run_budget_kept_small : ∃ s : BudgetState, s.runs.length = 1 ∧ s.calls.length = 2 ∧
    firstHour 1 s ≤ 1 := by
  obtain ⟨s, hreach, hq⟩ := exists_checked_budget 1 (countsAll (smallWorld 1))
    (dispatches 0 ++ [.tick 60000000, .start qaRun, .next 1, .next 1])
    (fun s => s.runs.length = 1 && s.calls.length = 2) (by decide +kernel)
  rw [Bool.and_eq_true, decide_eq_true_eq, decide_eq_true_eq] at hq
  exact ⟨s, hq.1, hq.2, run_budget_kept (a := "a") hreach rfl⟩

/-- Two dispatches count before either has created its run. -/
theorem budget_overrun : ¬∀ s, (budgetSystem (smallWorld 1)).Reachable s →
    firstHour 1 s ≤ 1 := by
  intro hall
  obtain ⟨s, hreach, hq⟩ := exists_checked_budget 1 (fun _ _ => true)
    [.start qaRun, .start qaRun, .next 0, .next 1, .next 0, .next 1, .next 0, .next 1]
    (fun s => firstHour 1 s = 2) (by decide +kernel)
  have htwo := hall s hreach.of_restrict
  rw [of_decide_eq_true hq] at htwo
  omega

/-- Dispatches one after the other: each run is pruned when the next one is there, so the count
    stays at one and a limit of two is passed. -/
theorem budget_pruned : ¬∀ s, (budgetSystem (smallWorld 2)).Reachable s →
    firstHour 2 s ≤ 2 := by
  intro hall
  obtain ⟨s, hreach, hq⟩ := exists_checked_budget 2 (fun _ _ => true)
    (dispatches 0 ++ (dispatches 1 ++ [.next 1]) ++ (dispatches 2 ++ [.next 2]))
    (fun s => firstHour 2 s = 3) (by decide +kernel)
  have hthree := hall s hreach.of_restrict
  rw [of_decide_eq_true hq] at hthree
  omega

end BudgetState

end WorkflowBoard.Budget
