import WorkflowBoard.ForStd.Except
import WorkflowBoard.ForStd.List
import WorkflowBoard.Native.QaRuns

/-!
# A QA run is finalised once

`completeRun` writes its verdict whatever the status of the run, and the reaper writes the one it
made from an earlier read; each goes on to file a ticket for the run it has in hand. Where no
verdict is written on a run that has ended, and nobody turns to file a ticket while another one
is being filed or behind one that the run in hand does not show, the first verdict stays and at
most one ticket is created.
-/

namespace WorkflowBoard.Qa

namespace RunState

/-- The verdict of a run that has ended stays. -/
def VerdictKept (s s' : RunState) : Prop :=
  s.row.status.isTerminal = true →
    s'.row.status = s.row.status ∧ s'.row.finished_at = s.row.finished_at

def isFiling (phase : RunPhase) : Bool := phase = .filing

/-- No verdict is written on a run that has ended; and a call that turns to file a ticket finds
    none created yet and no other call that is filing one. -/
def settles (s : RunState) : RunAction → Bool
  | .next enabled existing k =>
    match s.calls[k]? with
    | some (.saving .verdict ..) | some (.updating ..) => !s.row.status.isTerminal
    | some (.processing run) =>
      !isQaFailure run.status || !enabled || run.auto_ticket_id.isSome || existing.isSome ||
        (s.history.tickets = [] && !s.calls.any isFiling)
    | _ => true
  | _ => true

/-- The tickets that were or are being created. -/
def filings (s : RunState) : Nat := s.history.tickets.length + s.calls.countP isFiling

section Steps

variable {s s' : RunState} {k : Nat} {phase : RunPhase} {enabled : Bool} {existing : Option Nat}

theorem countP_setCall (h : s.calls[k]? = some phase) (phase' : RunPhase) :
    (s.setCall k phase').calls.countP isFiling + (if isFiling phase then 1 else 0) =
      s.calls.countP isFiling + if isFiling phase' then 1 else 0 := by
  obtain ⟨hk, rfl⟩ := List.getElem?_eq_some_iff.mp h
  have hpos : (if isFiling s.calls[k] then 1 else 0) ≤ s.calls.countP isFiling := by
    split
    · rename_i hfiling
      exact List.countP_pos_iff.mpr ⟨_, List.getElem_mem hk, hfiling⟩
    · exact Nat.zero_le _
  change (s.calls.set k phase').countP isFiling + _ = _
  rw [List.countP_set hk]
  omega

theorem filings_setCall (h : s.calls[k]? = some phase) (phase' : RunPhase)
    (hphase : isFiling phase' = false) :
    (s.setCall k phase').filings + (if isFiling phase then 1 else 0) = s.filings := by
  have hcount := countP_setCall h phase'
  rw [hphase, if_neg Bool.false_ne_true] at hcount
  change s.history.tickets.length + (s.setCall k phase').calls.countP isFiling + _ = _
  unfold filings
  omega

theorem filings_le (h : s.calls[k]? = some phase) (phase' : RunPhase)
    (hphase : isFiling phase' = false) : (s.setCall k phase').filings ≤ s.filings :=
  Nat.le_of_add_right_le (filings_setCall h phase' hphase).le

theorem save_verdict {op : RunOp} (hop : op ≠ .verdict) (entity reread row : QaRun) :
    (op.save entity reread row).status = row.status ∧
      (op.save entity reread row).finished_at = row.finished_at := by
  cases op with
  | verdict => exact absurd rfl hop
  | _ => exact ⟨rfl, rfl⟩

/-- The next statement of a call keeps the verdict of a run that has ended, and starts one
    filing at most, the first. -/
theorem run_next (hk : s.calls[k]? = some phase) (hs : s.next enabled existing k phase = some s')
    (hclear : s.settles (.next enabled existing k) = true) :
    VerdictKept s s' ∧ (s'.filings ≤ s.filings ∨ s'.filings ≤ 1) := by
  unfold settles at hclear
  dsimp only at hclear
  rw [hk] at hclear
  unfold next at hs
  split at hs
  · cases hs
    exact ⟨fun _ => ⟨rfl, rfl⟩, .inl (filings_le hk _ rfl)⟩
  · rename_i op read run reread
    cases hs
    have hfilings : (s.setCall k (if op = .verdict then .processing run else .finished)).filings ≤
        s.filings := by
      refine filings_le hk _ ?_
      split <;> rfl
    have htickets : (op.note s.history).tickets = s.history.tickets := by
      cases op <;> rfl
    refine ⟨fun hended => ?_, .inl ?_⟩
    · by_cases hop : op = .verdict
      · subst hop
        rw [hended] at hclear
        cases hclear
      · exact save_verdict hop ..
    · unfold filings at hfilings ⊢
      dsimp only
      rw [htickets]
      exact hfilings
  · cases hs
    refine ⟨fun hended => ?_, .inl (filings_le hk _ rfl)⟩
    rw [hended] at hclear
    cases hclear
  · cases hs
    exact ⟨fun _ => ⟨rfl, rfl⟩, .inl (filings_le hk _ rfl)⟩
  · rename_i run
    split at hs
    · cases hs
      exact ⟨fun _ => ⟨rfl, rfl⟩, .inl (filings_le hk _ rfl)⟩
    · rename_i hfiles
      cases hs
      refine ⟨fun _ => ⟨rfl, rfl⟩, ?_⟩
      cases existing with
      | some ticket => exact .inl (filings_le hk _ rfl)
      | none =>
        -- the first one
        rw [not_or, not_or] at hfiles
        obtain ⟨hfailure, henabled, hauto⟩ := hfiles
        dsimp only at hclear
        rw [Bool.eq_false_of_not_eq_true hfailure, Bool.eq_false_of_not_eq_true henabled,
          Bool.eq_false_of_not_eq_true hauto, Bool.false_or, Bool.false_or, Bool.false_or,
          Option.isSome_none, Bool.false_or, Bool.and_eq_true, decide_eq_true_eq,
          Bool.not_eq_true'] at hclear
        have hnone : s.calls.countP isFiling = 0 :=
          List.countP_eq_zero.mpr fun p hp => by simpa using List.any_eq_false.mp hclear.2 p hp
        have hcount := countP_setCall hk .filing
        refine .inr ?_
        change s.history.tickets.length + (s.setCall k .filing).calls.countP isFiling ≤ 1
        rw [hclear.1, List.length_nil]
        have hone : (if isFiling .filing then 1 else 0) = 1 := rfl
        omega
  · cases hs
    refine ⟨fun _ => ⟨rfl, rfl⟩, .inl ?_⟩
    have hmove := filings_setCall hk (.stamping s.history.tickets.length) rfl
    have hone : (if isFiling .filing then 1 else 0) = 1 := rfl
    unfold filings at hmove ⊢
    dsimp only
    rw [List.length_append, List.length_singleton]
    change s.history.tickets.length + _ + _ = _ at hmove
    omega
  · cases hs
    exact ⟨fun _ => ⟨rfl, rfl⟩, .inl (filings_le hk _ rfl)⟩
  · cases hs

/-- A statement keeps the verdict of a run that has ended, and at most one ticket is or was being
    created. -/
theorem run_step {a : RunAction} (hs : a.run s = some s') (hclear : s.settles a = true) :
    VerdictKept s s' ∧ (s'.filings ≤ s.filings ∨ s'.filings ≤ 1) := by
  have hopen : ∀ phase, isFiling phase = false →
      VerdictKept s (s.open_ phase) ∧
        ((s.open_ phase).filings ≤ s.filings ∨ (s.open_ phase).filings ≤ 1) := by
    intro phase hphase
    refine ⟨fun _ => ⟨rfl, rfl⟩, .inl ?_⟩
    change s.history.tickets.length + (s.calls ++ [phase]).countP isFiling ≤ _
    rw [List.countP_append, List.countP_singleton, hphase]
    exact Nat.le_refl _
  cases a with
  | read input now =>
    obtain ⟨op, _, hs⟩ := Option.bind_eq_some_iff.mp hs
    split at hs
    · cases hs
    · cases hs
      exact hopen _ rfl
  | dispatchFails now =>
    cases hs
    exact hopen _ rfl
  | complete status evidence now =>
    cases hs
    exact hopen _ rfl
  | next enabled existing k =>
    obtain ⟨phase, hk, hs⟩ := Option.bind_eq_some_iff.mp hs
    exact run_next hk hs hclear
  | throws k =>
    obtain ⟨phase, hk, rfl⟩ := Option.map_eq_some_iff.mp hs
    exact ⟨fun _ => ⟨rfl, rfl⟩, .inl (filings_le hk _ rfl)⟩

/-- A run is finalised once: in every run of the calls that meet the condition, the verdict of a
    run that has ended stays, and at most one ticket is created. -/
theorem finalised_once
    (h : (runSystem.restrict fun s a _ => s.settles a = true).Reachable s) :
    s.history.tickets.length ≤ 1 ∧
      ∀ a s', (runSystem.restrict fun s a _ => s.settles a = true).step s a s' →
        VerdictKept s s' := by
  have hfilings : s.filings ≤ 1 := by
    refine h.invariant (P := fun s => s.filings ≤ 1) ?_ ?_
    · rintro s ⟨_, _, _, _, hcalls, hhistory⟩
      unfold filings
      rw [hcalls, hhistory]
      exact Nat.zero_le 1
    · rintro s a s' _ hi ⟨hs, hclear⟩
      rcases (run_step hs hclear).2 with hle | hle
      · exact hle.trans hi
      · exact hle
  exact ⟨Nat.le_of_add_right_le hfilings, fun a s' hs => (run_step hs.1 hs.2).1⟩

end Steps

/-! ## Runs of the calls -/

theorem exists_checked_run (C : RunState → RunAction → Bool) (actions : List RunAction)
    (p : RunState → Bool)
    (h : (Transition.runChecked RunAction.run C ⟨startQaRun "" 0, startQaRun "" 0, [], {}⟩
      actions).any p = true) :
    ∃ s, (runSystem.restrict fun s a _ => C s a = true).Reachable s ∧ p s = true :=
  Transition.exists_reachable_checked (M := runSystem) (fun _ _ _ hs => hs)
    ⟨"", 0, rfl, rfl, rfl, rfl⟩ actions p h

/-- The next statement of call `k`, for a scenario that files tickets and has none open. -/
def nextOf (k : Nat) : RunAction := .next true none k

/-- A run that fails and is filed; a sweep that comes later leaves it alone. -/
theorem finalised_once_small : ∃ s : RunState, s.row.status = .failed ∧
    s.history.tickets.length = 1 ∧ ∀ a s',
      (runSystem.restrict fun s a _ => s.settles a = true).step s a s' → VerdictKept s s' := by
  obtain ⟨s, hreach, hp⟩ := exists_checked_run settles
    [.complete .failed true 1, nextOf 0, nextOf 0, nextOf 0, nextOf 0, nextOf 0]
    (fun s => s.row.status = .failed && s.history.tickets.length = 1) (by decide +kernel)
  rw [Bool.and_eq_true, decide_eq_true_eq, decide_eq_true_eq] at hp
  exact ⟨s, hp.1, hp.2, (finalised_once hreach).2⟩

/-- The agent completes the run between the reaper's read and its save: the reaper's verdict
    replaces the agent's, and each of them files a ticket. -/
theorem finalised_twice : ¬∀ s, runSystem.Reachable s → s.history.tickets.length ≤ 1 ∧
    ∀ a s', runSystem.step s a s' → VerdictKept s s' := by
  intro hall
  obtain ⟨s, hreach, hp⟩ := exists_checked_run (fun _ _ => true)
    [.read .verdict 1, .complete .failed true 2, nextOf 1, nextOf 1, nextOf 1, nextOf 1, nextOf 1,
      nextOf 0, nextOf 0, nextOf 0, nextOf 0]
    (fun s => s.history.tickets.length = 2) (by decide +kernel)
  have htwo := (hall s hreach.of_restrict).1
  rw [of_decide_eq_true hp] at htwo
  cases htwo with
  | step h => cases h

end RunState

end WorkflowBoard.Qa
