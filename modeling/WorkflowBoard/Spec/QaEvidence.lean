import Mathlib.Algebra.Order.Ring.Unbundled.Rat
import WorkflowBoard.Spec.QaFinalOnce

/-!
# The evidence of a QA run

Steps, artifacts, heartbeats and phases are each read, changed and saved as a whole column. Where
no other call changes such a column between the read of a call and its write, the row has what
was accepted: the last entry of each step, every artifact, the greatest token, every phase. And
where a pass is written only over steps that allow it, and behind a pass only such steps are
recorded, a passed run has no failed or pending step.
-/

namespace WorkflowBoard.Qa

/-- The row holds what was accepted. -/
structure Evidence (row : QaRun) (history : RunHistory) : Prop where
  recorded : ∀ r ∈ row.step_results, r ∈ history.steps
  distinct : (row.step_results.map (·.idx)).Nodup
  complete : ∀ e ∈ history.steps, e.idx ∈ row.step_results.map (·.idx)
  artifacts : ∀ id, id ∈ row.artifact_resource_ids ↔ id ∈ history.artifacts
  tokens : (∀ t ∈ row.liveness_token, t ∈ history.tokens) ∧
    ∀ t ∈ history.tokens, ∃ u ∈ row.liveness_token, t ≤ u
  phases : row.phase_history.map (·.phase) = history.phases
  closed : ∀ e ∈ row.phase_history.dropLast, e.left_at ≠ none
  passed : row.status = .passed → stepGate row = true

namespace RunState

/-- Each call has returned. -/
def Quiet (s : RunState) : Prop := ∀ phase ∈ s.calls, phase = .finished

/-- When all calls have returned the row holds the evidence; and a passed run has no step that
    failed or is pending. -/
def KeepsEvidence (s : RunState) : Prop :=
  (s.Quiet → Evidence s.row s.history) ∧ (s.row.status = .passed → stepGate s.row = true)

end RunState

/-- The row holds, in the columns that the call saves, what the call read; a token that is above
    both stands for itself. -/
def RunOp.seesCurrent (op : RunOp) (read row : QaRun) : Bool :=
  match op with
  | recordStep _ => read.step_results = row.step_results &&
      read.artifact_resource_ids = row.artifact_resource_ids
  | attachArtifact _ => read.artifact_resource_ids = row.artifact_resource_ids
  | recordHeartbeat token => read.liveness_token = row.liveness_token ||
      (read.liveness_token.all (· < token) && row.liveness_token.all (· < token))
  | setPhase _ => read.phase_history = row.phase_history
  | verdict => true

/-- The step may stand under the status of the run. -/
def RunOp.allowed (op : RunOp) (row : QaRun) : Bool :=
  match op with
  | recordStep entry =>
    row.status ≠ .passed || (entry.status ≠ .failed && entry.status ≠ .pending)
  | _ => true

/-- No other call changes the columns of a call between its read and its write; a pass is written
    over steps that allow it, and only such steps are recorded behind it. -/
def RunState.exclusive (s : RunState) : RunAction → Bool
  | .next _ _ k =>
    match s.calls[k]? with
    | some (.selecting op read _) => op.seesCurrent read s.row
    | some (.saving op read _ _) => op.seesCurrent read s.row && op.allowed s.row
    | some (.updating _ status _) => status ≠ .passed || stepGate s.row
    | _ => true
  | _ => true

/-! ## Steps and artifacts -/

section Columns

variable {entry : QaStepResult} {rs : List QaStepResult}

theorem mem_putStep {r : QaStepResult} (h : r ∈ putStep entry rs) : r = entry ∨ r ∈ rs := by
  induction rs with
  | nil => exact .inl (List.mem_singleton.mp h)
  | cons x rs ih =>
    unfold putStep at h
    split at h
    · rcases List.mem_cons.mp h with rfl | h
      · exact .inl rfl
      · exact .inr (List.mem_cons_of_mem _ h)
    · rcases List.mem_cons.mp h with rfl | h
      · exact .inr List.mem_cons_self
      · exact (ih h).imp_right (List.mem_cons_of_mem _)

theorem idx_putStep (entry : QaStepResult) (rs : List QaStepResult) :
    (putStep entry rs).map (·.idx) =
      if entry.idx ∈ rs.map (·.idx) then rs.map (·.idx) else rs.map (·.idx) ++ [entry.idx] := by
  induction rs with
  | nil => rfl
  | cons x rs ih =>
    unfold putStep
    by_cases hx : x.idx = entry.idx
    · rw [if_pos hx, List.map_cons, List.map_cons, hx, if_pos List.mem_cons_self]
    · rw [if_neg hx, List.map_cons, ih, List.map_cons]
      by_cases hmem : entry.idx ∈ rs.map (·.idx)
      · rw [if_pos hmem, if_pos (List.mem_cons_of_mem _ hmem)]
      · have hnot : entry.idx ∉ x.idx :: rs.map (·.idx) :=
          fun h => (List.mem_cons.mp h).elim (fun heq => hx heq.symm) hmem
        rw [if_neg hmem, if_neg hnot, List.cons_append]

theorem nodup_putStep (h : (rs.map (·.idx)).Nodup) : ((putStep entry rs).map (·.idx)).Nodup := by
  rw [idx_putStep]
  split
  · exact h
  · rename_i hnew
    refine List.nodup_append.mpr ⟨h, List.nodup_singleton _, fun a ha b hb => ?_⟩
    obtain rfl := List.mem_singleton.mp hb
    exact fun heq => hnew (heq ▸ ha)

theorem idx_mem_putStep {i : Int} :
    i ∈ (putStep entry rs).map (·.idx) ↔ i = entry.idx ∨ i ∈ rs.map (·.idx) := by
  rw [idx_putStep]
  split
  · rename_i hold
    exact ⟨.inr, fun h => h.elim (fun heq => heq ▸ hold) id⟩
  · rw [List.mem_append, List.mem_singleton, or_comm]

theorem mem_addArtifacts {ids add : List String} {id : String} :
    id ∈ addArtifacts ids add ↔ id ∈ ids ∨ id ∈ add := by
  unfold addArtifacts
  split
  · rename_i hnone
    rw [hnone]
    simp
  · rw [List.mem_eraseDups, List.mem_append]

/-- Steps that are recorded in the order of their indices. -/
theorem sorted_steps_perm (rs : List QaStepResult) :
    (rs.insertionSort fun a b => a.idx ≤ b.idx).Perm rs :=
  List.perm_insertionSort _ rs

end Columns

/-! ## Changes of the row -/

section Changes

variable {row row' : QaRun} {history : RunHistory}

theorem Evidence.status (h : Evidence row history) {status : QaRunStatus}
    {finished_at : Option Date} {auto_ticket_id : Option Nat}
    (hpassed : status = .passed → stepGate row = true) :
    Evidence { row with status, finished_at, auto_ticket_id } history :=
  ⟨h.recorded, h.distinct, h.complete, h.artifacts, h.tokens, h.phases, h.closed, hpassed⟩

/-- A recorded step keeps the evidence. -/
theorem Evidence.recordStep (h : Evidence row history) {entry : QaStepResult}
    (hallowed : row.status = .passed → entry.status ≠ .failed ∧ entry.status ≠ .pending) :
    Evidence (withStep row entry) ((RunOp.recordStep entry).note history) := by
  have hperm := sorted_steps_perm (putStep entry row.step_results)
  have hidx := hperm.map (·.idx)
  refine ⟨fun r hr => ?_, ?_, fun e he => ?_, fun id => ?_, h.tokens, h.phases, h.closed,
    fun hpassed => ?_⟩
  · rcases mem_putStep (hperm.mem_iff.mp hr) with rfl | hr
    · exact List.mem_append_right _ (List.mem_singleton.mpr rfl)
    · exact List.mem_append_left _ (h.recorded r hr)
  · exact hidx.nodup_iff.mpr (nodup_putStep h.distinct)
  · refine hidx.mem_iff.mpr (idx_mem_putStep.mpr ?_)
    rcases List.mem_append.mp he with he | he
    · exact .inr (h.complete e he)
    · exact .inl (congrArg _ (List.mem_singleton.mp he))
  · change id ∈ addArtifacts _ _ ↔ id ∈ history.artifacts ++ entry.artifact_resource_ids
    rw [mem_addArtifacts, List.mem_append, h.artifacts]
  · refine List.all_eq_true.mpr fun r hr => ?_
    rcases mem_putStep (hperm.mem_iff.mp hr) with rfl | hr
    · exact decide_eq_true (hallowed hpassed)
    · exact List.all_eq_true.mp (h.passed hpassed) r hr

theorem Evidence.attachArtifact (h : Evidence row history) (ids : List String) :
    Evidence (withArtifacts row ids) ((RunOp.attachArtifact ids).note history) := by
  refine ⟨h.recorded, h.distinct, h.complete, fun id => ?_, h.tokens, h.phases, h.closed,
    h.passed⟩
  change id ∈ addArtifacts _ _ ↔ id ∈ history.artifacts ++ ids
  rw [mem_addArtifacts, List.mem_append, h.artifacts]

/-- A token is accepted: the row has the greater one of the two. -/
theorem Evidence.heartbeat (h : Evidence row history) {token : Rat} {at_ : Option Date}
    {liveness_token : Option Rat}
    (htoken : liveness_token = some token ∧ row.liveness_token.all (· < token) = true ∨
      liveness_token = row.liveness_token ∧ ∃ t ∈ row.liveness_token, token ≤ t) :
    Evidence { row with liveness_token, liveness_token_at := at_ }
      ((RunOp.recordHeartbeat token).note history) := by
  obtain ⟨hmem, hle⟩ := h.tokens
  refine ⟨h.recorded, h.distinct, h.complete, h.artifacts, ⟨fun t ht => ?_, fun t ht => ?_⟩,
    h.phases, h.closed, h.passed⟩
  · rcases htoken with ⟨rfl, _⟩ | ⟨rfl, _⟩
    · cases ht
      exact List.mem_append_right _ (List.mem_singleton.mpr rfl)
    · exact List.mem_append_left _ (hmem t ht)
  · rcases htoken with ⟨rfl, habove⟩ | ⟨rfl, u, hu, hbelow⟩
    · refine ⟨token, rfl, ?_⟩
      rcases List.mem_append.mp ht with ht | ht
      · obtain ⟨u, hu, htu⟩ := hle t ht
        have hlt := (Option.all_eq_true _ _).mp habove u hu
        exact htu.trans (of_decide_eq_true hlt).le
      · exact (List.mem_singleton.mp ht).le
    · rcases List.mem_append.mp ht with ht | ht
      · exact hle t ht
      · exact ⟨u, hu, (List.mem_singleton.mp ht) ▸ hbelow⟩

theorem closePhase_phases (history : List QaPhaseHistoryEntry) (now : Date) :
    (closePhase history now).map (·.phase) = history.map (·.phase) ∧
      ((∀ e ∈ history.dropLast, e.left_at ≠ none) →
        ∀ e ∈ closePhase history now, e.left_at ≠ none) := by
  rcases List.eq_nil_or_concat history with rfl | ⟨rest, last, rfl⟩
  · exact ⟨rfl, nofun⟩
  · rw [List.concat_eq_append, List.dropLast_concat]
    unfold closePhase
    rw [List.getLast?_concat, List.dropLast_concat]
    dsimp only
    split
    · refine ⟨by simp, fun hrest e he => ?_⟩
      rcases List.mem_append.mp he with he | he
      · exact hrest e he
      · obtain rfl := List.mem_singleton.mp he
        exact nofun
    · rename_i hclosed
      refine ⟨rfl, fun hrest e he => ?_⟩
      rcases List.mem_append.mp he with he | he
      · exact hrest e he
      · obtain rfl := List.mem_singleton.mp he
        exact hclosed

theorem Evidence.phase (h : Evidence row history) (phase : String) (now : Date)
    {current_phase : Option String} {current_phase_at : Option Date} :
    Evidence { row with
      current_phase, current_phase_at
      phase_history := closePhase row.phase_history now ++ [⟨phase, now, none⟩] }
      ((RunOp.setPhase phase).note history) := by
  obtain ⟨hphases, hclosed⟩ := closePhase_phases row.phase_history now
  refine ⟨h.recorded, h.distinct, h.complete, h.artifacts, h.tokens, ?_, ?_, h.passed⟩
  · change (closePhase _ _ ++ [_]).map _ = history.phases ++ [phase]
    rw [List.map_append, hphases, h.phases]
    rfl
  · dsimp only
    rw [List.dropLast_concat]
    exact hclosed h.closed

/-- A save that finds what its call has read is the change of the call on the row as it is. -/
theorem Evidence.save {op : RunOp} {read reread : QaRun} {now : Date} (h : Evidence row history)
    (hreread : op.seesCurrent read reread = true) (hrow : op.seesCurrent read row = true)
    (hallowed : op.allowed row = true) :
    Evidence (op.save (op.apply read now) reread row) (op.note history) := by
  cases op with
  | recordStep entry =>
    simp only [RunOp.seesCurrent, Bool.and_eq_true, decide_eq_true_eq] at hreread hrow
    have heq : RunOp.save (.recordStep entry) (RunOp.apply (.recordStep entry) read now) reread
        row = withStep row entry := by
      simp only [RunOp.save, RunOp.apply, withStep, ← hreread.1, ← hreread.2, ← hrow.1, ← hrow.2,
        saveColumn_self]
    rw [heq]
    refine h.recordStep fun hpassed => ?_
    simpa [RunOp.allowed, hpassed] using hallowed
  | attachArtifact ids =>
    simp only [RunOp.seesCurrent, decide_eq_true_eq] at hreread hrow
    have heq : RunOp.save (.attachArtifact ids) (RunOp.apply (.attachArtifact ids) read now) reread
        row = withArtifacts row ids := by
      simp only [RunOp.save, RunOp.apply, withArtifacts, ← hreread, ← hrow, saveColumn_self]
    rw [heq]
    exact h.attachArtifact ids
  | recordHeartbeat token =>
    simp only [RunOp.seesCurrent, Bool.or_eq_true, Bool.and_eq_true, decide_eq_true_eq]
      at hreread hrow
    by_cases habove : read.liveness_token.all (· < token) = true
    · -- the token is above what the row has by now
      have hnow : ∀ run : QaRun, read.liveness_token = run.liveness_token ∨
          (read.liveness_token.all (· < token) = true ∧
            run.liveness_token.all (· < token) = true) →
          run.liveness_token.all (· < token) = true := by
        intro run hrun
        rcases hrun with hsame | hboth
        · exact hsame ▸ habove
        · exact hboth.2
      have hne : some token ≠ reread.liveness_token := by
        intro heq
        have hlt := hnow reread hreread
        rw [← heq, Option.all_some, decide_eq_true_eq] at hlt
        exact lt_irrefl _ hlt
      refine h.heartbeat (.inl ⟨?_, hnow row hrow⟩)
      simp only [RunOp.apply, withHeartbeat, if_pos habove]
      exact saveColumn_of_ne hne
    · have hsame : ∀ run : QaRun, read.liveness_token = run.liveness_token ∨
          (read.liveness_token.all (· < token) = true ∧
            run.liveness_token.all (· < token) = true) →
          read.liveness_token = run.liveness_token := fun run hrun =>
        hrun.resolve_right fun hboth => habove hboth.1
      refine h.heartbeat (.inr ⟨?_, ?_⟩)
      · simp only [RunOp.apply, withHeartbeat, if_neg habove]
        exact saveColumn_of_eq (hsame reread hreread)
      · rw [hsame row hrow] at habove
        cases htoken : row.liveness_token with
        | none => rw [htoken] at habove; exact absurd rfl habove
        | some u =>
          rw [htoken, Option.all_some, decide_eq_true_eq] at habove
          exact ⟨u, rfl, not_lt.mp habove⟩
  | setPhase phase =>
    simp only [RunOp.seesCurrent, decide_eq_true_eq] at hreread hrow
    have hphase : saveColumn (withPhase read phase now).phase_history reread.phase_history
        row.phase_history = closePhase row.phase_history now ++ [⟨phase, now, none⟩] := by
      simp only [withPhase, ← hreread, ← hrow, saveColumn_self]
    simp only [RunOp.save, RunOp.apply]
    rw [hphase]
    exact h.phase phase now
  | verdict =>
    refine h.status fun hpassed => ?_
    rcases saveColumn_cases QaRunStatus.error reread.status row.status with hsame | herror
    · exact h.passed (hsame.symm.trans hpassed)
    · cases herror.symm.trans hpassed

end Changes

/-! ## Runs -/

namespace RunState

/-- A save has in hand what its call made of the run that it read. -/
def PhaseOk : RunPhase → Prop
  | .selecting op read run => ∃ now, run = op.apply read now
  | .saving op read run reread =>
    (∃ now, run = op.apply read now) ∧ op.seesCurrent read reread = true
  | _ => True

structure EvidenceInv (s : RunState) : Prop where
  evidence : Evidence s.row s.history
  phase : ∀ phase ∈ s.calls, PhaseOk phase

section Steps

variable {s s' : RunState} {k : Nat} {phase : RunPhase} {enabled : Bool} {existing : Option Nat}

theorem EvidenceInv.setCall (h : s.EvidenceInv) {phase' : RunPhase}
    (hcalls : s'.calls = s.calls.set k phase') (hphase : PhaseOk phase')
    (hrow : Evidence s'.row s'.history) : s'.EvidenceInv := by
  refine ⟨hrow, fun p hp => ?_⟩
  rw [hcalls] at hp
  rcases List.mem_or_eq_of_mem_set hp with hp | rfl
  · exact h.phase p hp
  · exact hphase

theorem EvidenceInv.open_ (h : s.EvidenceInv) (hphase : PhaseOk phase) :
    (s.open_ phase).EvidenceInv := by
  refine ⟨h.evidence, fun p hp => ?_⟩
  rcases List.mem_append.mp hp with hp | hp
  · exact h.phase p hp
  · exact List.mem_singleton.mp hp ▸ hphase

theorem EvidenceInv.next (h : s.EvidenceInv) (hk : s.calls[k]? = some phase)
    (hs : s.next enabled existing k phase = some s')
    (hclear : s.exclusive (.next enabled existing k) = true) : s'.EvidenceInv := by
  have hphase := h.phase phase (List.mem_of_getElem? hk)
  unfold exclusive at hclear
  dsimp only at hclear
  rw [hk] at hclear
  unfold RunState.next at hs
  split at hs
  · cases hs
    exact h.setCall rfl ⟨hphase, hclear⟩ h.evidence
  · rename_i op read run reread
    cases hs
    obtain ⟨⟨now, rfl⟩, hreread⟩ := hphase
    dsimp only at hclear
    rw [Bool.and_eq_true] at hclear
    refine h.setCall rfl ?_ (h.evidence.save hreread hclear.1 hclear.2)
    split <;> trivial
  · rename_i read status finished_at
    cases hs
    refine h.setCall rfl trivial (h.evidence.status fun hpassed => ?_)
    dsimp only at hclear
    rw [hpassed] at hclear
    exact hclear
  · cases hs
    exact h.setCall rfl trivial h.evidence
  · split at hs
    · cases hs
      exact h.setCall rfl trivial h.evidence
    · cases hs
      refine h.setCall rfl ?_ h.evidence
      split <;> trivial
  · cases hs
    refine h.setCall rfl trivial ?_
    exact ⟨h.evidence.recorded, h.evidence.distinct, h.evidence.complete, h.evidence.artifacts,
      h.evidence.tokens, h.evidence.phases, h.evidence.closed, h.evidence.passed⟩
  · cases hs
    exact h.setCall rfl trivial (h.evidence.status h.evidence.passed)
  · cases hs

theorem EvidenceInv.step {a : RunAction} (h : s.EvidenceInv) (hs : a.run s = some s')
    (hclear : s.exclusive a = true) : s'.EvidenceInv := by
  cases a with
  | read input now =>
    obtain ⟨op, _, hs⟩ := Option.bind_eq_some_iff.mp hs
    split at hs
    · cases hs
    · cases hs
      exact h.open_ ⟨now, rfl⟩
  | dispatchFails now =>
    cases hs
    exact h.open_ ⟨now, rfl⟩
  | complete status evidence now =>
    cases hs
    exact h.open_ trivial
  | next enabled existing k =>
    obtain ⟨phase, hk, hs⟩ := Option.bind_eq_some_iff.mp hs
    exact h.next hk hs hclear
  | throws k =>
    obtain ⟨phase, hk, rfl⟩ := Option.map_eq_some_iff.mp hs
    exact h.setCall rfl trivial h.evidence

theorem evidence_startQaRun (initialPhase : String) (now : Date) :
    Evidence (startQaRun initialPhase now)
      { phases := (startQaRun initialPhase now).phase_history.map (·.phase) } := by
  have hrow : (startQaRun initialPhase now).step_results = [] ∧
      (startQaRun initialPhase now).artifact_resource_ids = [] ∧
      (startQaRun initialPhase now).liveness_token = none ∧
      (startQaRun initialPhase now).status = .running ∧
      (startQaRun initialPhase now).phase_history.dropLast = [] := by
    unfold startQaRun
    split <;> exact ⟨rfl, rfl, rfl, rfl, rfl⟩
  obtain ⟨hsteps, hartifacts, htoken, hstatus, hphases⟩ := hrow
  refine ⟨?_, ?_, nofun, ?_, ⟨?_, nofun⟩, rfl, ?_, ?_⟩
  · rw [hsteps]
    exact nofun
  · rw [hsteps]
    exact List.nodup_nil
  · rw [hartifacts]
    exact fun _ => Iff.rfl
  · rw [htoken]
    exact nofun
  · rw [hphases]
    exact nofun
  · rw [hstatus]
    exact nofun

/-- The row has the evidence: in every run of the calls in which no other call changes the columns
    of a call between its read and its write, a pass is written over steps that allow it, and
    only such steps are recorded behind it. -/
theorem evidence_kept
    (h : (runSystem.restrict fun s a _ => s.exclusive a = true).Reachable s) :
    s.KeepsEvidence := by
  have hinv : s.EvidenceInv := by
    refine h.invariant (P := EvidenceInv) ?_ ?_
    · rintro s ⟨initialPhase, now, hrow, _, hcalls, hhistory⟩
      refine ⟨?_, fun p hp => ?_⟩
      · rw [hhistory, hrow]
        exact evidence_startQaRun initialPhase now
      · rw [hcalls] at hp
        cases hp
    · rintro s a s' _ hi ⟨hs, hclear⟩
      exact hi.step hs hclear
  exact ⟨fun _ => hinv.evidence, hinv.evidence.passed⟩

end Steps

/-! ## Runs of the calls -/

/-- Two steps that pass, one after the other, and then the run. -/
theorem evidence_kept_small : ∃ s : RunState, s.Quiet ∧ s.row.status = .passed ∧
    s.row.step_results.length = 2 ∧ Evidence s.row s.history := by
  obtain ⟨s, hreach, hp⟩ := exists_checked_run exclusive
    [.read (.recordStep { idx := 1, status := .passed }) 1, nextOf 0, nextOf 0,
      .read (.recordStep { idx := 0, status := .skipped, artifact_resource_ids := ["a"] }) 2,
      nextOf 1, nextOf 1, .read (.recordHeartbeat 1) 3, nextOf 2, nextOf 2,
      .read (.setPhase "build") 4, nextOf 3, nextOf 3, .complete .passed true 5, nextOf 4, nextOf 4,
      nextOf 4]
    (fun s => s.calls.all (· = .finished) && s.row.status = .passed &&
      s.row.step_results.length = 2) (by decide +kernel)
  rw [Bool.and_eq_true, Bool.and_eq_true, List.all_eq_true, decide_eq_true_eq,
    decide_eq_true_eq] at hp
  have hquiet : s.Quiet := fun phase hphase => of_decide_eq_true (hp.1.1 phase hphase)
  exact ⟨s, hquiet, hp.1.2, hp.2, (evidence_kept hreach).1 hquiet⟩

/-- Two steps are recorded at a time: the call that writes last takes the step of the other one
    away. -/
theorem evidence_lost : ¬∀ s, runSystem.Reachable s → s.KeepsEvidence := by
  intro hall
  obtain ⟨s, hreach, hp⟩ := exists_checked_run (fun _ _ => true)
    [.read (.recordStep { idx := 0, status := .failed }) 1,
      .read (.recordStep { idx := 1, status := .passed }) 2,
      nextOf 0, nextOf 0, nextOf 1, nextOf 1]
    (fun s => s.calls.all (· = .finished) &&
      s.history.steps.any fun e => e.idx ∉ s.row.step_results.map (·.idx)) (by decide +kernel)
  rw [Bool.and_eq_true, List.all_eq_true, List.any_eq_true] at hp
  obtain ⟨hquiet, e, he, hmissing⟩ := hp
  have hkept := (hall s hreach.of_restrict).1 fun phase hphase =>
    of_decide_eq_true (hquiet phase hphase)
  exact of_decide_eq_true hmissing (hkept.complete e he)

end RunState

end WorkflowBoard.Qa
