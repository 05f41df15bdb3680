import WorkflowBoard.ForStd.History
import WorkflowBoard.Native.GateNotices
import WorkflowBoard.Spec.MissionCalls

/-!
# Notices of a gate are claimed once

A claim is one statement, and it marks the pass it was made for. A save of an entity that was
loaded before the claim writes the old mark back, and the number of the pass with it; and an
opening of a gate that was read before the answer lets a decided pass wait again. As long as no
write of the row does that, each notice is claimed once for each pass, and none behind its
decision.
-/

namespace WorkflowBoard.Orchestration

/-- At most one notice and one reminder are claimed for a pass, and none behind its decision. -/
structure NoticesOnce (log : List NoticeEvent) : Prop where
  once : ∀ kind visit, log.count (.claimed kind visit) ≤ 1
  silent : ∀ pre kind visit post, log = pre ++ .claimed kind visit :: post → .decided visit ∉ pre

namespace NoticeState

/-- A save leaves the mark of the pass alone that the row is at behind it, unless there was no
    claim for that pass or it is decided. -/
def markStays (s : NoticeState) (entity reread : GateRow) (visit : Nat) (kind : NoticeKind) :
    Bool :=
  kind.mark entity = kind.mark reread || .claimed kind visit ∉ s.log || .decided visit ∈ s.log

/-- A save takes no pass and no mark back, and no decided pass waits behind it. -/
def mayWrite (s : NoticeState) (x : GateCall) (reread : GateRow) : Bool :=
  let e := x.entity.step
  let r := reread.step
  let visit := saveColumn e.visit r.visit s.row.step.visit
  (e.visit = r.visit || s.row.step.visit ≤ e.visit) &&
  (!e.status.isAwaitingUser || r.status.isAwaitingUser || .decided visit ∉ s.log) &&
  s.markStays x.entity reread visit .notice && s.markStays x.entity reread visit .reminder &&
  (x.kind ≠ .decided || r.status ≠ .done || !s.row.step.status.isAwaitingUser ||
    s.row.step.visit ≠ e.visit)

/-- The pump does not go back to an earlier pass or open a decided one, and neither does a
    save. -/
def keepsPasses (s : NoticeState) : NoticeAction → Bool
  | .openGate _ _ k => s.calls[k]?.all fun x =>
    let visit := max x.entity.step.visit 1
    s.row.step.visit ≤ visit && .decided visit ∉ s.log
  | .write k => s.calls[k]?.all fun x => x.reread.all (s.mayWrite x)
  | _ => true

end NoticeState

/-! ## The row and the history -/

section Row

variable {row row' : GateRow} {log : List NoticeEvent} {kind : NoticeKind} {visit : Nat}

/-- The row is at the last pass that was claimed or decided, and has the marks of its claims. -/
structure RowInv (row : GateRow) (log : List NoticeEvent) : Prop where
  claimed : ∀ kind visit, .claimed kind visit ∈ log → visit ≤ row.step.visit ∧
    (visit = row.step.visit → kind.mark row = some visit ∨ .decided visit ∈ log)
  decided : ∀ visit, .decided visit ∈ log → visit ≤ row.step.visit ∧
    (visit = row.step.visit → row.step.status.isAwaitingUser = false)
  once : NoticesOnce log

theorem noticesOnce_nil : NoticesOnce [] :=
  ⟨fun _ _ => Nat.zero_le 1, fun pre _ _ _ h => absurd (congrArg List.length h) (by simp)⟩

/-- A row that is at a later pass, or waits as it did with the marks it had. -/
theorem RowInv.rewrite (h : RowInv row log) (hvisit : row.step.visit ≤ row'.step.visit)
    (hmark : ∀ kind, kind.mark row' = kind.mark row ∨
      .claimed kind row'.step.visit ∉ log ∨ .decided row'.step.visit ∈ log)
    (hstatus : row'.step.status.isAwaitingUser = true →
      row.step.status.isAwaitingUser = true ∨ .decided row'.step.visit ∉ log) :
    RowInv row' log := by
  refine ⟨fun kind visit hin => ?_, fun visit hin => ?_, h.once⟩
  · obtain ⟨hle, hcur⟩ := h.claimed kind visit hin
    refine ⟨hle.trans hvisit, fun heq => ?_⟩
    have hsame : visit = row.step.visit := by omega
    rcases hmark kind with hm | hnone | hdecided
    · rw [hm]
      exact hcur hsame
    · rw [← heq] at hnone
      exact absurd hin hnone
    · exact .inr (heq ▸ hdecided)
  · obtain ⟨hle, hcur⟩ := h.decided visit hin
    refine ⟨hle.trans hvisit, fun heq => ?_⟩
    have hsame : visit = row.step.visit := by omega
    cases hwaits : row'.step.status.isAwaitingUser with
    | false => rfl
    | true =>
      rcases hstatus hwaits with hold | hnone
      · rw [hcur hsame] at hold
        cases hold
      · rw [← heq] at hnone
        exact absurd hin hnone

/-- A decision of a pass that does not wait any more. -/
theorem RowInv.decide (h : RowInv row log) (hle : visit ≤ row.step.visit)
    (hstatus : visit = row.step.visit → row.step.status.isAwaitingUser = false) :
    RowInv row (log ++ [.decided visit]) := by
  refine ⟨fun kind v hin => ?_, fun v hin => ?_, fun kind v => ?_, fun pre kind v post hsplit => ?_⟩
  · have hold : .claimed kind v ∈ log := by simpa using hin
    obtain ⟨hv, hcur⟩ := h.claimed kind v hold
    exact ⟨hv, fun heq => (hcur heq).imp_right (List.mem_append_left _)⟩
  · rcases List.mem_append.mp hin with hold | hnew
    · exact h.decided v hold
    · cases List.mem_singleton.mp hnew
      exact ⟨hle, hstatus⟩
  · rw [List.count_append]
    exact h.once.once kind v
  · rcases append_singleton_split hsplit with ⟨_, heq⟩ | ⟨post', hold⟩
    · cases heq
    · exact h.once.silent pre kind v post' hold

/-- A pass that can be claimed has not been claimed or decided. -/
theorem RowInv.free (h : RowInv row log) (hclaim : row.claimable kind visit = true) :
    .claimed kind visit ∉ log ∧ .decided visit ∉ log := by
  unfold GateRow.claimable at hclaim
  rw [Bool.and_eq_true, Bool.and_eq_true, decide_eq_true_eq, decide_eq_true_eq] at hclaim
  obtain ⟨⟨hvisit, hwaits⟩, hmark⟩ := hclaim
  have hopen : .decided visit ∉ log := by
    intro hin
    rw [(h.decided visit hin).2 hvisit.symm] at hwaits
    cases hwaits
  refine ⟨fun hin => ?_, hopen⟩
  rcases (h.claimed kind visit hin).2 hvisit.symm with hm | hdecided
  · exact hmark hm
  · exact hopen hdecided

theorem marked_step (row : GateRow) (kind : NoticeKind) (visit : Nat) (now : Date) :
    (row.marked kind visit now).step = row.step := by
  cases kind <;> rfl

theorem mark_marked (row : GateRow) (kind : NoticeKind) (visit : Nat) (now : Date) :
    kind.mark (row.marked kind visit now) = some visit := by
  cases kind <;> rfl

theorem mark_marked_other {other : NoticeKind} (hne : other ≠ kind) (now : Date) :
    other.mark (row.marked kind visit now) = other.mark row := by
  cases kind <;> cases other <;> first | rfl | exact absurd rfl hne

theorem RowInv.mark (h : RowInv row log) (hclaim : row.claimable kind visit = true) (now : Date) :
    RowInv (row.marked kind visit now) (log ++ [.claimed kind visit]) := by
  obtain ⟨hfree, hopen⟩ := h.free hclaim
  have hvisit : row.step.visit = visit := by
    unfold GateRow.claimable at hclaim
    rw [Bool.and_eq_true, Bool.and_eq_true, decide_eq_true_eq] at hclaim
    exact hclaim.1.1
  refine ⟨fun other v hin => ?_, fun v hin => ?_, fun other v => ?_,
    fun pre other v post hsplit => ?_⟩
  · rw [marked_step]
    rcases List.mem_append.mp hin with hold | hnew
    · obtain ⟨hle, hcur⟩ := h.claimed other v hold
      refine ⟨hle, fun heq => ?_⟩
      by_cases hsame : other = kind
      · subst hsame
        rw [mark_marked, heq, hvisit]
        exact .inl rfl
      · rw [mark_marked_other hsame]
        exact (hcur heq).imp_right (List.mem_append_left _)
    · cases List.mem_singleton.mp hnew
      exact ⟨hvisit.ge, fun _ => .inl (mark_marked ..)⟩
  · rw [marked_step]
    have hold : .decided v ∈ log := by simpa using hin
    exact h.decided v hold
  · rw [List.count_append]
    by_cases hsame : NoticeEvent.claimed other v = .claimed kind visit
    · rw [hsame, List.count_eq_zero.mpr hfree, List.count_singleton_self]
    · have hnone : [NoticeEvent.claimed kind visit].count (.claimed other v) = 0 :=
        List.count_eq_zero.mpr fun hin => hsame (List.mem_singleton.mp hin)
      rw [hnone]
      exact h.once.once other v
  · rcases append_singleton_split hsplit with ⟨rfl, heq⟩ | ⟨post', hold⟩
    · obtain ⟨_, rfl⟩ := NoticeEvent.claimed.inj heq
      exact hopen
    · exact h.once.silent pre other v post' hold

end Row

/-! ## Statements -/

namespace NoticeState

/-- Whether the call is about to answer for the pass it holds. -/
def isDeciding : GateCallKind → Bool
  | .deciding _ | .decided => true
  | _ => false

/-- A call that answers holds a pass that the row has reached, and it has the answer behind its
    checks. -/
structure HeldOk (row : GateRow) (x : GateCall) : Prop where
  visit : isDeciding x.kind = true → x.entity.step.visit ≤ row.step.visit
  answered : x.kind = .decided → x.entity.step.status = .done

structure NoticeInv (s : NoticeState) : Prop where
  row : RowInv s.row s.log
  held : ∀ x ∈ s.calls, HeldOk s.row x

section Steps

variable {s s' : NoticeState} {k : Nat} {x : GateCall} {row row' : GateRow}

theorem heldOk_of_kind (h : isDeciding x.kind = false) : HeldOk row x := by
  refine ⟨fun hdeciding => ?_, fun hdecided => ?_⟩
  · rw [h] at hdeciding
    cases hdeciding
  · rw [hdecided] at h
    cases h

theorem HeldOk.mono (h : HeldOk row x) (hle : row.step.visit ≤ row'.step.visit) : HeldOk row' x :=
  ⟨fun hdeciding => (h.visit hdeciding).trans hle, h.answered⟩

section

variable (h : NoticeInv s)
include h

theorem NoticeInv.advance (hrow : RowInv s'.row s'.log)
    (hle : s.row.step.visit ≤ s'.row.step.visit) (hcalls : s'.calls = s.calls.set k x)
    (hx : HeldOk s'.row x) : NoticeInv s' := by
  refine ⟨hrow, fun y hy => ?_⟩
  rw [hcalls] at hy
  rcases List.mem_or_eq_of_mem_set hy with hold | rfl
  · exact (h.held y hold).mono hle
  · exact hx

theorem NoticeInv.setCall (hx : HeldOk s.row x) : NoticeInv (s.setCall k x) :=
  h.advance h.row (Nat.le_refl _) rfl hx

theorem NoticeInv.load {kind : GateCallKind} (hs : s.load kind = some s') :
    NoticeInv s' := by
  unfold NoticeState.load at hs
  split at hs
  · rename_i hbegins
    cases hs
    refine ⟨h.row, fun y hy => ?_⟩
    rcases List.mem_append.mp hy with hold | hnew
    · exact h.held y hold
    · obtain rfl := List.mem_singleton.mp hnew
      refine ⟨fun _ => Nat.le_refl _, fun hdecided => ?_⟩
      change kind = .decided at hdecided
      rw [hdecided] at hbegins
      cases hbegins
  · cases hs

theorem NoticeInv.openGate {r : Runner} {now : Date} (hk : s.calls[k]? = some x)
    (hs : s.openGate r now k x = some s') (hkeeps : s.keepsPasses (.openGate r now k) = true) :
    NoticeInv s' := by
  unfold keepsPasses at hkeeps
  dsimp only at hkeeps
  rw [hk, Option.all_some, Bool.and_eq_true, decide_eq_true_eq, decide_eq_true_eq] at hkeeps
  unfold NoticeState.openGate at hs
  dsimp only at hs
  split at hs
  · cases hs
    refine h.advance (h.row.rewrite hkeeps.1 (fun kind => .inl ?_) fun _ => .inr hkeeps.2) hkeeps.1
      rfl (heldOk_of_kind rfl)
    cases kind <;> rfl
  · cases hs

theorem NoticeInv.claim {kind : NoticeKind} {now : Date} :
    NoticeInv (s.claim kind now k x) := by
  unfold NoticeState.claim
  dsimp only
  split
  · rename_i hclaim
    exact h.advance (h.row.mark hclaim now) (by rw [marked_step]) rfl (heldOk_of_kind rfl)
  · exact h.setCall (heldOk_of_kind rfl)

/-- The checks of a decision find the step the call has read. -/
theorem NoticeInv.decide {m : Mission} {now : Date} (hk : s.calls[k]? = some x)
    (hs : s.decide m now k x = some s') : NoticeInv s' := by
  unfold NoticeState.decide at hs
  split at hs
  · rename_i input hkind
    split at hs
    · rename_i step verdict hchecks
      cases hs
      have hfound := (Runner.confirmChecks_some hchecks).1
      have hstep : x.entity.step = step := by
        simpa [Runner.stepOf] using hfound
      refine h.setCall ⟨fun _ => ?_, fun _ => rfl⟩
      have hvisit := (h.held x (List.mem_of_getElem? hk)).visit (by rw [hkind]; rfl)
      rwa [hstep] at hvisit
    · cases hs
      exact h.setCall (heldOk_of_kind rfl)
  · cases hs

theorem NoticeInv.revise {m : Mission} {input : PlanInput} {p : PlanStep} {index : Nat}
    (hs : s.revise m input p index k x = some s') : NoticeInv s' := by
  unfold NoticeState.revise at hs
  split at hs
  · rename_i hmay
    have hkind : isDeciding x.kind = false := by rw [hmay.1]; rfl
    split at hs
    · cases hs
      exact h.setCall (heldOk_of_kind hkind)
    · cases hs
      exact h.setCall (heldOk_of_kind rfl)
  · cases hs

theorem NoticeInv.reenter (hs : s.reenter k x = some s') : NoticeInv s' := by
  unfold NoticeState.reenter at hs
  split at hs
  · rename_i hmay
    have hkind : isDeciding x.kind = false := by rw [hmay.1]; rfl
    cases hs
    exact h.setCall (heldOk_of_kind hkind)
  · cases hs

theorem NoticeInv.change {step : Step} (hs : s.change step k x = some s') :
    NoticeInv s' := by
  unfold NoticeState.change at hs
  dsimp only at hs
  split at hs
  · rename_i hmay
    have hkind : isDeciding x.kind = false := by rw [hmay.1]; rfl
    cases hs
    exact h.setCall (heldOk_of_kind hkind)
  · cases hs

theorem NoticeInv.reread (hk : s.calls[k]? = some x)
    (hs : s.reread k x = some s') : NoticeInv s' := by
  unfold NoticeState.reread at hs
  split at hs
  · cases hs
    have hx := h.held x (List.mem_of_getElem? hk)
    exact h.setCall ⟨hx.visit, hx.answered⟩
  · cases hs

end

/-! ## Saves -/

theorem mark_save (kind : NoticeKind) (entity reread row : GateRow) :
    kind.mark (entity.save reread row) =
      saveColumn (kind.mark entity) (kind.mark reread) (kind.mark row) := by
  cases kind <;> rfl

variable {reread : GateRow}

/-- A save that meets the condition does not take the pass back. -/
theorem visit_le_save (h : s.mayWrite x reread = true) :
    s.row.step.visit ≤ (x.entity.save reread s.row).step.visit := by
  change _ ≤ saveColumn x.entity.step.visit reread.step.visit s.row.step.visit
  unfold mayWrite at h
  simp only [Bool.and_eq_true, Bool.or_eq_true, decide_eq_true_eq] at h
  by_cases heq : x.entity.step.visit = reread.step.visit
  · rw [saveColumn_of_eq heq]
  · rw [saveColumn_of_ne heq]
    rcases h.1.1.1.1 with hsame | hle
    · exact absurd hsame heq
    · exact hle

/-- What a save that meets the condition leaves of the row. -/
theorem RowInv.save (h : RowInv s.row s.log)
    (hmay : s.mayWrite x reread = true) : RowInv (x.entity.save reread s.row) s.log := by
  refine h.rewrite (visit_le_save hmay) (fun kind => ?_) fun hwaits => ?_
  · have hstays : s.markStays x.entity reread
        (saveColumn x.entity.step.visit reread.step.visit s.row.step.visit) kind = true := by
      unfold mayWrite at hmay
      simp only [Bool.and_eq_true] at hmay
      cases kind with
      | notice => exact hmay.1.1.2
      | reminder => exact hmay.1.2
    unfold markStays at hstays
    simp only [Bool.or_eq_true, decide_eq_true_eq] at hstays
    rcases hstays with (hsame | hnone) | hdecided
    · rw [mark_save, saveColumn_of_eq hsame]
      exact .inl rfl
    · exact .inr (.inl hnone)
    · exact .inr (.inr hdecided)
  · change (saveColumn x.entity.step.status reread.step.status s.row.step.status).isAwaitingUser =
      true at hwaits
    by_cases heq : x.entity.step.status = reread.step.status
    · rw [saveColumn_of_eq heq] at hwaits
      exact .inl hwaits
    · -- the save lets the gate wait
      rw [saveColumn_of_ne heq] at hwaits
      unfold mayWrite at hmay
      simp only [Bool.and_eq_true, Bool.or_eq_true, Bool.not_eq_true', decide_eq_true_eq] at hmay
      rcases hmay.1.1.1.2 with (hnot | hreread) | hopen
      · rw [hwaits] at hnot
        cases hnot
      · unfold StepStatus.isAwaitingUser at hwaits hreread
        rw [decide_eq_true_eq] at hwaits hreread
        exact absurd (hwaits.trans hreread.symm) heq
      · exact .inr hopen

/-- Behind the save of a decision its pass does not wait. -/
theorem decided_save (h : HeldOk s.row x) (hkind : x.kind = .decided)
    (hmay : s.mayWrite x reread = true)
    (hvisit : x.entity.step.visit = (x.entity.save reread s.row).step.visit) :
    (x.entity.save reread s.row).step.status.isAwaitingUser = false := by
  change (saveColumn x.entity.step.status reread.step.status s.row.step.status).isAwaitingUser =
    false
  have hdone := h.answered hkind
  by_cases heq : x.entity.step.status = reread.step.status
  · rw [saveColumn_of_eq heq]
    have hle := h.visit (by rw [hkind]; rfl)
    have hkept := visit_le_save hmay
    unfold mayWrite at hmay
    simp only [Bool.and_eq_true, Bool.or_eq_true, Bool.not_eq_true', decide_eq_true_eq] at hmay
    rcases hmay.2 with ((hother | hnot) | hwaits) | hpass
    · exact absurd hkind hother
    · exact absurd (heq.symm.trans hdone) hnot
    · exact hwaits
    · omega
  · rw [saveColumn_of_ne heq, hdone]
    rfl

theorem NoticeInv.write (h : NoticeInv s) (hk : s.calls[k]? = some x)
    (hs : s.write k x = some s') (hkeeps : s.keepsPasses (.write k) = true) : NoticeInv s' := by
  unfold keepsPasses at hkeeps
  dsimp only at hkeeps
  rw [hk, Option.all_some] at hkeeps
  have hx := h.held x (List.mem_of_getElem? hk)
  unfold NoticeState.write at hs
  split at hs
  · rename_i reread hreread
    rw [hreread, Option.all_some] at hkeeps
    have hrow := RowInv.save h.row hkeeps
    have hle := visit_le_save hkeeps
    cases hs
    by_cases hkind : x.kind = .decided
    · refine h.advance ?_ hle rfl ?_
      · dsimp only
        rw [if_pos hkind]
        exact hrow.decide ((hx.visit (by rw [hkind]; rfl)).trans hle)
          (decided_save hx hkind hkeeps)
      · exact heldOk_of_kind (by dsimp only; rw [if_pos hkind]; rfl)
    · refine h.advance ?_ hle rfl ?_
      · dsimp only
        rw [if_neg hkind, List.append_nil]
        exact hrow
      · dsimp only
        rw [if_neg hkind]
        exact ⟨fun hdeciding => (hx.visit hdeciding).trans hle, hx.answered⟩
  · cases hs

theorem NoticeInv.act {a : NoticeAction} (h : NoticeInv s) (hs : a.run s = some s')
    (hkeeps : s.keepsPasses a = true) : NoticeInv s' := by
  cases a with
  | load kind => exact h.load hs
  | openGate r now k =>
    obtain ⟨x, hk, hs⟩ := Option.bind_eq_some_iff.mp hs
    exact h.openGate hk hs hkeeps
  | claim now k =>
    obtain ⟨x, hk, hs⟩ := Option.bind_eq_some_iff.mp hs
    unfold claimNext at hs
    split at hs
    · cases hs
      exact h.claim
    · cases hs
      exact h.claim
    · cases hs
  | decide m now k =>
    obtain ⟨x, hk, hs⟩ := Option.bind_eq_some_iff.mp hs
    exact h.decide hk hs
  | revise m input p index k =>
    obtain ⟨x, hk, hs⟩ := Option.bind_eq_some_iff.mp hs
    exact h.revise hs
  | reenter k =>
    obtain ⟨x, hk, hs⟩ := Option.bind_eq_some_iff.mp hs
    exact h.reenter hs
  | change step k =>
    obtain ⟨x, hk, hs⟩ := Option.bind_eq_some_iff.mp hs
    exact h.change hs
  | reread k =>
    obtain ⟨x, hk, hs⟩ := Option.bind_eq_some_iff.mp hs
    exact h.reread hk hs
  | write k =>
    obtain ⟨x, hk, hs⟩ := Option.bind_eq_some_iff.mp hs
    exact h.write hk hs hkeeps
  | finish k =>
    obtain ⟨x, hk, rfl⟩ := Option.map_eq_some_iff.mp hs
    exact h.setCall (heldOk_of_kind rfl)

/-- Each notice is claimed once for each pass, and none behind its decision: in every run whose
    openings and saves take no pass and no mark back. -/
theorem notices_once (h : (noticeSystem.restrict fun s a _ => s.keepsPasses a = true).Reachable s) :
    NoticesOnce s.log := by
  have hinv : NoticeInv s := by
    refine h.invariant (P := NoticeInv) ?_ ?_
    · rintro s ⟨hcalls, hlog⟩
      refine ⟨⟨fun kind visit hin => ?_, fun visit hin => ?_, ?_⟩, fun x hx => ?_⟩
      · rw [hlog] at hin
        cases hin
      · rw [hlog] at hin
        cases hin
      · rw [hlog]
        exact noticesOnce_nil
      · rw [hcalls] at hx
        cases hx
    · exact fun s a s' _ hi hs => hi.act hs.1 hs.2
  exact hinv.row.once

end Steps

/-! ## Runs on one gate -/

theorem exists_checked_notices (C : NoticeState → NoticeAction → Bool) (row : GateRow)
    (actions : List NoticeAction) (p : NoticeState → Bool)
    (h : (Transition.runChecked NoticeAction.run C ⟨row, [], []⟩ actions).any p = true) :
    ∃ s, (noticeSystem.restrict fun s a _ => C s a = true).Reachable s ∧ p s = true :=
  Transition.exists_reachable_checked (M := noticeSystem) (fun _ _ _ hs => hs) ⟨rfl, rfl⟩
    actions p h

/-- A gate that has not been opened. -/
def newGate : Step :=
  { step_key := "gate", title := "gate", instructions := "", acceptance_criteria := ""
    depends_on := [], position := 0, plan_version := 1 }

/-- A running mission whose graph is the gate. -/
def gateMission : Mission :=
  { status := .running, graph_enabled := true, plan_version := 1
    graph_spec := some
      { nodes := [⟨"gate", .confirm, .all, 3⟩], edges := [], entry := ["gate"]
        terminal := ["gate"], max_total_visits := 10 } }

/-- Call `k` opens the gate and claims the notice. -/
def opensGate (now : Date) (k : Nat) : List NoticeAction :=
  [.openGate { mission := gateMission, steps := [newGate] } now k, .claim now k]

/-- A plan with one more step. -/
def nextPlan : PlanInput := { steps := [{ step_key := "next", title := "next" }] }

/-- The gate is opened, the user is reminded and answers. -/
theorem notices_once_small : ∃ s : NoticeState,
    s.log = [.claimed .notice 1, .claimed .reminder 1, .decided 1] ∧ NoticesOnce s.log := by
  obtain ⟨s, hreach, hp⟩ := exists_checked_notices keepsPasses { step := newGate }
    ([.load .opening] ++ opensGate 1 0 ++
      [.load .reminding, .claim 2 1, .load (.deciding { verdict := "pass", visit := 1 }),
        .decide gateMission 3 2, .reread 2, .write 2])
    (fun s => s.log = [.claimed .notice 1, .claimed .reminder 1, .decided 1])
    (by decide +kernel)
  exact ⟨s, of_decide_eq_true hp, notices_once hreach⟩

/-- A plan was read before the gate was opened and is saved behind the claim: the gate is as
    it was, and it is opened and the notice claimed once more. -/
theorem notice_rearmed : ¬∀ s, noticeSystem.Reachable s → NoticesOnce s.log := by
  intro hall
  obtain ⟨s, hreach, hp⟩ := exists_checked_notices (fun _ _ => true) { step := newGate }
    ([.load .saving, .load .opening] ++ opensGate 1 1 ++
      [.revise gateMission nextPlan newGate.toPlan 0 0, .reread 0, .write 0, .load .opening] ++
      opensGate 2 2)
    (fun s => s.log.count (.claimed .notice 1) = 2) (by decide +kernel)
  have honce := (hall s hreach.of_restrict).once .notice 1
  rw [of_decide_eq_true hp] at honce
  omega

end NoticeState

end WorkflowBoard.Orchestration
