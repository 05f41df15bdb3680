import WorkflowBoard.ForStd.History
import WorkflowBoard.ForStd.List
import WorkflowBoard.Native.Approvals

/-!
# A tool approval settles once

A row of the table is written by conditional updates only: it leaves `pending` at most once, it
goes from the orchestrator to the user at most once, and its notice is claimed at most once.
The history is counted against the row, so a second transition of a kind would find the row
in a state its condition excludes. Everything holds for every order of the steps, except what
a call answers that has lost its `escalate`: it reads the row again, and where somebody has
decided or escalated the request meanwhile it answers as if it had won.
-/

namespace WorkflowBoard.Orchestration

/-! ## What a step does to the table -/

/-- A row as a request inserts it. -/
structure OrchestrationApproval.Fresh (row : OrchestrationApproval) : Prop where
  pending : row.status = .pending
  undecided : row.decided_by_type = none
  unnoticed : row.user_notified_at = none

/-- The transitions that end a request; the others hand it to the user. -/
def ApprovalTransition.closes : ApprovalTransition → Bool
  | .escalate .. => false
  | _ => true

def ApprovalTransition.isCancel : ApprovalTransition → Bool
  | .cancel _ => true
  | _ => false

/-- The condition of the claim of a notice. -/
def OrchestrationApproval.awaitsNotice (id : Nat) (row : OrchestrationApproval) : Bool :=
  row.id = id && row.status = .pending && row.route = .user && row.user_notified_at.isNone

namespace Approvals

/-- Call `k` has read the row again after its update. -/
def repliesTo (s : Approvals) (k : Nat) (reply : ApprovalReply) : Prop :=
  ∃ row t won, s.calls[k]? = some (.moved row t won .decision) ∧
    reply = decisionReply ((s.rowOf row.id).getD row) won t

/-- What one step of call `k` does to the rows, with the events it records. -/
inductive TableStep (s : Approvals) (k : Nat) :
    List OrchestrationApproval → List ApprovalEffect → Prop where
  | keep : TableStep s k s.rows []
  | answer (reply : ApprovalReply)
      (hreply : ∀ row, reply = .decided row false → s.repliesTo k reply) :
      TableStep s k s.rows [.answered k reply]
  | insert {row : OrchestrationApproval} (hcall : s.calls[k]? = some (.inserting row))
      (hkey : s.rowWith row.key = none) :
      TableStep s k (s.rows ++ [{ row with id := s.rows.length }]) []
  | move {row : OrchestrationApproval} {t : ApprovalTransition} {next : ApprovalThen}
      (hcall : s.calls[k]? = some (.moving row t next)) (now : Date)
      (hwon : (updateWhere (t.applies row.id) (t.patch now) s.rows).1 = true) :
      TableStep s k (updateWhere (t.applies row.id) (t.patch now) s.rows).2 [.moved k row.id t]
  | poll (id : Nat) (now : Date) :
      TableStep s k (updateWhere (fun r => r.id = id && r.status = .pending)
        (fun r => { r with last_polled_at := now }) s.rows).2 []
  | notice (id : Nat) (now : Date)
      (hwon : (updateWhere (OrchestrationApproval.awaitsNotice id)
        (fun row => { row with user_notified_at := some now }) s.rows).1 = true) :
      TableStep s k (updateWhere (OrchestrationApproval.awaitsNotice id)
        (fun row => { row with user_notified_at := some now }) s.rows).2 [.notified id]

/-- The table has the row. -/
def Holds (s : Approvals) (row : OrchestrationApproval) : Prop :=
  ∃ r ∈ s.rows, r.id = row.id ∧ r.mission_id = row.mission_id

end Approvals

/-- The orchestrator that calls is one of `C`. -/
def ApprovalCall.By (C : OrchestrationCaller → Prop) : ApprovalCall → Prop
  | .decideAsOrchestrator _ caller _ _ => C caller
  | _ => True

/-- A row that a request inserts, after reads of `R`. -/
def OrchestrationApproval.Asked (R : ApprovalRead → Prop) (row : OrchestrationApproval) : Prop :=
  ∃ given input caller read, readRequest given = .ok input ∧ R read ∧
    newApproval input caller read = .ok (some row)

/-- An orchestrator of `C` that decides the row, after a read of `R`. -/
def OrchestrationApproval.DecidedBy (R : ApprovalRead → Prop) (C : OrchestrationCaller → Prop)
    (row : OrchestrationApproval) (id : String) : Prop :=
  ∃ caller read mission, C caller ∧ R read ∧
    read.mission.filter (·.id = row.mission_id) = some mission ∧
    callerHoldsId caller mission.orchestrator_agent_id = true ∧
    id = (caller.runtimeKey.filter (· ≠ "")).getD caller.agentId

namespace Approvals

/-- What is known of a call: where the row it is about to insert comes from, who decides, that a
    decision does not cancel, and that an update it has won is in the history. -/
def PhaseOk (R : ApprovalRead → Prop) (C : OrchestrationCaller → Prop) (s : Approvals) (k : Nat) :
    ApprovalPhase → Prop
  | .called call => call.By C
  | .requested input _ => ∃ given, readRequest given = .ok input
  | .inserting row => row.Asked R
  | .deciding row caller _ _ => C caller ∧ s.Holds row
  | .moving row t next =>
    (next = .decision → t.isCancel = false) ∧
      ∀ decision id note, t = .finalize decision ⟨.orchestrator, id⟩ note →
        s.Holds row ∧ row.DecidedBy R C id
  | .moved row t won next =>
    (next = .decision → t.isCancel = false) ∧ (won = true → .moved k row.id t ∈ s.log)
  | _ => True

/-- Call `k` has made a step. -/
structure Advanced (R : ApprovalRead → Prop) (C : OrchestrationCaller → Prop) (s s' : Approvals)
    (k : Nat) : Prop where
  table : ∃ es, s.TableStep k s'.rows es ∧ s'.log = s.log ++ es
  calls : ∀ j phase, s'.calls[j]? = some phase →
    s.calls[j]? = some phase ∨ (j = k ∧ PhaseOk R C s' k phase)

section Advance

variable {R : ApprovalRead → Prop} {C : OrchestrationCaller → Prop} {s s' : Approvals} {k : Nat}

variable {phase : ApprovalPhase} {row : OrchestrationApproval}

theorem get_set_calls {calls : List ApprovalPhase} {j : Nat}
    {other : ApprovalPhase} (h : (calls.set k phase)[j]? = some other) :
    calls[j]? = some other ∨ (j = k ∧ other = phase) := by
  rw [List.getElem?_set] at h
  split at h
  · rename_i hkj
    split at h
    · exact .inr ⟨hkj.symm, (Option.some.inj h).symm⟩
    · cases h
  · exact .inl h

theorem advanced_refl : Advanced R C s s k :=
  ⟨⟨[], .keep, (List.append_nil _).symm⟩, fun _ _ h => .inl h⟩

theorem advanced_goTo (h : PhaseOk R C s k phase) :
    Advanced R C s (s.goTo k phase) k := by
  refine ⟨⟨[], .keep, (List.append_nil _).symm⟩, fun j other hj => ?_⟩
  rcases get_set_calls hj with hj | ⟨rfl, rfl⟩
  · exact .inl hj
  · exact .inr ⟨rfl, h⟩

/-- A call answers. -/
theorem advanced_answer {r : ApprovalReply}
    (h : ∀ row, r = .decided row false → s.repliesTo k r) : Advanced R C s (s.reply k r) k := by
  refine ⟨⟨[.answered k r], .answer r h, rfl⟩, fun j other hj => ?_⟩
  rcases get_set_calls hj with hj | ⟨rfl, rfl⟩
  · exact .inl hj
  · exact .inr ⟨rfl, trivial⟩

/-- An answer that does not report a transition of the call. -/
theorem advanced_reply {r : ApprovalReply} (h : ∀ row, r ≠ .decided row false) :
    Advanced R C s (s.reply k r) k :=
  advanced_answer fun row hr => absurd hr (h row)

theorem advanced_view (row : Option OrchestrationApproval) :
    Advanced R C s (s.reply k (.view row)) k :=
  advanced_reply fun _ h => by cases h

theorem advanced_refuse (code : HttpStatus) : Advanced R C s (s.refuse k code) k :=
  advanced_reply fun _ h => by cases h

theorem advanced_checked {α : Type} {x : Except HttpStatus α} {f : α → Approvals}
    (h : ∀ a, x = .ok a → Advanced R C s (f a) k) : Advanced R C s (s.checked k x f) k := by
  unfold checked
  cases x with
  | error code => exact advanced_refuse code
  | ok a => exact h a rfl

theorem Advanced.schedule (h : Advanced R C s s' k) (notices : List Nat) :
    Advanced R C s { s' with notices } k :=
  ⟨h.table, h.calls⟩

theorem TableStep.of_notices {notices : List Nat} {rows : List OrchestrationApproval}
    {es : List ApprovalEffect} (h : TableStep { s with notices } k rows es) :
    s.TableStep k rows es := by
  cases h with
  | keep => exact .keep
  | answer reply h => exact .answer reply h
  | insert hcall hkey => exact .insert hcall hkey
  | move hcall now hwon => exact .move (s := s) hcall now hwon
  | poll id now => exact .poll id now
  | notice id now hwon => exact .notice id now hwon

theorem Advanced.of_notices (notices : List Nat) (h : Advanced R C { s with notices } s' k) :
    Advanced R C s s' k := by
  obtain ⟨es, htable, hlog⟩ := h.table
  exact ⟨⟨es, htable.of_notices, hlog⟩, h.calls⟩

theorem fresh_of_asked (h : row.Asked R) : row.Fresh := by
  obtain ⟨_, input, caller, read, _, _, h⟩ := h
  unfold newApproval at h
  simp only [bind_eq_ok] at h
  obtain ⟨room, _, missionId, _, _, _, mission, _, requester, _, h⟩ := h
  split at h
  · cases h
  · split at h
    · cases h
    · obtain rfl := Option.some.inj (Except.ok.inj h)
      exact ⟨rfl, rfl, rfl⟩

theorem settleTransition_ne_finalize (row : OrchestrationApproval) (read : ApprovalRead)
    {decision : ApprovalDecision} {decider : ApprovalDecider} {note : String} :
    settleTransition row read ≠ some (.finalize decision decider note) := by
  unfold settleTransition
  split
  · simp
  · split
    · simp
    · dsimp only
      repeat' split
      all_goals simp

theorem advanced_start (read : ApprovalRead) {call : ApprovalCall} (hcall : call.By C) :
    Advanced R C s (s.start k read call) k := by
  unfold start
  cases call with
  | request input caller =>
    refine advanced_checked fun input hinput => ?_
    split
    · exact advanced_checked fun _ _ => advanced_view _
    · exact advanced_goTo ⟨_, hinput⟩
  | wait id agentId caller timeoutMs =>
    refine advanced_checked fun row _ => advanced_checked fun _ _ => ?_
    split
    · exact advanced_view _
    · exact advanced_goTo trivial
  | cancelByRequester id agentId caller reason =>
    refine advanced_checked fun row _ => advanced_checked fun _ _ => ?_
    split
    · exact advanced_view _
    · exact advanced_goTo ⟨nofun, nofun⟩
  | decideAsOrchestrator id caller decision reason =>
    refine advanced_checked fun _ _ => advanced_checked fun _ _ =>
      advanced_checked fun row hrow => ?_
    have hmem : row ∈ s.rows := List.mem_of_find?_eq_some (orThrow_eq_ok.mp hrow)
    exact advanced_goTo ⟨hcall, row, hmem, rfl, rfl⟩
  | decideAsUser id accountId user decision note =>
    exact advanced_checked fun _ _ => advanced_checked fun _ _ => advanced_goTo trivial
  | sweep => exact advanced_goTo trivial

/-- The orchestrator decides a row that is with it. -/
theorem advanced_decideOn {read : ApprovalRead}
    {caller : OrchestrationCaller} (decision : OrchestratorApprovalDecision) (note : String)
    (hread : R read) (hcaller : C caller) (hrow : s.Holds row) :
    Advanced R C s (s.decideOn k read row caller decision note) k := by
  refine advanced_checked fun mission hmission => advanced_checked fun _ hheld =>
    advanced_checked fun _ _ => ?_
  have hheld : callerHoldsId caller mission.orchestrator_agent_id = true := by
    unfold refuseUnless at hheld
    split at hheld
    · assumption
    · cases hheld
  split
  · cases decision with
    | answer d =>
      dsimp only
      split
      · exact advanced_reply fun _ h => by cases h
      · exact advanced_refuse _
    | escalate => exact advanced_refuse _
  · split
    · exact advanced_refuse _
    · refine advanced_goTo ⟨fun _ => ?_, fun d id n ht => ⟨hrow, ?_⟩⟩
      · cases decision <;> rfl
      · cases decision with
        | answer d =>
          injection ht with _ hdecider _
          injection hdecider with _ hid
          exact ⟨caller, read, mission, hcaller, hread, orThrow_eq_ok.mp hmission, hheld, hid.symm⟩
        | escalate => cases ht

/-- The user answers a row that was read. -/
theorem advanced_answerOn (read : ApprovalRead) (row : OrchestrationApproval) (user : String)
    (decision : ApprovalDecision) (note : String) :
    Advanced R C s (s.answerOn k read row user decision note) k := by
  refine advanced_checked fun mission _ => ?_
  split
  · split
    · exact advanced_reply fun _ h => by cases h
    · exact advanced_refuse _
  · exact advanced_goTo ⟨fun _ => rfl, nofun⟩

/-- The conditional update, won or lost. -/
theorem advanced_compareAndSet (read : ApprovalRead) {t : ApprovalTransition} {next : ApprovalThen}
    (hcall : s.calls[k]? = some (.moving row t next)) (h : next = .decision → t.isCancel = false) :
    Advanced R C s (s.compareAndSet k read row t next) k := by
  unfold compareAndSet
  dsimp only
  split
  · rename_i hwon
    refine ⟨⟨_, .move hcall read.now (Bool.and_eq_true_iff.mp hwon).1, rfl⟩, fun j other hj => ?_⟩
    rcases get_set_calls hj with hj | ⟨rfl, rfl⟩
    · exact .inl hj
    · exact .inr ⟨rfl, h, fun _ => List.mem_append_right _ (List.mem_singleton_self _)⟩
  · exact advanced_goTo ⟨h, nofun⟩

theorem escalated_eq (s : Approvals) (id : Nat) (won : Bool) (t : ApprovalTransition) :
    ∃ notices, s.escalated id won t = { s with notices } := by
  unfold escalated
  split
  · split
    · exact ⟨_, rfl⟩
    · exact ⟨_, rfl⟩
  · exact ⟨_, rfl⟩

/-- A call goes on behind its update. -/
theorem advanced_resume {t : ApprovalTransition} {won : Bool}
    {next : ApprovalThen} (hcall : s.calls[k]? = some (.moved row t won next)) :
    Advanced R C s (s.resume k row t won next) k := by
  unfold resume
  dsimp only
  obtain ⟨notices, hnotices⟩ := s.escalated_eq row.id won t
  rw [hnotices]
  refine .of_notices notices ?_
  cases next with
  | request => exact advanced_view _
  | byRequester => exact advanced_view _
  | poll timeoutMs =>
    dsimp only
    split
    · exact advanced_view _
    · exact advanced_goTo trivial
  | decision => exact advanced_answer fun _ _ => ⟨row, t, won, hcall, rfl⟩
  | gone rest cancelled => exact advanced_goTo trivial
  | overdue rest cancelled escalated => exact advanced_goTo trivial

/-- What one step does to the table and the history. -/
theorem advanced_advance {read : ApprovalRead} (hread : R read)
    (hcall : s.calls[k]? = some phase) (hok : PhaseOk R C s k phase) :
    Advanced R C s (s.advance k read phase) k := by
  unfold advance
  cases phase with
  | called call => exact advanced_start read hok
  | requested input caller =>
    refine advanced_checked fun new hnew => ?_
    cases new with
    | none => exact advanced_view _
    | some row =>
      obtain ⟨given, hinput⟩ := hok
      exact advanced_goTo ⟨given, input, caller, read, hinput, hread, hnew⟩
  | inserting row =>
    dsimp only
    split
    · exact advanced_goTo trivial
    · rename_i hfree
      rw [Bool.not_eq_true, Bool.or_eq_false_iff] at hfree
      have hkey : s.rowWith row.key = none := by simpa using hfree.2
      refine ⟨⟨[], .insert hcall hkey, (List.append_nil _).symm⟩, fun j other hj => ?_⟩
      rcases get_set_calls hj with hj | ⟨rfl, rfl⟩
      · exact .inl hj
      · exact .inr ⟨rfl, trivial⟩
  | collided key => exact advanced_checked fun _ _ => advanced_view _
  | inserted row =>
    dsimp only
    split
    · split
      · exact advanced_view _
      · exact advanced_goTo ⟨nofun, nofun⟩
    · exact (advanced_view _).schedule _
  | deciding row caller decision note => exact advanced_decideOn decision note hread hok.1 hok.2
  | answering row user decision note => exact advanced_answerOn read row user decision note
  | moving row t next => exact advanced_compareAndSet read hcall hok.1
  | moved row t won next => exact advanced_resume hcall
  | polling row timeoutMs =>
    dsimp only
    refine ⟨⟨[], ?_, (List.append_nil _).symm⟩, fun j other hj => ?_⟩
    · cases hfails : read.fails with
      | true => exact .keep
      | false => exact .poll row.id read.now
    · rcases get_set_calls hj with hj | ⟨rfl, rfl⟩
      · exact .inl hj
      · exact .inr ⟨rfl, trivial⟩
  | settling row timeoutMs =>
    dsimp only
    split
    · rename_i t ht
      refine advanced_goTo ⟨nofun, fun d id n heq => ?_⟩
      rw [heq] at ht
      exact absurd ht (settleTransition_ne_finalize row read)
    · exact advanced_goTo trivial
  | checking row timeoutMs =>
    dsimp only
    split
    · exact advanced_view _
    · exact advanced_goTo trivial
  | waiting row => exact advanced_view _
  | sweepingGone rest cancelled =>
    cases rest with
    | nil => exact advanced_goTo trivial
    | cons row rest => exact advanced_goTo ⟨nofun, nofun⟩
  | sweepingOverdue rest cancelled escalated =>
    cases rest with
    | nil => exact advanced_reply fun _ h => by cases h
    | cons row rest => exact advanced_goTo ⟨nofun, nofun⟩
  | answered reply => exact advanced_refl

end Advance

end Approvals

/-! ## The counts -/

namespace ApprovalEffect

/-- A transition that ended the request. -/
def isClosing (id : Nat) : ApprovalEffect → Bool
  | .moved _ i t => i = id && t.closes
  | _ => false

/-- A transition that handed the request to the user. -/
def isRouting (id : Nat) : ApprovalEffect → Bool
  | .moved _ i t => i = id && !t.closes
  | _ => false

def isNotice (id : Nat) : ApprovalEffect → Bool
  | .notified i => i = id
  | _ => false

section Kinds

variable {k i id : Nat} {t : ApprovalTransition} {reply : ApprovalReply}

@[simp] theorem isClosing_moved : isClosing id (.moved k i t) = (i = id && t.closes) := rfl

@[simp] theorem isClosing_notified : isClosing id (.notified i) = false := rfl

@[simp] theorem isRouting_moved : isRouting id (.moved k i t) = (i = id && !t.closes) := rfl

@[simp] theorem isRouting_notified : isRouting id (.notified i) = false := rfl

@[simp] theorem isNotice_moved : isNotice id (.moved k i t) = false := rfl

@[simp] theorem isNotice_notified : isNotice id (.notified i) = decide (i = id) := rfl

end Kinds

/-- The request an event is about. -/
def about (id : Nat) (e : ApprovalEffect) : Bool :=
  e.isClosing id || e.isRouting id || e.isNotice id

end ApprovalEffect

/-- What the history holds of a row is what the row says of itself. -/
structure Counted (log : List ApprovalEffect) (row : OrchestrationApproval) : Prop where
  closed : log.countP (·.isClosing row.id) = if row.status = .pending then 0 else 1
  routed : log.countP (·.isRouting row.id) ≤ if row.route = .orchestrator then 0 else 1
  noticed : log.countP (·.isNotice row.id) = if row.user_notified_at = none then 0 else 1
  byRoute : row.decided_by_type = some .orchestrator →
    row.route = .orchestrator ∧ row.status ≠ .pending
  recorded : ∀ k decision decider note, .moved k row.id (.finalize decision decider note) ∈ log →
    row.decision = some decision ∧ row.decided_by_type = some decider.type

/-- What stays of a row from one state to a later one. -/
structure RowKept (row row' : OrchestrationApproval) : Prop where
  id : row'.id = row.id
  key : row'.key = row.key
  mission : row'.mission_id = row.mission_id
  settled : row.status ≠ .pending → row'.status = row.status ∧ row'.decision = row.decision ∧
    row'.decided_by_type = row.decided_by_type ∧ row'.decided_by = row.decided_by
  user : row.route = .user → row'.route = .user
  orchestrator : row'.decided_by_type = some .orchestrator →
    row.decided_by_type = some .orchestrator ∨ (row.status = .pending ∧ row.route = .orchestrator)
  noticed : row.user_notified_at ≠ none → row'.user_notified_at = row.user_notified_at

section Rows

variable {log es : List ApprovalEffect} {row row' row'' : OrchestrationApproval}

theorem countP_snoc_of_not {p : ApprovalEffect → Bool} {e : ApprovalEffect} (h : p e = false) :
    (log ++ [e]).countP p = log.countP p := by
  rw [List.countP_append, List.countP_singleton, h]
  rfl

theorem Counted.frame (h : Counted log row) (hes : ∀ e ∈ es, e.about row.id = false) :
    Counted (log ++ es) row := by
  have hnone : ∀ p : ApprovalEffect → Bool, (∀ e, p e = true → e.about row.id = true) →
      (log ++ es).countP p = log.countP p := by
    intro p hp
    have hzero : es.countP p = 0 := List.countP_eq_zero.mpr fun e he hpe => by
      have habout := hp e hpe
      rw [hes e he] at habout
      cases habout
    rw [List.countP_append, hzero, Nat.add_zero]
  refine ⟨?_, ?_, ?_, h.byRoute, fun k decision decider note hin => ?_⟩
  · rw [hnone _ fun e he => by simp [ApprovalEffect.about, he]]
    exact h.closed
  · rw [hnone _ fun e he => by simp [ApprovalEffect.about, he]]
    exact h.routed
  · rw [hnone _ fun e he => by simp [ApprovalEffect.about, he]]
    exact h.noticed
  · rcases List.mem_append.mp hin with hin | hin
    · exact h.recorded k decision decider note hin
    · have hnot := hes _ hin
      simp [ApprovalEffect.about, ApprovalTransition.closes] at hnot

theorem Counted.polled (h : Counted log row) (now : Date) :
    Counted log { row with last_polled_at := now } :=
  ⟨h.closed, h.routed, h.noticed, h.byRoute, h.recorded⟩

variable {t : ApprovalTransition}

theorem ApprovalTransition.applies_iff {id : Nat} :
    t.applies id row = true ↔
      row.id = id ∧ row.status = .pending ∧ (t.routed = true → row.route = .orchestrator) := by
  unfold applies
  cases t.routed <;> simp [and_assoc]

theorem statusForDecision_ne_pending (d : ApprovalDecision) : statusForDecision d ≠ .pending := by
  cases d <;> decide

theorem not_recorded {k id : Nat} {decision : ApprovalDecision} {decider : ApprovalDecider}
    {note : String} (h : log.countP (·.isClosing id) = 0) :
    .moved k id (.finalize decision decider note) ∉ log := by
  intro hin
  have hnot := List.countP_eq_zero.mp h _ hin
  simp [ApprovalTransition.closes] at hnot

/-- A transition that applies is counted. -/
theorem Counted.moved (h : Counted log row) {k : Nat} (now : Date)
    (happlies : t.applies row.id row = true) :
    Counted (log ++ [.moved k row.id t]) (t.patch now row) := by
  obtain ⟨-, hpending, hroute⟩ := ApprovalTransition.applies_iff.mp happlies
  have hclosed := h.closed
  have hrouted := h.routed
  rw [if_pos hpending] at hclosed
  have hfirst : ∀ k decision decider note,
      .moved k row.id (.finalize decision decider note) ∉ log :=
    fun k decision decider note => not_recorded hclosed
  cases t with
  | finalize decision decider note =>
    refine ⟨?_, ?_, ?_, fun horch => ?_, fun j d e n hin => ?_⟩
    · rw [List.countP_append]
      simp [ApprovalTransition.patch, ApprovalTransition.closes, hclosed,
        statusForDecision_ne_pending]
    · exact (countP_snoc_of_not (Bool.and_false _)).trans_le hrouted
    · exact (countP_snoc_of_not rfl).trans h.noticed
    · -- the update asked for the route
      refine ⟨hroute ?_, statusForDecision_ne_pending decision⟩
      simpa [ApprovalTransition.routed, ApprovalTransition.patch] using horch
    · rcases List.mem_append.mp hin with hin | hin
      · exact absurd hin (hfirst _ _ _ _)
      · injection List.mem_singleton.mp hin with _ _ heq
        injection heq with hd he _
        subst hd he
        exact ⟨rfl, rfl⟩
  | cancel reason =>
    refine ⟨?_, ?_, ?_, nofun, fun j d e n hin => ?_⟩
    · rw [List.countP_append]
      simp [ApprovalTransition.patch, ApprovalTransition.closes, hclosed]
    · exact (countP_snoc_of_not (Bool.and_false _)).trans_le hrouted
    · exact (countP_snoc_of_not rfl).trans h.noticed
    · rcases List.mem_append.mp hin with hin | hin
      · exact absurd hin (hfirst _ _ _ _)
      · injection List.mem_singleton.mp hin with _ _ heq
        cases heq
  | escalate reason note =>
    have horchestrator : row.route = .orchestrator := hroute rfl
    rw [if_pos horchestrator, Nat.le_zero] at hrouted
    refine ⟨?_, ?_, ?_, fun horch => ?_, fun j d e n hin => ?_⟩
    · rw [List.countP_append]
      simpa [ApprovalTransition.patch, ApprovalTransition.closes,
        hpending] using hclosed
    · rw [List.countP_append]
      simp [ApprovalTransition.patch, ApprovalTransition.closes, hrouted]
    · exact (countP_snoc_of_not rfl).trans h.noticed
    · -- a pending request has no decision of the orchestrator
      exact absurd hpending (h.byRoute horch).2
    · rcases List.mem_append.mp hin with hin | hin
      · exact absurd hin (hfirst _ _ _ _)
      · injection List.mem_singleton.mp hin with _ _ heq
        cases heq

/-- A notice that is claimed is counted. -/
theorem Counted.notified (h : Counted log row) (now : Date)
    (hawaits : row.awaitsNotice row.id = true) :
    Counted (log ++ [.notified row.id]) { row with user_notified_at := some now } := by
  have hnew : row.user_notified_at = none := by
    simp [OrchestrationApproval.awaitsNotice] at hawaits
    exact hawaits.2
  have hnoticed := h.noticed
  rw [if_pos hnew] at hnoticed
  refine ⟨?_, ?_, ?_, h.byRoute, fun j d e n hin => ?_⟩
  · exact (countP_snoc_of_not rfl).trans h.closed
  · exact (countP_snoc_of_not rfl).trans_le h.routed
  · rw [List.countP_append]
    simp [hnoticed]
  · rcases List.mem_append.mp hin with hin | hin
    · exact h.recorded j d e n hin
    · cases List.mem_singleton.mp hin

theorem rowKept_refl (row : OrchestrationApproval) : RowKept row row :=
  ⟨rfl, rfl, rfl, fun _ => ⟨rfl, rfl, rfl, rfl⟩, id, .inl, fun _ => rfl⟩

theorem RowKept.trans (h : RowKept row row') (h' : RowKept row' row'') : RowKept row row'' := by
  have hpending : row'.status = .pending → row.status = .pending := fun hp =>
    Classical.byContradiction fun hnot => hnot ((h.settled hnot).1 ▸ hp)
  have hroute : row'.route = .orchestrator → row.route = .orchestrator := fun hr => by
    cases hrow : row.route with
    | orchestrator => rfl
    | user =>
      rw [h.user hrow] at hr
      cases hr
  refine ⟨h'.id.trans h.id, h'.key.trans h.key, h'.mission.trans h.mission, fun hdone => ?_,
    fun hu => h'.user (h.user hu),
    fun horch => ?_, fun hn => ?_⟩
  · obtain ⟨hs, hd, ht, hb⟩ := h.settled hdone
    obtain ⟨hs', hd', ht', hb'⟩ := h'.settled (hs ▸ hdone)
    exact ⟨hs'.trans hs, hd'.trans hd, ht'.trans ht, hb'.trans hb⟩
  · rcases h'.orchestrator horch with hold | ⟨hp, hr⟩
    · exact h.orchestrator hold
    · exact .inr ⟨hpending hp, hroute hr⟩
  · have hnew := h.noticed hn
    rw [h'.noticed (hnew ▸ hn), hnew]

/-- A transition that applies settles no row again. -/
theorem rowKept_patch {id : Nat} (now : Date)
    (happlies : t.applies id row = true) : RowKept row (t.patch now row) := by
  obtain ⟨-, hpending, hroute⟩ := ApprovalTransition.applies_iff.mp happlies
  cases t with
  | finalize decision decider note =>
    refine ⟨rfl, rfl, rfl, fun hdone => absurd hpending hdone, fun hu => hu, fun horch => ?_,
      fun _ => rfl⟩
    refine .inr ⟨hpending, hroute ?_⟩
    simpa [ApprovalTransition.routed, ApprovalTransition.patch] using horch
  | cancel reason =>
    exact ⟨rfl, rfl, rfl, fun hdone => absurd hpending hdone, fun hu => hu,
      nofun,
      fun _ => rfl⟩
  | escalate reason note =>
    exact ⟨rfl, rfl, rfl, fun hdone => absurd hpending hdone, fun _ => rfl, .inl, fun _ => rfl⟩

end Rows

/-! ## The table -/

namespace Approvals

/-- The row an event is about is in the table. -/
def Known (n : Nat) (e : ApprovalEffect) : Prop := ∀ id, e.about id = true → id < n

/-- Rows are numbered, no two have one key, and the history counts each of them. -/
structure SettledInv (R : ApprovalRead → Prop) (C : OrchestrationCaller → Prop) (s : Approvals) :
    Prop where
  ids : s.rows.map (·.id) = List.range s.rows.length
  keys : (s.rows.map (·.key)).Nodup
  known : ∀ e ∈ s.log, Known s.rows.length e
  counted : ∀ row ∈ s.rows, Counted s.log row
  phases : ∀ k phase, s.calls[k]? = some phase → PhaseOk R C s k phase

section Table

variable {R : ApprovalRead → Prop} {C : OrchestrationCaller → Prop} {s s' : Approvals}
  {row : OrchestrationApproval} {rows : List OrchestrationApproval}
  {es : List ApprovalEffect} {k : Nat}

theorem SettledInv.id_lt (h : SettledInv R C s) (hmem : row ∈ s.rows) : row.id < s.rows.length := by
  have hid : row.id ∈ s.rows.map (·.id) := List.mem_map.mpr ⟨row, hmem, rfl⟩
  rw [h.ids] at hid
  exact List.mem_range.mp hid

theorem SettledInv.ids_nodup (h : SettledInv R C s) : (s.rows.map (·.id)).Nodup := by
  rw [h.ids]
  exact List.nodup_range

theorem SettledInv.eq_of_id (h : SettledInv R C s) {row' : OrchestrationApproval}
    (hmem : row ∈ s.rows) (hmem' : row' ∈ s.rows) (hid : row.id = row'.id) : row = row' :=
  List.inj_on_of_nodup_map h.ids_nodup hmem hmem' hid

variable {id : Nat} {f : OrchestrationApproval → OrchestrationApproval}
  {p : OrchestrationApproval → Bool}

theorem SettledInv.exists_row (h : SettledInv R C s) (hid : id < s.rows.length) :
    ∃ row ∈ s.rows, row.id = id := by
  have hmem : id ∈ s.rows.map (·.id) := by
    rw [h.ids]
    exact List.mem_range.mpr hid
  exact List.mem_map.mp hmem

theorem rowOf_eq_some (h : s.rowOf id = some row) : row ∈ s.rows ∧ row.id = id :=
  ⟨List.mem_of_find?_eq_some h, by simpa using List.find?_some h⟩

theorem SettledInv.rowOf (h : SettledInv R C s) (hmem : row ∈ s.rows) :
    s.rowOf row.id = some row := by
  cases hrow : s.rowOf row.id with
  | none =>
    have hnone := List.find?_eq_none.mp hrow row hmem
    simp at hnone
  | some row' =>
    obtain ⟨hmem', hid⟩ := rowOf_eq_some hrow
    rw [h.eq_of_id hmem' hmem hid]

/-- Nothing is recorded about the next number. -/
theorem SettledInv.uncounted (h : SettledInv R C s) {p : ApprovalEffect → Bool}
    (hp : ∀ e, p e = true → e.about s.rows.length = true) : s.log.countP p = 0 := by
  refine List.countP_eq_zero.mpr fun e he hpe => ?_
  exact Nat.lt_irrefl _ (h.known e he _ (hp e hpe))

theorem about_answered {reply : ApprovalReply} :
    (ApprovalEffect.answered k reply).about id = false := rfl

theorem about_moved {id i : Nat} {t : ApprovalTransition}
    (h : (ApprovalEffect.moved k i t).about id = true) : i = id := by
  simp [ApprovalEffect.about] at h
  rcases h with h | h <;> exact h.1

theorem about_notified {id i : Nat} (h : (ApprovalEffect.notified i).about id = true) : i = id := by
  simpa [ApprovalEffect.about] using h

/-- A new row is counted: nothing was recorded about its number. -/
theorem SettledInv.counted_new (h : SettledInv R C s) (hfresh : row.Fresh) :
    Counted s.log { row with id := s.rows.length } := by
  have hclosed : s.log.countP (·.isClosing s.rows.length) = 0 :=
    h.uncounted fun e he => by simp [ApprovalEffect.about, he]
  have hrouted : s.log.countP (·.isRouting s.rows.length) = 0 :=
    h.uncounted fun e he => by simp [ApprovalEffect.about, he]
  have hnoticed : s.log.countP (·.isNotice s.rows.length) = 0 :=
    h.uncounted fun e he => by simp [ApprovalEffect.about, he]
  refine ⟨?_, ?_, ?_, fun horch => ?_, fun k decision decider note hin => ?_⟩
  · dsimp only
    rw [hclosed, if_pos hfresh.pending]
  · dsimp only
    rw [hrouted]
    exact Nat.zero_le _
  · dsimp only
    rw [hnoticed, if_pos hfresh.unnoticed]
  · have horch : row.decided_by_type = some .orchestrator := horch
    rw [hfresh.undecided] at horch
    cases horch
  · exact absurd hin (not_recorded hclosed)

/-- A conditional update of one row: the rows it met are counted with the new events, which are
    about them only. -/
theorem SettledInv.counted_update (h : SettledInv R C s)
    (hp : ∀ r, p r = true → r.id = id) (hwon : (updateWhere p f s.rows).1 = true)
    (hes : ∀ e ∈ es, ∀ i, e.about i = true → id = i)
    (hf : ∀ r ∈ s.rows, p r = true → Counted (s.log ++ es) (f r)) :
    ∀ row ∈ (updateWhere p f s.rows).2, Counted (s.log ++ es) row := by
  intro row hrow
  obtain ⟨r, hr, ⟨hpr, rfl⟩ | ⟨hpr, rfl⟩⟩ := mem_updateWhere hrow
  · exact hf r hr hpr
  · refine (h.counted row hr).frame fun e he => ?_
    cases habout : e.about row.id with
    | false => rfl
    | true =>
      -- the row the update met has this number, and it is another row
      obtain ⟨r', hr', hpr'⟩ := updateWhere_won.mp hwon
      have hid := (hp r' hpr').trans (hes e he _ habout)
      rw [h.eq_of_id hr hr' hid.symm, hpr'] at hpr
      cases hpr

theorem length_updateWhere :
    (updateWhere p f rows).2.length = rows.length := by
  simp [updateWhere]

theorem patch_id (t : ApprovalTransition) (now : Date) : (t.patch now row).id = row.id := by
  cases t <;> rfl

theorem patch_key (t : ApprovalTransition) (now : Date) : (t.patch now row).key = row.key := by
  cases t <;> rfl

/-- What a step does to the table keeps the numbers, the keys and the counts. -/
theorem SettledInv.table (h : SettledInv R C s) (hstep : s.TableStep k rows es) :
    rows.map (·.id) = List.range rows.length ∧ (rows.map (·.key)).Nodup ∧
      (∀ e ∈ s.log ++ es, Known rows.length e) ∧ ∀ row ∈ rows, Counted (s.log ++ es) row := by
  have hupdate : ∀ (p : OrchestrationApproval → Bool)
      (f : OrchestrationApproval → OrchestrationApproval), (∀ r, (f r).id = r.id) →
      (∀ r, (f r).key = r.key) → (updateWhere p f s.rows).2.map (·.id) =
        List.range (updateWhere p f s.rows).2.length ∧
      ((updateWhere p f s.rows).2.map (·.key)).Nodup := by
    intro p f hid hkey
    rw [length_updateWhere, map_updateWhere fun r _ => hid r, map_updateWhere fun r _ => hkey r]
    exact ⟨h.ids, h.keys⟩
  have hknown : ∀ id < s.rows.length, (∀ e ∈ es, ∀ i, e.about i = true → id = i) →
      ∀ e ∈ s.log ++ es, Known s.rows.length e := by
    intro id hid hes e he
    rcases List.mem_append.mp he with he | he
    · exact h.known e he
    · intro i hi
      rw [← hes e he i hi]
      exact hid
  cases hstep with
  | keep =>
    rw [List.append_nil]
    exact ⟨h.ids, h.keys, h.known, h.counted⟩
  | answer reply hreply =>
    refine ⟨h.ids, h.keys, fun e he => ?_, fun row hrow => ?_⟩
    · rcases List.mem_append.mp he with he | he
      · exact h.known e he
      · obtain rfl := List.mem_singleton.mp he
        intro i hi
        rw [about_answered] at hi
        cases hi
    · refine (h.counted row hrow).frame fun e he => ?_
      obtain rfl := List.mem_singleton.mp he
      exact about_answered
  | @insert row hcall hkey =>
    rw [List.append_nil]
    refine ⟨?_, ?_, fun e he i hi => ?_, fun row' hrow' => ?_⟩
    · rw [List.map_append, h.ids, List.length_append, List.length_singleton, List.range_succ]
      rfl
    · rw [List.map_append, List.nodup_append]
      refine ⟨h.keys, List.nodup_singleton _, ?_⟩
      rintro key hold key' hnew rfl
      obtain rfl := List.mem_singleton.mp hnew
      obtain ⟨r, hr, heq⟩ := List.mem_map.mp hold
      have hno := List.find?_eq_none.mp hkey r hr
      simp at hno
      exact hno heq
    · rw [List.length_append]
      exact Nat.lt_add_right _ (h.known e he i hi)
    · rcases List.mem_append.mp hrow' with hrow' | hrow'
      · exact h.counted row' hrow'
      · obtain rfl := List.mem_singleton.mp hrow'
        exact h.counted_new (fresh_of_asked (h.phases k _ hcall))
  | @move row t next hcall now hwon =>
    have habout : ∀ e ∈ [ApprovalEffect.moved k row.id t], ∀ i, e.about i = true → row.id = i := by
      intro e he i hi
      obtain rfl := List.mem_singleton.mp he
      exact about_moved hi
    obtain ⟨r, hr, hpr⟩ := updateWhere_won.mp hwon
    have hid : r.id = row.id := (ApprovalTransition.applies_iff.mp hpr).1
    obtain ⟨hids, hkeys⟩ := hupdate _ _ (fun r => patch_id t now) fun r => patch_key t now
    refine ⟨hids, hkeys, ?_, ?_⟩
    · rw [length_updateWhere]
      exact hknown row.id (hid ▸ h.id_lt hr) habout
    · refine h.counted_update (fun r' h' => (ApprovalTransition.applies_iff.mp h').1) hwon habout ?_
      intro r' hr' hpr'
      have hid' := (ApprovalTransition.applies_iff.mp hpr').1
      rw [← hid'] at hpr' ⊢
      exact (h.counted r' hr').moved now hpr'
  | poll id now =>
    obtain ⟨hids, hkeys⟩ := hupdate (fun r => r.id = id && r.status = .pending)
      (fun r => { r with last_polled_at := now }) (fun _ => rfl) fun _ => rfl
    rw [List.append_nil]
    refine ⟨hids, hkeys, ?_, fun row hrow => ?_⟩
    · rw [length_updateWhere]
      exact h.known
    · obtain ⟨r, hr, ⟨_, rfl⟩ | ⟨_, rfl⟩⟩ := mem_updateWhere hrow
      · exact (h.counted r hr).polled now
      · exact h.counted row hr
  | notice id now hwon =>
    have habout : ∀ e ∈ [ApprovalEffect.notified id], ∀ i, e.about i = true → id = i := by
      intro e he i hi
      obtain rfl := List.mem_singleton.mp he
      exact about_notified hi
    have hid : ∀ r : OrchestrationApproval, r.awaitsNotice id = true → r.id = id := by
      intro r hr
      simp [OrchestrationApproval.awaitsNotice] at hr
      exact hr.1.1.1
    obtain ⟨r, hr, hpr⟩ := updateWhere_won.mp hwon
    obtain ⟨hids, hkeys⟩ := hupdate (OrchestrationApproval.awaitsNotice id)
      (fun row => { row with user_notified_at := some now }) (fun _ => rfl) fun _ => rfl
    refine ⟨hids, hkeys, ?_, ?_⟩
    · rw [length_updateWhere]
      exact hknown id (hid r hpr ▸ h.id_lt hr) habout
    · refine h.counted_update hid hwon habout fun r' hr' hpr' => ?_
      obtain rfl := hid r' hpr'
      exact (h.counted r' hr').notified now hpr'

/-- A row stays in the table, and what is settled about it stays. -/
theorem TableStep.kept (hstep : s.TableStep k rows es) (hmem : row ∈ s.rows) :
    ∃ row' ∈ rows, RowKept row row' := by
  have hupdate : ∀ (p : OrchestrationApproval → Bool)
      (f : OrchestrationApproval → OrchestrationApproval), (∀ r, p r = true → RowKept r (f r)) →
      ∃ row' ∈ (updateWhere p f s.rows).2, RowKept row row' := by
    intro p f hf
    refine ⟨if p row then f row else row, List.mem_map.mpr ⟨row, hmem, rfl⟩, ?_⟩
    split
    · rename_i hp
      exact hf row hp
    · exact rowKept_refl row
  cases hstep with
  | keep => exact ⟨row, hmem, rowKept_refl row⟩
  | answer reply hreply => exact ⟨row, hmem, rowKept_refl row⟩
  | insert hcall hkey => exact ⟨row, List.mem_append_left _ hmem, rowKept_refl row⟩
  | move hcall now hwon => exact hupdate _ _ fun r hr => rowKept_patch now hr
  | poll id now =>
    refine hupdate _ _ fun r _ => ⟨rfl, rfl, rfl, fun _ => ⟨rfl, rfl, rfl, rfl⟩, fun hu => hu, .inl,
      fun _ => rfl⟩
  | notice id now hwon =>
    refine hupdate _ _ fun r hr => ⟨rfl, rfl, rfl, fun _ => ⟨rfl, rfl, rfl, rfl⟩, fun hu => hu,
      .inl,
      fun hn => ?_⟩
    -- the claim asked for a row without a notice
    simp [OrchestrationApproval.awaitsNotice] at hr
    exact absurd hr.2 hn

end Table

end Approvals

/-! ## Runs -/

namespace Approvals

/-- A lost escalation reads a request that is still pending with the orchestrator. -/
def unbeaten (s : Approvals) : ApprovalAction → Bool
  | .advance k _ =>
    match s.calls[k]? with
    | some (.moved row (.escalate ..) false .decision) =>
      let fresh := (s.rowOf row.id).getD row
      fresh.status = .pending && fresh.route = .orchestrator
    | _ => true
  | _ => true

section Runs

variable {s s' : Approvals} {a : ApprovalAction} {k : Nat} {row : OrchestrationApproval}

/-- What is known of a call stays known while other calls go on. -/
theorem phaseOk_mono {phase : ApprovalPhase} (h : PhaseOk R C s k phase)
    (hlog : ∀ e ∈ s.log, e ∈ s'.log)
    (hrows : ∀ row ∈ s.rows, ∃ row' ∈ s'.rows, RowKept row row') : PhaseOk R C s' k phase := by
  have hholds : ∀ row, s.Holds row → s'.Holds row := by
    rintro row ⟨r, hr, hid, hmission⟩
    obtain ⟨r', hr', hkept⟩ := hrows r hr
    exact ⟨r', hr', hkept.id.trans hid, hkept.mission.trans hmission⟩
  cases phase with
  | deciding row caller decision note => exact ⟨h.1, hholds row h.2⟩
  | moving row t next =>
    refine ⟨h.1, fun decision id note ht => ?_⟩
    obtain ⟨hrow, hby⟩ := h.2 decision id note ht
    exact ⟨hholds row hrow, hby⟩
  | moved row t won next => exact ⟨h.1, fun hwon => hlog _ (h.2 hwon)⟩
  | _ => exact h

end Runs

end Approvals

/-- The orchestrator that calls is one of `C`, and a call reads what `R` allows. -/
def ApprovalAction.Within (R : ApprovalRead → Prop) (C : OrchestrationCaller → Prop) :
    ApprovalAction → Prop
  | .call c => c.By C
  | .advance _ read => R read
  | .notify .. => True

namespace Approvals

section Runs

variable {R : ApprovalRead → Prop} {C : OrchestrationCaller → Prop} {s s' : Approvals}
  {a : ApprovalAction} {k : Nat} {row : OrchestrationApproval}

/-- One step of the system, on the table and on the calls. -/
theorem action_cases (h : a.run s = some s') (hwithin : a.Within R C)
    (hok : ∀ k phase, s.calls[k]? = some phase → PhaseOk R C s k phase) :
    ∃ k es, s.TableStep k s'.rows es ∧ s'.log = s.log ++ es ∧
      (∀ j phase, s'.calls[j]? = some phase → PhaseOk R C s' j phase) ∧
      ((∃ read, a = .advance k read) ∨ ∀ reply, .answered k reply ∉ es) := by
  have hmono : ∀ {k es}, s.TableStep k s'.rows es → s'.log = s.log ++ es →
      ∀ j phase, s.calls[j]? = some phase → PhaseOk R C s' j phase := by
    intro k es htable hlog j phase hj
    refine phaseOk_mono (hok j phase hj) (fun e he => ?_) fun row hrow => htable.kept hrow
    rw [hlog]
    exact List.mem_append_left _ he
  unfold ApprovalAction.run at h
  cases a with
  | call c =>
    obtain rfl := Option.some.inj h
    refine ⟨0, [], .keep, (List.append_nil _).symm, fun j phase hj => ?_, .inr fun _ => nofun⟩
    rcases getElem?_append_cases hj with hj | ⟨_, rfl⟩
    · exact phaseOk_mono (hok j phase hj) (fun _ he => he)
        fun row hrow => ⟨row, hrow, rowKept_refl row⟩
    · exact hwithin
  | advance k read =>
    obtain ⟨phase, hcall, rfl⟩ := Option.map_eq_some_iff.mp h
    have hadv := advanced_advance hwithin hcall (hok k phase hcall)
    obtain ⟨es, htable, hlog⟩ := hadv.table
    refine ⟨k, es, htable, hlog, fun j other hj => ?_, .inl ⟨read, rfl⟩⟩
    rcases hadv.calls j other hj with hold | ⟨rfl, hnew⟩
    · exact hmono htable hlog j other hold
    · exact hnew
  | notify id read =>
    dsimp only at h
    split at h
    · obtain rfl := Option.some.inj h
      unfold claimNotice
      dsimp only
      split
      · rename_i hwon
        have htable := TableStep.notice (s := s) (k := 0) id read.now
          (Bool.and_eq_true_iff.mp hwon).1
        refine ⟨0, _, htable, rfl, fun j phase hj => ?_, .inr fun reply hin => ?_⟩
        · exact phaseOk_mono (hok j phase hj) (fun e he => List.mem_append_left _ he)
            fun row hrow => htable.kept hrow
        · cases List.mem_singleton.mp hin
      · refine ⟨0, [], .keep, (List.append_nil _).symm, fun j phase hj => ?_, .inr fun _ => nofun⟩
        exact phaseOk_mono (hok j phase hj) (fun _ he => he)
          fun row hrow => ⟨row, hrow, rowKept_refl row⟩
    · cases h

/-- Each step keeps the counts and what is settled of a row. -/
theorem SettledInv.step (h : SettledInv R C s) (hs : a.run s = some s') (hwithin : a.Within R C) :
    SettledInv R C s' := by
  obtain ⟨k, es, htable, hlog, hphases, _⟩ := action_cases hs hwithin h.phases
  obtain ⟨hids, hkeys, hknown, hcounted⟩ := h.table htable
  refine ⟨hids, hkeys, ?_, ?_, hphases⟩ <;> rw [hlog]
  · exact hknown
  · exact hcounted

/-! ### Answers -/

/-- An answer that reports a transition is backed by one of its call; a decision that won is the
    one the row shows. -/
def Backed (log : List ApprovalEffect) (k : Nat) (row : OrchestrationApproval) : Prop :=
  ∃ t, .moved k row.id t ∈ log ∧
    ∀ decision decider note, t = .finalize decision decider note → row.decision = some decision

theorem Backed.append (h : Backed s.log k row) (es : List ApprovalEffect) :
    Backed (s.log ++ es) k row := by
  obtain ⟨t, hmem, hshown⟩ := h
  exact ⟨t, List.mem_append_left _ hmem, hshown⟩

/-- What the calls have answered is true of the history. -/
def AnswersBacked (s : Approvals) : Prop :=
  ∀ k row, .answered k (.decided row false) ∈ s.log → Backed s.log k row

/-- A call that has read the row again reports a transition only if it won one. -/
theorem SettledInv.backed (h : SettledInv R C s) {r : OrchestrationApproval}
    {t : ApprovalTransition} {won : Bool} (hcall : s.calls[k]? = some (.moved r t won .decision))
    (hunbeaten : won = false → t.closes = false →
      ((s.rowOf r.id).getD r).status = .pending ∧ ((s.rowOf r.id).getD r).route = .orchestrator)
    (hreply : .decided row false = decisionReply ((s.rowOf r.id).getD r) won t) :
    Backed s.log k row := by
  obtain ⟨hanswers, hwon⟩ := h.phases k _ hcall
  have hlog : won = true → .moved k r.id t ∈ s.log := hwon
  cases won with
  | true =>
    have hmoved := hlog rfl
    obtain ⟨fresh, hfresh, hid⟩ := h.exists_row (h.known _ hmoved r.id (by
      cases t <;> simp [ApprovalEffect.about, ApprovalTransition.closes]))
    have hread : (s.rowOf r.id).getD r = fresh := by rw [← hid, h.rowOf hfresh, Option.getD_some]
    rw [hread] at hreply
    rw [← hid] at hmoved
    cases t with
    | finalize decision decider note =>
      obtain rfl : row = fresh := by
        simp [decisionReply] at hreply
        exact hreply
      refine ⟨_, hmoved, fun d e n heq => ?_⟩
      injection heq with hd _ _
      rw [← hd]
      exact ((h.counted row hfresh).recorded _ _ _ _ hmoved).1
    | cancel reason => cases hanswers rfl
    | escalate reason note =>
      unfold decisionReply at hreply
      dsimp only at hreply
      split at hreply
      · cases hreply
      · injection hreply with hrow _
        obtain rfl := hrow
        exact ⟨_, hmoved, fun d e n heq => (by cases heq)⟩
  | false =>
    cases t with
    | finalize decision decider note =>
      unfold decisionReply at hreply
      simp only [Bool.false_eq_true, if_false] at hreply
      split at hreply
      · cases hreply
      · cases hreply
    | cancel reason => cases hanswers rfl
    | escalate reason note =>
      -- the row is as the lost update left it, so the call is refused
      obtain ⟨hpending, hroute⟩ := hunbeaten rfl rfl
      unfold decisionReply at hreply
      rw [hpending, hroute] at hreply
      simp at hreply

/-- An answer is backed when it is given, if no one was faster. -/
theorem AnswersBacked.step (hb : s.AnswersBacked) (h : SettledInv R C s) (hs : a.run s = some s')
    (hwithin : a.Within R C) (hunbeaten : s.unbeaten a = true) : s'.AnswersBacked := by
  obtain ⟨k, es, htable, hlog, _, hcall⟩ := action_cases hs hwithin h.phases
  intro j row hin
  rw [hlog] at hin ⊢
  rcases List.mem_append.mp hin with hin | hin
  · exact (hb j row hin).append es
  · generalize s'.rows = rows at htable
    cases htable with
    | answer reply hreply =>
      injection List.mem_singleton.mp hin with hjk hrow
      obtain rfl := hjk
      obtain ⟨r, t, won, hphase, heq⟩ := hreply row hrow.symm
      rcases hcall with ⟨read, rfl⟩ | hnot
      · refine (h.backed hphase (fun hw ht => ?_) (hrow.trans heq)).append _
        subst hw
        unfold unbeaten at hunbeaten
        dsimp only at hunbeaten
        rw [hphase] at hunbeaten
        cases t with
        | escalate reason note => simpa using hunbeaten
        | finalize decision decider note => cases ht
        | cancel reason => cases ht
      · exact absurd (List.mem_singleton_self _) (hnot reply)
    | move hcall now hwon => cases List.mem_singleton.mp hin
    | notice id now hwon => cases List.mem_singleton.mp hin
    | keep => cases hin
    | insert hcall hkey => cases hin
    | poll id now => cases hin

theorem settledInv_init : SettledInv R C {} :=
  ⟨rfl, List.nodup_nil, fun _ => nofun, fun _ => nofun, fun _ _ hk => by cases hk⟩

/-- Along a path whose steps stay within `R` and `C`, the rows are kept. -/
theorem SettledInv.path (h : SettledInv R C s) {as : List ApprovalAction}
    (hpath : approvalSystem.Path s as s') (hwithin : ∀ a ∈ as, a.Within R C) :
    SettledInv R C s' ∧ ∀ row ∈ s.rows, ∃ row' ∈ s'.rows, RowKept row row' := by
  induction hpath with
  | nil => exact ⟨h, fun row hrow => ⟨row, hrow, rowKept_refl row⟩⟩
  | snoc _ hs ih =>
    obtain ⟨hmid, hkept⟩ := ih fun a ha => hwithin a (List.mem_append_left _ ha)
    have hlast := hwithin _ (List.mem_append_right _ (List.mem_singleton_self _))
    refine ⟨hmid.step hs hlast, fun row hrow => ?_⟩
    obtain ⟨mid, hmem, hfirst⟩ := hkept row hrow
    obtain ⟨k, es, htable, _⟩ := action_cases hs hlast hmid.phases
    obtain ⟨last, hmem', hsecond⟩ := htable.kept hmem
    exact ⟨last, hmem', hfirst.trans hsecond⟩

theorem within_all (a : ApprovalAction) : a.Within (fun _ => True) fun _ => True := by
  cases a with
  | call c => cases c <;> trivial
  | advance k read => trivial
  | notify id read => trivial

end Runs

/-- The table holds one row of a request; the history holds one transition that ends it, at most
    one that hands it to the user and at most one notice; the orchestrator has decided only what
    was with it; and an answer that reports a transition is backed by one. -/
structure SettledOnce (s : Approvals) : Prop where
  one_row : (s.rows.map (·.key)).Nodup
  ids : (s.rows.map (·.id)).Nodup
  counted : ∀ row ∈ s.rows, Counted s.log row
  answers : s.AnswersBacked

/-- Requests are settled once and by the right party, where no lost escalation reads a request
    that somebody has decided or escalated meanwhile. -/
theorem settles_once {s : Approvals}
    (h : (approvalSystem.restrict fun s a _ => s.unbeaten a = true).Reachable s) :
    s.SettledOnce ∧ ∀ as s', approvalSystem.Path s as s' →
      ∀ row ∈ s.rows, ∃ row' ∈ s'.rows, RowKept row row' := by
  have hinv : SettledInv (fun _ => True) (fun _ => True) s ∧ s.AnswersBacked := by
    refine h.invariant
      (P := fun s => SettledInv (fun _ => True) (fun _ => True) s ∧ s.AnswersBacked)
      (fun s h0 => ?_) fun s a s' _ hi hs => ?_
    · obtain rfl := h0
      exact ⟨settledInv_init, fun _ _ => nofun⟩
    · exact ⟨hi.1.step hs.1 (within_all a), hi.2.step hi.1 hs.1 (within_all a) hs.2⟩
  refine ⟨⟨hinv.1.keys, hinv.1.ids_nodup, hinv.1.counted, hinv.2⟩, fun as s' hpath => ?_⟩
  exact (hinv.1.path hpath fun a _ => within_all a).2

/-! ### Two runs -/

/-- A trusted orchestrator, a member that works on a step, and the user. -/
def smallRead (lead member : String) : ApprovalRead :=
  { room := some
      { id := "step-room", account_id := "account", orchestration_mission_id := some "mission"
        orchestration_step_id := some "step" }
    mission := some
      { id := "mission", account_id := "account", status := .running
        room_id := some "mission-room", orchestrator_agent_id := some lead, trusted := true }
    step := some
      { id := "step", mission_id := "mission", room_id := some "step-room", status := .running
        assignee_agent_id := some member } }

/-- The member asks, and the orchestrator reads the request to give this answer. -/
def askedRun (lead member : String) (decision : OrchestratorApprovalDecision) :
    List ApprovalAction :=
  let read := smallRead lead member
  [.call (.request
      { room_id := "step-room", agent_id := member, request_key := "tool-1"
        tool_name := "Bash" } {}),
    .advance 0 read, .advance 0 read, .advance 0 read, .advance 0 read,
    .call (.decideAsOrchestrator 0 ⟨"host", some lead⟩ (some decision) ""),
    .advance 1 read, .advance 1 read]

/-- The user allows what the orchestrator is about to answer, and then it goes on. -/
def overtakenRun (decision : OrchestratorApprovalDecision) : List ApprovalAction :=
  let read := smallRead "rt-lead" "rt-member"
  askedRun "rt-lead" "rt-member" decision ++
    [.call (.decideAsUser 0 "account" "user" (some .allow) ""), .advance 2 read, .advance 2 read,
      .advance 2 read, .advance 2 read, .advance 1 read, .advance 1 read]

/-- A run, with every step checked. -/
def checkedRun (check : Approvals → ApprovalAction → Bool) (s : Approvals) (a : ApprovalAction) :
    Except Unit Approvals := do
  require (check s a) ()
  orThrow (a.run s) ()

theorem exists_checked (C : Approvals → ApprovalAction → Bool) (actions : List ApprovalAction)
    (p : Approvals → Bool)
    (h : (Transition.runList (checkedRun C) {} actions).toOption.any p = true) :
    ∃ s, (approvalSystem.restrict fun s a _ => C s a = true).Reachable s ∧ p s = true := by
  have hrun : ∀ s a s', checkedRun C s a = .ok s' →
      (approvalSystem.restrict fun s a _ => C s a = true).step s a s' := by
    intro s a s' hs
    simp only [checkedRun, bind_eq_ok, require_eq_ok, orThrow_eq_ok] at hs
    obtain ⟨_, hc, hs⟩ := hs
    exact ⟨hs, hc⟩
  obtain ⟨s, hpath, hp⟩ := Transition.exists_path_of_run hrun {} actions p h
  exact ⟨s, Transition.Reachable.path (.init rfl) hpath, hp⟩

/-- The user is faster: the orchestrator's answer is refused, and the request was settled once. -/
theorem settles_once_late : ∃ s : Approvals, s.log.countP (·.isClosing 0) = 1 ∧
    .answered 1 (.refused 409) ∈ s.log ∧ s.SettledOnce := by
  obtain ⟨s, hreach, hcheck⟩ := exists_checked unbeaten (overtakenRun (.answer .deny))
    (fun s => s.log.countP (·.isClosing 0) = 1 && .answered 1 (.refused 409) ∈ s.log)
    (by decide +kernel)
  rw [Bool.and_eq_true, decide_eq_true_eq, decide_eq_true_eq] at hcheck
  exact ⟨s, hcheck.1, hcheck.2, (settles_once hreach).1⟩

/-- A call that reports a transition the history does not hold. -/
def unbacked (k : Nat) (log : List ApprovalEffect) : Bool :=
  (log.any fun e => match e with
    | .answered j (.decided _ false) => j = k
    | _ => false) && log.all fun e => match e with
    | .moved j _ _ => j ≠ k
    | _ => true

/-- The orchestrator escalates a request that the user has allowed since it was read: it is told
    that it has, with the decision of the user. -/
theorem escalate_lost : ¬∀ s, approvalSystem.Reachable s → s.AnswersBacked := by
  intro hall
  obtain ⟨s, hreach, hcheck⟩ := exists_checked (fun _ _ => true) (overtakenRun .escalate)
    (fun s => unbacked 1 s.log) (by decide +kernel)
  unfold unbacked at hcheck
  rw [Bool.and_eq_true, List.any_eq_true, List.all_eq_true] at hcheck
  obtain ⟨⟨e, hin, he⟩, hnone⟩ := hcheck
  split at he
  · rename_i j row
    obtain rfl : j = 1 := of_decide_eq_true he
    obtain ⟨t, hmoved, _⟩ := hall s hreach.of_restrict 1 row hin
    have hnot := hnone _ hmoved
    simp at hnot
  · cases he

end Approvals

end WorkflowBoard.Orchestration
