import WorkflowBoard.Spec.RowWrites

/-!
# Fencing of late reports

Every dispatch issues a lease token, and a report has to present the token its step holds.
While a step is in flight it holds the token of the attempt that is under way, so that the
reports of every other attempt are refused. A step that waits again holds what the attempt
before left behind: its token, or none where a failure from outside blanked it, and then the
guard lets every report through.
-/

namespace WorkflowBoard.Orchestration

/-! ## The live attempt -/

/-- The effects that start an attempt or end it. -/
def Effect.turnsAttempt : Effect → Bool
  | .dispatched .. | .ended _ | .redone _ => true
  | _ => false

/-- The attempt with the lease is the last one dispatched for the step, and nothing has ended
    it since. -/
def IsLive (key : String) (lease : Nat) (log : List Effect) : Prop :=
  ∃ pre visit post, log = pre ++ .dispatched key lease visit :: post ∧
    ∀ e ∈ post, e.stepKey = some key → e.turnsAttempt = false

/-- The lease of the live attempt, read off the history of its step. -/
def liveLease (es : List Effect) : Option Nat :=
  match latest Effect.turnsAttempt es with
  | some (.dispatched _ lease _) => some lease
  | _ => none

section Append

variable (es : List Effect) (key : String)

@[simp] theorem liveLease_dispatched (lease visit : Nat) :
    liveLease (es ++ [.dispatched key lease visit]) = some lease := by
  rw [liveLease, latest_snoc rfl]

@[simp] theorem liveLease_ended : liveLease (es ++ [.ended key]) = none := by
  rw [liveLease, latest_snoc rfl]

@[simp] theorem liveLease_redone : liveLease (es ++ [.redone key]) = none := by
  rw [liveLease, latest_snoc rfl]

/-- Steps that go back or are cancelled end an attempt once or several times. -/
theorem liveLease_ends {n : Nat} (hn : 0 < n) :
    liveLease (es ++ List.replicate n (.ended key)) = none := by
  rw [liveLease, latest_replicate hn rfl]

theorem liveLease_quiet {es' : List Effect} (h : ∀ e ∈ es', e.turnsAttempt = false) :
    liveLease (es ++ es') = liveLease es := by
  rw [liveLease, latest_append_of_not h, liveLease]

end Append

/-- The history of the step tells which attempt is live. -/
theorem isLive_iff {key : String} {lease : Nat} (log : List Effect) :
    IsLive key lease log ↔ liveLease (about key log) = some lease := by
  unfold liveLease
  constructor
  · rintro ⟨pre, visit, post, hlog, hpost⟩
    rw [latest_about.mpr ⟨⟨rfl, rfl⟩, pre, post, hlog, hpost⟩]
  · intro h
    split at h
    · rename_i k l visit hlast
      obtain ⟨⟨_, hkey⟩, pre, post, hlog, hpost⟩ := latest_about.mp hlast
      cases h
      cases hkey
      exact ⟨pre, visit, post, hlog, hpost⟩
    · cases h

/-! ## Leases are issued once -/

/-- The lease an effect issues. -/
def Effect.lease : Effect → Option Nat
  | .dispatched _ lease _ => some lease
  | _ => none

/-- A write issues the next lease or none. -/
def Issues (r r' : Runner) : Prop :=
  (r'.tokens = r.tokens ∧ ∃ es, r'.log = r.log ++ es ∧ ∀ e ∈ es, e.lease = none) ∨
  (r'.tokens = r.tokens + 1 ∧ ∃ key visit, r'.log = r.log ++ [.dispatched key r.tokens visit])

section Issues

variable {G : Guards} {r r' : Runner}

theorem issues_none {es : List Effect} (htokens : r'.tokens = r.tokens)
    (hlog : r'.log = r.log ++ es) (hes : ∀ e ∈ es, e.lease = none) : Issues r r' :=
  .inl ⟨htokens, es, hlog, hes⟩

theorem lease_of_stepKey {e : Effect} (h : e.stepKey = none) : e.lease = none := by
  cases e <;> first | rfl | cases h

theorem issues_of_framed (h : Framed r r') : Issues r r' := by
  obtain ⟨es, hlog, hes⟩ := h.log
  exact issues_none h.tokens hlog fun e he => lease_of_stepKey (hes e he)

theorem Write.issues (h : Write G r r') : Issues r r' := by
  have hquiet : ∀ r' : Runner, r'.tokens = r.tokens → r'.log = r.log → Issues r r' :=
    fun r' htokens hlog => issues_none htokens (hlog.trans (List.append_nil _).symm) (by simp)
  cases h with
  | pump hpump =>
    cases hpump with
    | openGate now => exact issues_none rfl rfl (by simp [Effect.lease])
    | dispatch now => exact .inr ⟨rfl, _, _, rfl⟩
    | markReady => exact hquiet _ rfl rfl
    | failDispatch error now => exact issues_none rfl rfl (by simp [Effect.lease])
  | redispatch now => exact .inr ⟨rfl, _, _, rfl⟩
  | block now => exact hquiet _ rfl rfl
  | noteLease since => exact hquiet _ rfl rfl
  | progress checkpoint now => exact hquiet _ rfl rfl
  | budget => exact hquiet _ rfl rfl
  | amend input a => exact hquiet _ rfl rfl
  | unblock =>
    refine issues_none rfl rfl fun e he => ?_
    obtain ⟨_, _, rfl⟩ := List.mem_map.mp he
    rfl
  | reenter => exact issues_none rfl rfl (by simp [Effect.lease])
  | expire reason budgetLeft now => exact issues_none rfl rfl (by simp [Effect.lease])
  | failExternally reason now => exact issues_none rfl rfl (by simp [Effect.lease])
  | report now => exact issues_none rfl rfl (by simp [Effect.lease])
  | decide verdict now =>
    exact issues_none rfl (List.append_assoc _ _ _) (by simp [Effect.lease])
  | skip status now => exact issues_none rfl rfl (by simp [Effect.lease])
  | reassign a => exact issues_none rfl rfl (by simp [Effect.lease])
  | retry input a => exact issues_none rfl rfl (by simp [Effect.lease])
  | plan hplan _ =>
    obtain ⟨haccepted⟩ := Runner.acceptPlan_ok hplan
    refine issues_none haccepted.tokens haccepted.log fun e he => ?_
    rcases List.mem_append.mp he with he | he
    all_goals
      obtain ⟨key, _, rfl⟩ := List.mem_map.mp he
      rfl
  | patch hpatch _ =>
    obtain ⟨_, _, _, _, _, rfl⟩ := Runner.acceptPatch_ok hpatch
    exact hquiet _ rfl rfl
  | life hlife =>
    rcases hlife.frame with hframe | ⟨all, now, hframe⟩
    · exact issues_of_framed hframe
    · obtain ⟨es, hlog, hes⟩ := hframe.log
      refine issues_none hframe.tokens (hlog.trans (List.append_assoc _ _ _)) fun e he => ?_
      rcases List.mem_append.mp he with he | he
      · obtain ⟨_, _, rfl⟩ := List.mem_map.mp he
        rfl
      · exact lease_of_stepKey (hes e he)

end Issues

/-- Every attempt has a lease of its own. -/
theorem leases_nodup {r : Runner} (h : missionSystem.Reachable r) :
    (r.log.filterMap Effect.lease).Nodup := by
  refine (Runner.reachable_invariant (P := fun r => (r.log.filterMap Effect.lease).Nodup ∧
    ∀ n ∈ r.log.filterMap Effect.lease, n < r.tokens) ?_ ?_ h).2.1
  · intro input r hcreate
    obtain ⟨_, _, _, _, _, hlog⟩ := Runner.createMission_ok hcreate
    rw [hlog]
    exact ⟨List.nodup_nil, nofun⟩
  · rintro r r' _ ⟨hnd, hlt⟩ hw
    rcases hw.issues with ⟨htokens, es, hlog, hes⟩ | ⟨htokens, key, visit, hlog⟩
    · have hnone : es.filterMap Effect.lease = [] := List.filterMap_eq_nil_iff.mpr hes
      rw [hlog, List.filterMap_append, hnone, List.append_nil, htokens]
      exact ⟨hnd, hlt⟩
    · have hone : [Effect.dispatched key r.tokens visit].filterMap Effect.lease = [r.tokens] := rfl
      rw [hlog, List.filterMap_append, hone, htokens]
      refine ⟨List.nodup_append.mpr ⟨hnd, List.nodup_singleton _, ?_⟩, fun n hn => ?_⟩
      · intro a ha b hb
        rw [List.mem_singleton.mp hb]
        exact Nat.ne_of_lt (hlt a ha)
      · rcases List.mem_append.mp hn with hn | hn
        · exact Nat.lt_succ_of_lt (hlt n hn)
        · rw [List.mem_singleton.mp hn]
          exact Nat.lt_succ_self _

/-! ## The token of a step in flight -/

/-- A step in flight holds the lease of its live attempt; another step has no live attempt. -/
def LeaseInv (_ : Mission) (t : Step) (es : List Effect) : Prop :=
  if t.status.isInFlight then t.lease_token.isSome ∧ liveLease es = t.lease_token
  else liveLease es = none

section LeaseInv

variable {G : Guards} {r r' : Runner} {m : Mission} {s t : Step} {es es' : List Effect}

theorem LeaseInv.of_idle (h : LeaseInv m s es) (hs : s.status.isInFlight = false) :
    liveLease es = none := by
  unfold LeaseInv at h
  rwa [hs, if_neg Bool.false_ne_true] at h

theorem leaseInv_idle {m : Mission} (ht : t.status.isInFlight = false)
    (hes : liveLease es = none) : LeaseInv m t es := by
  unfold LeaseInv
  rwa [ht, if_neg Bool.false_ne_true]

/-- A change that keeps the token, that keeps whether the step is in flight, and that no
    attempt notices. -/
theorem LeaseInv.congr (h : LeaseInv m s es) {m' : Mission}
    (hstatus : t.status.isInFlight = s.status.isInFlight) (htoken : t.lease_token = s.lease_token)
    (hes' : ∀ e ∈ es', e.turnsAttempt = false) : LeaseInv m' t (es ++ es') := by
  unfold LeaseInv at *
  rw [hstatus, htoken, liveLease_quiet es hes']
  exact h

/-- A dispatched step holds the lease that was issued for it. -/
theorem leaseInv_stamped (r : Runner) (s : Step) (now : Date) : LeaseInv m (r.stamped s now)
    (es ++ [.dispatched s.step_key r.tokens (max s.visit 1)]) := by
  have hin : (r.stamped s now).status.isInFlight = true := rfl
  unfold LeaseInv
  rw [if_pos hin, liveLease_dispatched]
  exact ⟨rfl, rfl⟩

open Runner in
/-- Each change of a row keeps its token in step with its live attempt. -/
theorem LeaseInv.write (h : LeaseInv m s es) {m' : Mission} (hw : RowWrite G r s t es') :
    LeaseInv m' t (es ++ es') := by
  have hwaits : s.isWaiting = true → liveLease es = none := fun hwaits =>
    h.of_idle (not_inFlight_of_isWaiting hwaits)
  cases hw with
  | keep => exact h.congr rfl rfl (by simp)
  | openGate artifacts now hw _ =>
    refine leaseInv_idle rfl ?_
    rw [liveLease_quiet es (by simp [Effect.turnsAttempt])]
    exact hwaits hw
  | dispatch now _ _ =>
    exact leaseInv_stamped r s now
  | redispatch now _ _ _ =>
    exact leaseInv_stamped r s now
  | markReady hw =>
    refine leaseInv_idle rfl ?_
    rw [List.append_nil]
    exact hwaits hw
  | block now hw =>
    refine leaseInv_idle rfl ?_
    rw [List.append_nil]
    exact hwaits hw
  | failDispatch error now _ => exact leaseInv_idle rfl (liveLease_ended _ _)
  | unblock hblocked _ =>
    refine leaseInv_idle rfl ?_
    rw [liveLease_quiet es (by simp [Effect.turnsAttempt])]
    refine h.of_idle ?_
    rw [of_decide_eq_true (Bool.and_eq_true_iff.mp hblocked).1]
    rfl
  | reenter _ hn => exact leaseInv_idle rfl (liveLease_ends _ _ hn)
  | noteLease since _ => exact h.congr rfl rfl (by simp)
  | expire reason budgetLeft now _ =>
    refine leaseInv_idle ?_ (liveLease_ended _ _)
    unfold unrecoverable
    dsimp only
    split <;> rfl
  | failExternally reason now _ =>
    refine leaseInv_idle ?_ (liveLease_ended _ _)
    unfold failedExternally
    dsimp only
    split <;> rfl
  | progress checkpoint now _ _ => exact h.congr (progressed_inFlight s _ _) rfl (by simp)
  | @report input now _ _ _ =>
    refine leaseInv_idle ?_ (liveLease_ended _ _)
    unfold reported
    cases input.status <;> rfl
  | decide verdict now _ hawait _ _ _ =>
    refine leaseInv_idle rfl ?_
    rw [liveLease_quiet es (by simp [Effect.turnsAttempt])]
    refine h.of_idle ?_
    rw [hawait]
    rfl
  | budget _ _ _ => exact h.congr rfl rfl (by simp)
  | skip status now _ hstatus _ =>
    refine leaseInv_idle ?_ (liveLease_ended _ _)
    rcases hstatus with rfl | rfl <;> rfl
  | amend input a _ =>
    obtain ⟨_, _, _, _, _, _, _, _, _, heq⟩ := amended_revises s input a
    rw [heq]
    exact h.congr rfl rfl (by simp)
  | reassign a hidle _ =>
    refine leaseInv_idle ?_ (liveLease_redone _ _)
    unfold reopenedBy
    dsimp only
    split
    · rfl
    · exact hidle
  | retry input a _ _ _ => exact leaseInv_idle rfl (liveLease_redone _ _)
  | cancel now _ hn => exact leaseInv_idle rfl (liveLease_ends _ _ hn)

/-- A step in flight holds the lease of its live attempt. -/
theorem LeaseInv.step (h : LeaseInv r.mission s es) (hw : RowStep G r r' s t es') :
    LeaseInv r'.mission t (es ++ es') := by
  cases hw with
  | write _ hw => exact h.write hw
  | plan _ hrev _ _ =>
    obtain ⟨_, _, _, _, _, _, _, _, _, rfl⟩ := hrev
    exact h.congr rfl rfl (by simp [Effect.turnsAttempt])
  | patch _ => exact h.congr rfl rfl (by simp)

theorem leaseInv_fresh (hw : FreshRow G r r' t es) : LeaseInv r'.mission t es := by
  cases hw with
  | @mk input s a i m n _ _ _ =>
    refine leaseInv_idle ?_ ?_
    · cases a <;> rfl
    · have hadded : ∀ e ∈ List.replicate m (Effect.added s.key) ++
          List.replicate n (.declared s.key), e.turnsAttempt = false := by
        simp +contextual [Effect.turnsAttempt, or_imp]
      exact liveLease_quiet [] hadded

end LeaseInv

namespace Runner

theorem leaseInv_reachable {r : Runner} (h : missionSystem.Reachable r) :
    r.Sane ∧ Rowwise LeaseInv r :=
  reachable_invariant (fun _ _ hcreate => rowwise_createMission hcreate)
    (fun _ _ hs hinv hw => hinv.write hw hs (fun _ _ _ _ h hstep => h.step hstep)
      fun _ _ hfresh => leaseInv_fresh hfresh) h

/-! ## Reports -/

/-- The step a report is about. -/
def reportedKey : Action → Option String
  | .reportProgress key .. | .reportStep key .. => some key
  | _ => none

/-- The lease token a report presents. -/
def presentedLease : Action → Option Nat
  | .reportProgress _ _ leaseToken _ => leaseToken
  | .reportStep _ _ input _ => input.lease_token
  | _ => none

/-- The attempt with the lease is live, or its report is refused and changes nothing. -/
def Fenced (r : Runner) (now : Date) (a : Action) (key : String) (lease : Nat) : Prop :=
  IsLive key lease r.log ∨ ∃ e, a.run now r = ⟨r, .error e⟩

/-- The checks of a report apart from the one on the status of its step. -/
def ReportPasses (r : Runner) (t : Step) : Action → Prop
  | .reportProgress _ caller leaseToken _ =>
    requireStepActor t r.mission caller = .ok () ∧ requireFreshLease t leaseToken = .ok ()
  | .reportStep _ caller input _ =>
    requireStepActor t r.mission caller = .ok () ∧ r.mission.status.isTerminal = false ∧
      requireFreshLease t input.lease_token = .ok () ∧ requireVisit r.mission t input.visit = .ok ()
  | _ => False

/-- The report finds its step waiting, for its turn or for the user, and nothing else keeps the
    report out. -/
def SlipsIn (r : Runner) (key : String) (a : Action) : Prop :=
  ∃ t, r.stepOf key = some t ∧ (t.isWaiting = true ∨ t.status = .awaiting_user) ∧
    ReportPasses r t a

section Report

variable {r : Runner} {now : Date} {a : Action} {key : String} {t : Step}

theorem settled_refused_iff {x : Except Refusal Runner} :
    (∃ e, r.settled x = ⟨r, .error e⟩) ↔ ∀ r', x ≠ .ok r' := by
  cases x with
  | error e => exact ⟨fun _ r' h => (by cases h), fun _ => ⟨e, rfl⟩⟩
  | ok r' => exact ⟨fun ⟨e, h⟩ => (by cases h), fun h => absurd rfl (h r')⟩

/-- A report is accepted where its step is open and the other checks pass. -/
theorem report_refused_iff (ha : reportedKey a = some key) :
    (∃ e, a.run now r = ⟨r, .error e⟩) ↔
      ¬ ∃ t, r.stepOf key = some t ∧ t.status.isTerminal = false ∧ ReportPasses r t a := by
  cases a with
  | reportProgress k caller leaseToken checkpoint =>
    cases ha
    change (∃ e, r.settled _ = _) ↔ _
    rw [settled_refused_iff, ← not_exists, not_iff_not]
    simp only [reportProgress, bind_eq_ok, orThrow_eq_ok, require_eq_ok, Bool.not_eq_true',
      pure_eq_ok, ReportPasses]
    constructor
    · rintro ⟨_, t, hstep, _, hactor, _, hlive, _, hlease, _⟩
      exact ⟨t, hstep, hlive, hactor, hlease⟩
    · rintro ⟨t, hstep, hlive, hactor, hlease⟩
      exact ⟨_, t, hstep, (), hactor, (), hlive, (), hlease, rfl⟩
  | reportStep k caller input fates =>
    cases ha
    change (∃ e, r.settled _ = _) ↔ _
    rw [settled_refused_iff, ← not_exists, not_iff_not]
    simp only [reportStep, reportChecks, bind_eq_ok, orThrow_eq_ok, require_eq_ok,
      Bool.not_eq_true', pure_eq_ok, ReportPasses]
    constructor
    · rintro ⟨_, t, ⟨_, hstep, _, hactor, _, hopen, _, hlive, _, hlease, _, hvisit, rfl⟩, _⟩
      exact ⟨_, hstep, hlive, hactor, hopen, hlease, hvisit⟩
    · rintro ⟨t, hstep, hlive, hactor, hopen, hlease, hvisit⟩
      exact ⟨_, t, ⟨t, hstep, (), hactor, (), hopen, (), hlive, (), hlease, (), hvisit, rfl⟩, rfl⟩
  | _ => cases ha

theorem ReportPasses.lease (h : ReportPasses r t a) :
    requireFreshLease t (presentedLease a) = .ok () := by
  cases a with
  | reportProgress => exact h.2
  | reportStep => exact h.2.2.1
  | _ => exact h.elim

theorem waits_of_open (ht : t.status.isTerminal = false) (hin : t.status.isInFlight = false) :
    t.isWaiting = true ∨ t.status = .awaiting_user := by
  rw [isWaiting_iff]
  cases hs : t.status <;> rw [hs] at ht hin <;> simp [StepStatus.isTerminal,
    StepStatus.isInFlight] at ht hin ⊢

/-- In every reachable state: a report by an attempt that was dispatched with a lease, with its
    own token or with none, changes nothing unless the attempt is live, exactly when it does not
    find its step waiting with every other check passed. -/
theorem report_fenced_iff (h : missionSystem.Reachable r) {lease visit : Nat}
    (hattempt : .dispatched key lease visit ∈ r.log) (ha : reportedKey a = some key)
    (hpresented : presentedLease a = some lease ∨ presentedLease a = none) :
    Fenced r now a key lease ↔ ¬ SlipsIn r key a := by
  obtain ⟨_, hinv⟩ := leaseInv_reachable h
  unfold Fenced
  rw [isLive_iff, report_refused_iff ha]
  constructor
  · rintro (hlive | hrefused) ⟨t, hstep, hwaits, hpasses⟩
    · -- the step of a live attempt is in flight
      obtain ⟨hmem, rfl⟩ := stepOf_some hstep
      have hidle : t.status.isInFlight = false := by
        rcases hwaits with hwaits | hawait
        · exact not_inFlight_of_isWaiting hwaits
        · rw [hawait]
          rfl
      rw [(hinv.row t hmem).of_idle hidle] at hlive
      cases hlive
    · refine hrefused ⟨t, hstep, ?_, hpasses⟩
      rcases hwaits with hwaits | hawait
      · exact not_terminal_of_isWaiting hwaits
      · rw [hawait]
        rfl
  · intro hslips
    by_cases haccepted : ∃ t, r.stepOf key = some t ∧ t.status.isTerminal = false ∧
        ReportPasses r t a
    · obtain ⟨t, hstep, hopen, hpasses⟩ := haccepted
      obtain ⟨hmem, rfl⟩ := stepOf_some hstep
      cases hin : t.status.isInFlight with
      | false => exact absurd ⟨t, hstep, waits_of_open hopen hin, hpasses⟩ hslips
      | true =>
        have hheld := hinv.row t hmem
        unfold LeaseInv at hheld
        rw [if_pos hin] at hheld
        obtain ⟨held, hheld'⟩ := Option.isSome_iff_exists.mp hheld.1
        have hlease := hpasses.lease
        unfold requireFreshLease at hlease
        rw [hheld'] at hlease
        have hpresent : presentedLease a = some held := by simpa using hlease
        refine .inl ?_
        rw [hheld.2, hheld']
        rcases hpresented with hp | hp <;> rw [hp] at hpresent
        · exact hpresent.symm
        · cases hpresent
    · exact .inr haccepted

end Report

/-! ## A late report -/

/-- The submission of one step `a` for the member. -/
def oneStep : PlanInput :=
  { steps := [{ step_key := "a", title := "a", assignee := some "member" }] }

/-- The small mission where `a` was dispatched, reported as failed and retried while the mission
    is paused. -/
def retriedCalls : List (Date × Action) :=
  [(0, .startMission smallView),
    (1, .submitPlan (smallCaller smallOrchestrator) oneStep fun _ => .delivered),
    (2, .reportStep "a" (smallCaller smallMember) { status := .failed, lease_token := some 0 }
      fun _ => .delivered),
    (3, .pauseMission),
    (4, .updateStep "a" (smallCaller smallOrchestrator) { action := .retry } fun _ => .delivered)]

/-- The report of the failed attempt, once more. -/
def lateReport : Action :=
  .reportStep "a" (smallCaller smallMember) { status := .done, lease_token := some 0 }
    fun _ => .delivered

/-- It is accepted and marks the step done. -/
theorem late_report_accepted : ∃ r, missionSystem.Reachable r ∧
    .dispatched "a" 0 1 ∈ r.log ∧ ¬ IsLive "a" 0 r.log ∧ ¬ Fenced r 5 lateReport "a" 0 ∧
      ∃ t, (lateReport.run 5 r).runner.stepOf "a" = some t ∧ t.status = .done := by
  obtain ⟨r, hr, hp⟩ := exists_reachable_of_run smallMission retriedCalls
    (fun r => r.log.contains (.dispatched "a" 0 1) && liveLease (about "a" r.log) = none &&
      (lateReport.run 5 r).reply.isOk &&
      ((lateReport.run 5 r).runner.stepOf "a").any (·.status = .done)) (by decide +kernel)
  simp only [Bool.and_eq_true, List.contains_iff_mem, decide_eq_true_eq] at hp
  obtain ⟨⟨⟨hlog, hdead⟩, hok⟩, hdone⟩ := hp
  have hnot : ¬ IsLive "a" 0 r.log := by
    rw [isLive_iff, hdead]
    exact nofun
  obtain ⟨t, hstep, hdone⟩ := (Option.any_eq_true _ _).mp hdone
  refine ⟨r, hr, hlog, hnot, ?_, t, hstep, of_decide_eq_true hdone⟩
  rintro (hlive | ⟨e, hrefused⟩)
  · exact hnot hlive
  · rw [hrefused] at hok
    cases hok

/-- While the step is in flight, the report of its attempt is fenced. -/
theorem report_fenced_small : ∃ r : Runner, missionSystem.Reachable r ∧
    .dispatched "a" 0 1 ∈ r.log ∧ Fenced r 2 lateReport "a" 0 := by
  obtain ⟨r, hr, hp⟩ := exists_reachable_of_run smallMission (retriedCalls.take 2)
    (fun r => r.log.contains (.dispatched "a" 0 1) &&
      (r.stepOf "a").any (·.status = .dispatched)) (by decide +kernel)
  simp only [Bool.and_eq_true, List.contains_iff_mem] at hp
  obtain ⟨t, hstep, hstatus⟩ := (Option.any_eq_true _ _).mp hp.2
  refine ⟨r, hr, hp.1, (report_fenced_iff hr hp.1 rfl (.inl rfl)).mpr ?_⟩
  rintro ⟨u, hu, hwaits, _⟩
  cases hstep.symm.trans hu
  rw [isWaiting_iff, of_decide_eq_true hstatus] at hwaits
  simp at hwaits

end Runner

end WorkflowBoard.Orchestration
