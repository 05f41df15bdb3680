import WorkflowBoard.ForStd.History
import WorkflowBoard.Native.StallReaper
import WorkflowBoard.Spec.MissionCalls

/-!
# The give-up of a stalled mission

The sweep gives a mission up when the newest entries of its timeline hold two nudges of the
reaper and the last wake is a window old. It does not look at what the mission did since: an
entry of an earlier stall counts, and between its reads and the give-up only a step in flight
stops it. Where the entries it has counted are all later than the mission's last progress, and
since its reads no gate was opened and no progress made, the give-up is due.
-/

namespace WorkflowBoard.Orchestration

namespace StallState

/-- The history behind the last progress, newest first. -/
def sinceProgress (log : List StallEvent) : List StallEvent :=
  log.reverse.takeWhile (!·.isProgress)

def beforeProgress (log : List StallEvent) : List StallEvent :=
  log.reverse.dropWhile (!·.isProgress)

/-- The entries the sweep reads from before the last progress. -/
def staleEvents (log : List StallEvent) : List WakeEvent :=
  ((beforeProgress log).filterMap (·.wake?)).take
    (20 - ((sinceProgress log).filterMap (·.wake?)).length)

/-- No step is in flight or waits for the user, and the reaper has nudged often enough since the
    last progress, each time a window ago. -/
structure GiveUpDue (window : Int) (s : StallState) : Prop where
  idle : ∀ t ∈ s.runner.steps, t.status.isInFlight = false ∧ t.status.isAwaitingUser = false
  nudged : RUNNING_STALL_NUDGE_LIMIT ≤ ((sinceProgress s.log).filterMap (·.wake?)).countP
    fun e => isStallNudge e && e.created_at + window ≤ s.clock

/-- Since its reads no gate was opened and no progress made, and what it has counted is later
    than the last progress; or it will find a step in flight. -/
def undisturbed (s : StallState) : StallAction → Bool
  | .giveUp k _ =>
    match s.sweeps[k]? with
    | some ⟨_, .givingUp read counted⟩ =>
      s.runner.steps.any (·.status.isInFlight) ||
        ((s.log.drop read).all (· ≠ .gateOpened) && (s.log.drop counted).all (!·.isProgress) &&
          (staleEvents (s.log.take counted)).all (!isStallNudge ·))
    | _ => true
  | _ => true

/-! ## What a sweep knows -/

/-- No step waits for the user. -/
def NoneAwaits (r : Runner) : Prop := ∀ t ∈ r.steps, t.status.isAwaitingUser = false

/-- Since `read` no gate was opened, or none waits. -/
def QuietSince (s : StallState) (read : Nat) : Prop :=
  read ≤ s.log.length ∧ ((∀ e ∈ s.log.drop read, e ≠ .gateOpened) → NoneAwaits s.runner)

/-- What a sweep has read. -/
def SweepOk (window : Int) (s : StallState) (sweep : Sweep) : Prop :=
  sweep.now ≤ s.clock ∧ match sweep.phase with
    | .quiet read => s.QuietSince read
    | .givingUp read counted => s.QuietSince read ∧ counted ≤ s.log.length ∧
      RUNNING_STALL_NUDGE_LIMIT ≤ (wakeEvents (s.log.take counted)).countP isStallNudge ∧
      ∀ e ∈ wakeEvents (s.log.take counted), isStallNudge e = true →
        e.created_at + window ≤ sweep.now
    | _ => True

/-- The timeline is in the order of time. -/
structure StallInv (window : Int) (s : StallState) : Prop where
  ordered : (s.log.filterMap (·.wake?)).Pairwise fun a b => a.created_at ≤ b.created_at
  past : ∀ e ∈ s.log.filterMap (·.wake?), e.created_at ≤ s.clock
  sweeps : ∀ (k : Nat) (sweep : Sweep), s.sweeps[k]? = some sweep → s.SweepOk window sweep

section Sweeps

variable {window : Int} {s s' : StallState} {es : List StallEvent} {sweep : Sweep}

/-- What a sweep knows stays true while calls go on. -/
theorem SweepOk.mono (h : s.SweepOk window sweep) (hlog : s'.log = s.log ++ es)
    (hclock : s.clock ≤ s'.clock)
    (hgate : NoneAwaits s.runner → NoneAwaits s'.runner ∨ .gateOpened ∈ es) :
    s'.SweepOk window sweep := by
  have hquiet : ∀ read, s.QuietSince read → s'.QuietSince read := by
    rintro read ⟨hread, hnone⟩
    refine ⟨?_, fun hno => ?_⟩
    · rw [hlog, List.length_append]
      omega
    · rw [hlog, List.drop_append_of_le_length hread] at hno
      have hold := hnone fun e he => hno e (List.mem_append_left _ he)
      rcases hgate hold with hnew | hopened
      · exact hnew
      · exact absurd rfl (hno _ (List.mem_append_right _ hopened))
  refine ⟨h.1.trans hclock, ?_⟩
  have hphase := h.2
  split at hphase
  · exact hquiet _ hphase
  · rename_i read counted _
    obtain ⟨hq, hcounted, hnudges, hold⟩ := hphase
    refine ⟨hquiet read hq, ?_, ?_, ?_⟩
    · rw [hlog, List.length_append]
      omega
    · rw [hlog, List.take_append_of_le_length hcounted]
      exact hnudges
    · rw [hlog, List.take_append_of_le_length hcounted]
      exact hold
  · trivial

variable {now : Date}

/-- A sweep that gives up has read a timeline whose last wake is a window old and that holds
    enough nudges. -/
theorem nextPhase_givingUp {events : List WakeEvent} {read counted read' counted' : Nat}
    (hordered : events.Pairwise fun a b => b.created_at ≤ a.created_at)
    (h : nextPhase window now events read counted = .givingUp read' counted') :
    read' = read ∧ counted' = counted ∧
      RUNNING_STALL_NUDGE_LIMIT ≤ events.countP isStallNudge ∧
      ∀ e ∈ events, isStallNudge e = true → e.created_at + window ≤ now := by
  have hattempt : ∀ e, isStallNudge e = true → isStallAttempt e = true := by
    intro e he
    exact (Bool.and_eq_true_iff.mp he).1
  unfold nextPhase at h
  dsimp only at h
  split at h
  · cases h
  · rename_i hlast
    split at h
    · rename_i hcount
      injection h with hread hcounted
      refine ⟨hread.symm, hcounted.symm, ?_, fun e he hnudge => ?_⟩
      · refine Nat.le_trans hcount ?_
        exact List.Sublist.countP_le List.filter_sublist
      · -- the newest attempt is no older
        have hmem : e ∈ events.filter isStallAttempt := List.mem_filter.mpr ⟨he, hattempt e hnudge⟩
        have hsorted := hordered.sublist (List.filter_sublist (p := isStallAttempt))
        cases hevents : events.filter isStallAttempt with
        | nil =>
          rw [hevents] at hmem
          cases hmem
        | cons newest rest =>
          rw [hevents] at hmem hsorted hlast
          have hwindow : window ≤ now - newest.created_at := by
            simpa only [List.head?_cons, Option.any_some, decide_eq_true_eq, not_lt] using hlast
          have hle : e.created_at ≤ newest.created_at := by
            rcases List.mem_cons.mp hmem with rfl | hmem
            · exact Int.le_refl _
            · exact (List.pairwise_cons.mp hsorted).1 e hmem
          exact (Int.add_le_add_right hle window).trans (Int.add_le_of_le_sub_left hwindow)
    · cases h

section

variable (h : StallInv window s)
include h

/-- The entries a sweep reads are in the order of time. -/
theorem StallInv.wakeEvents_ordered :
    (wakeEvents s.log).Pairwise fun a b => b.created_at ≤ a.created_at := by
  unfold wakeEvents
  rw [List.filterMap_reverse]
  exact (List.pairwise_reverse.mpr h.ordered).sublist (List.take_sublist _ _)

/-! ## One step -/

theorem StallInv.grow (hsweeps : s'.sweeps = s.sweeps)
    (hlog : s'.log = s.log ++ es) (hnone : es.filterMap (·.wake?) = [])
    (hclock : s.clock ≤ s'.clock)
    (hgate : NoneAwaits s.runner → NoneAwaits s'.runner ∨ .gateOpened ∈ es) :
    StallInv window s' := by
  refine ⟨?_, ?_, fun k sweep hk => ?_⟩
  · rw [hlog, List.filterMap_append, hnone, List.append_nil]
    exact h.ordered
  · rw [hlog, List.filterMap_append, hnone, List.append_nil]
    exact fun e he => (h.past e he).trans hclock
  · rw [hsweeps] at hk
    exact (h.sweeps k sweep hk).mono hlog hclock hgate

theorem StallInv.record (type : WakeType) (reason : WakeReason) :
    StallInv window (s.record type reason) := by
  refine ⟨?_, ?_, fun k sweep hk => ?_⟩
  · simp only [StallState.record, List.filterMap_append, List.pairwise_append]
    refine ⟨h.ordered, List.pairwise_singleton _ _, fun a ha b hb => ?_⟩
    obtain rfl := List.mem_singleton.mp hb
    exact h.past a ha
  · intro e he
    simp only [StallState.record, List.filterMap_append, List.mem_append] at he
    rcases he with he | he
    · exact h.past e he
    · obtain rfl := List.mem_singleton.mp he
      exact Int.le_refl _
  · exact (h.sweeps k sweep hk).mono rfl (Int.le_refl _) .inl

theorem StallInv.goTo {k : Nat} {phase : SweepPhase}
    (hphase : s.SweepOk window { sweep with phase }) :
    StallInv window (s.goTo k sweep phase) := by
  refine ⟨h.ordered, h.past, fun j other hj => ?_⟩
  simp only [StallState.goTo, List.getElem?_set] at hj
  split at hj
  · split at hj
    · cases hj
      exact hphase
    · cases hj
  · exact h.sweeps j other hj

theorem StallInv.finish {k : Nat} (hk : s.sweeps[k]? = some sweep)
    {phase : SweepPhase} (hidle : phase = .nudging ∨ phase = .nudgeFailed ∨ phase = .finished) :
    StallInv window (s.goTo k sweep phase) := by
  refine h.goTo ⟨(h.sweeps k sweep hk).1, ?_⟩
  rcases hidle with rfl | rfl | rfl <;> trivial

end

/-- Where no gate was opened, none waits that did not. -/
theorem noneAwaits_of_not_opensGate {r r' : Runner} (h : opensGate r r' = false)
    (hnone : NoneAwaits r) : NoneAwaits r' := by
  intro t ht
  cases hawaits : t.status.isAwaitingUser with
  | false => rfl
  | true =>
    unfold opensGate at h
    have hall := List.any_eq_false.mp h t ht
    rw [hawaits, Bool.true_and, List.all_eq_true] at hall
    exact absurd (fun s hs => by rw [hnone s hs]; simp) hall

theorem failMissionExternally_awaits {r : Runner} {reason : String}
    (hnone : NoneAwaits r) : NoneAwaits (r.failMissionExternally true reason now).runner := by
  unfold Runner.failMissionExternally
  rw [if_pos rfl]
  dsimp only
  split
  · exact hnone
  · intro t ht
    obtain ⟨u, hu, ⟨_, rfl⟩ | ⟨_, rfl⟩⟩ := Runner.mem_saveSteps (r := r) ht
    · rfl
    · exact hnone t hu

theorem StallInv.call (h : StallInv window s) (a : Action) : StallInv window (s.call a) := by
  unfold StallState.call
  dsimp only
  refine h.grow rfl (List.append_assoc ..) ?_ (Int.le_refl _) fun hnone => ?_
  · rw [List.filterMap_append]
    split <;> split <;> rfl
  · cases hopens : opensGate s.runner (a.run s.clock s.runner).runner with
    | false => exact .inl (noneAwaits_of_not_opensGate hopens hnone)
    | true => exact .inr (by simp)

theorem StallInv.sweepRead (h : StallInv window s) {k : Nat} (hk : s.sweeps[k]? = some sweep)
    (hread : s.sweepRead window k sweep = some s') : StallInv window s' := by
  have hnow := (h.sweeps k sweep hk).1
  unfold StallState.sweepRead at hread
  split at hread
  · cases hread
    refine h.goTo ⟨hnow, ?_⟩
    dsimp only
    split
    · rename_i hphase
      split at hphase
      · cases hphase
      · rename_i hquiet
        injection hphase with hread
        subst hread
        refine ⟨Nat.le_refl _, fun _ t ht => ?_⟩
        cases hawaits : t.status.isAwaitingUser with
        | false => rfl
        | true => exact absurd (.inr (.inl (List.any_eq_true.mpr ⟨t, ht, hawaits⟩))) hquiet
    · rename_i hphase
      split at hphase <;> cases hphase
    · trivial
  · rename_i read hphase
    cases hread
    refine h.goTo ⟨hnow, ?_⟩
    have hquiet := (h.sweeps k sweep hk).2
    rw [hphase] at hquiet
    dsimp only
    split
    · rename_i hnext
      unfold nextPhase at hnext
      dsimp only at hnext
      split at hnext
      · cases hnext
      · split at hnext <;> cases hnext
    · rename_i hnext
      obtain ⟨rfl, rfl, hnudges, hold⟩ := nextPhase_givingUp h.wakeEvents_ordered hnext
      rw [List.take_length]
      exact ⟨hquiet, Nat.le_refl _, hnudges, hold⟩
    · trivial
  · cases hread

theorem StallInv.step {a : StallAction} (h : StallInv window s) (hs : a.run window s = some s') :
    StallInv window s' := by
  unfold StallAction.run at hs
  split at hs
  · cases hs
  · cases a with
    | wait ms =>
      cases hs
      exact h.grow rfl (List.append_nil _).symm rfl
        (Int.le_add_of_nonneg_right (Int.natCast_nonneg ms)) .inl
    | call a =>
      cases hs
      exact h.call a
    | wake type =>
      cases hs
      exact h.record type .other
    | sweep =>
      dsimp only at hs
      split at hs
      · cases hs
      · cases hs
        refine ⟨h.ordered, h.past, fun k sweep hk => ?_⟩
        rcases getElem?_append_cases hk with hk | ⟨_, rfl⟩
        · exact h.sweeps k sweep hk
        · exact ⟨Int.le_refl _, trivial⟩
    | read k =>
      obtain ⟨sweep, hk, hread⟩ := Option.bind_eq_some_iff.mp hs
      exact h.sweepRead hk hread
    | nudge k delivered =>
      obtain ⟨sweep, hk, hnudge⟩ := Option.bind_eq_some_iff.mp hs
      unfold nudgeOrchestrator at hnudge
      split at hnudge
      · dsimp only at hnudge
        split at hnudge
        · cases hnudge
          exact h.finish hk (.inr (.inl rfl))
        · cases hnudge
          exact (h.finish hk (.inr (.inr rfl))).record _ _
      · cases hnudge
    | noteFailure k =>
      obtain ⟨sweep, hk, hnote⟩ := Option.bind_eq_some_iff.mp hs
      unfold StallState.noteFailure at hnote
      split at hnote
      · cases hnote
        exact (h.finish hk (.inr (.inr rfl))).record _ _
      · cases hnote
    | giveUp k reason =>
      obtain ⟨sweep, hk, hgive⟩ := Option.bind_eq_some_iff.mp hs
      unfold StallState.giveUp at hgive
      split at hgive
      · cases hgive
        exact (h.finish hk (.inr (.inr rfl))).grow rfl (List.append_nil _).symm rfl
          (Int.le_refl _) fun hnone => .inl (failMissionExternally_awaits hnone)
      · cases hgive

/-! ## The give-up -/

/-- Behind the last progress nothing is lost while none is made. -/
theorem sinceProgress_append {log es : List StallEvent} (hes : ∀ e ∈ es, e.isProgress = false) :
    sinceProgress (log ++ es) = es.reverse ++ sinceProgress log := by
  unfold sinceProgress
  rw [List.reverse_append, List.takeWhile_append_of_pos]
  intro e he
  rw [hes e (List.mem_reverse.mp he)]
  rfl

theorem wakeEvents_eq (log : List StallEvent) :
    wakeEvents log = ((sinceProgress log).filterMap (·.wake?)).take 20 ++ staleEvents log := by
  unfold wakeEvents staleEvents
  conv_lhs => rw [← List.takeWhile_append_dropWhile (p := (!·.isProgress)) (l := log.reverse)]
  rw [List.filterMap_append, List.take_append]
  rfl

/-- Old nudges of which none is stale were made since the last progress. -/
theorem nudged_since {log : List StallEvent} {n : Nat}
    (hnudges : n ≤ (wakeEvents log).countP isStallNudge)
    (hstale : ∀ e ∈ staleEvents log, isStallNudge e = false)
    (hold : ∀ e ∈ wakeEvents log, isStallNudge e = true → e.created_at + window ≤ now) :
    n ≤ ((sinceProgress log).filterMap (·.wake?)).countP
      fun e => isStallNudge e && e.created_at + window ≤ now := by
  have hfresh : (staleEvents log).countP isStallNudge = 0 :=
    List.countP_eq_zero.mpr fun e he => by simp [hstale e he]
  rw [wakeEvents_eq, List.countP_append, hfresh, Nat.add_zero] at hnudges
  calc n ≤ (((sinceProgress log).filterMap (·.wake?)).take 20).countP isStallNudge := hnudges
    _ ≤ (((sinceProgress log).filterMap (·.wake?)).take 20).countP
        fun e => isStallNudge e && e.created_at + window ≤ now := by
      refine List.countP_mono_left fun e he hnudge => ?_
      have hmem : e ∈ wakeEvents log := by
        rw [wakeEvents_eq]
        exact List.mem_append_left _ he
      simp [hnudge, hold e hmem hnudge]
    _ ≤ _ := (List.take_sublist _ _).countP_le

/-- The runner's give-up is refused by a step in flight. -/
theorem failMissionExternally_failed {r : Runner} {reason : String}
    (hrun : r.mission.status = .running)
    (hfailed : (r.failMissionExternally true reason now).runner.mission.status = .failed) :
    ∀ t ∈ r.steps, t.status.isInFlight = false := by
  unfold Runner.failMissionExternally at hfailed
  rw [if_pos rfl] at hfailed
  dsimp only at hfailed
  split at hfailed
  · dsimp only at hfailed
    rw [hrun] at hfailed
    cases hfailed
  · rename_i hnone
    intro t ht
    cases hin : t.status.isInFlight with
    | false => rfl
    | true => exact absurd (.inr ⟨rfl, List.any_eq_true.mpr ⟨t, ht, hin⟩⟩) hnone

theorem stallInv_reachable (h : (stallSystem window).Reachable s) : StallInv window s := by
  refine h.invariant (fun s h0 => ?_) fun s a s' _ hi hs => hi.step hs
  obtain ⟨_, _, hlog, hsweeps⟩ := h0
  refine ⟨?_, ?_, ?_⟩
  · rw [hlog]
    exact List.Pairwise.nil
  · rw [hlog]
    exact nofun
  · rw [hsweeps]
    exact nofun

/-- A running mission is given up only when it is due: in every run in which no give-up is
    disturbed. -/
theorem give_up_due {k : Nat} {reason : String}
    (hreach : ((stallSystem window).restrict fun s a _ => s.undisturbed a = true).Reachable s)
    (hs : ((stallSystem window).restrict fun s a _ => s.undisturbed a = true).step s
      (.giveUp k reason) s')
    (hrun : s.runner.mission.status = .running)
    (hfailed : s'.runner.mission.status = .failed) : s.GiveUpDue window := by
  obtain ⟨hstep, hclear⟩ := hs
  have hinv := stallInv_reachable hreach.of_restrict
  change StallAction.run window s (.giveUp k reason) = some s' at hstep
  unfold StallAction.run at hstep
  split at hstep
  · cases hstep
  obtain ⟨⟨now, phase⟩, hk, hgive⟩ := Option.bind_eq_some_iff.mp hstep
  unfold giveUp at hgive
  split at hgive
  · rename_i read counted hphase
    dsimp only at hphase
    subst hphase
    cases hgive
    obtain ⟨hnow, ⟨hread, hnone⟩, hcounted, hnudges, hold⟩ := hinv.sweeps k _ hk
    have hidle := failMissionExternally_failed hrun hfailed
    have hflight : s.runner.steps.any (·.status.isInFlight) = false :=
      List.any_eq_false.mpr fun t ht => by rw [hidle t ht]; simp
    unfold undisturbed at hclear
    dsimp only at hclear
    rw [hk] at hclear
    dsimp only at hclear
    rw [hflight, Bool.false_or, Bool.and_eq_true, Bool.and_eq_true, List.all_eq_true,
      List.all_eq_true, List.all_eq_true] at hclear
    obtain ⟨⟨hgates, hprogress⟩, hstale⟩ := hclear
    refine ⟨fun t ht => ⟨hidle t ht, hnone (fun e he => ?_) t ht⟩, ?_⟩
    · simpa using hgates e he
    · have hsplit : s.log = s.log.take counted ++ s.log.drop counted :=
        (List.take_append_drop _ _).symm
      rw [hsplit, sinceProgress_append fun e he => by simpa using hprogress e he,
        List.filterMap_append, List.countP_append]
      have hsince := nudged_since hnudges (fun e he => by simpa using hstale e he)
        fun e he hnudge => (hold e he hnudge).trans hnow
      exact Nat.le_add_left_of_le hsince
  · cases hgive

end Sweeps

/-! ## Runs on the small mission -/

theorem exists_checked_stall (window : Int) (C : StallState → StallAction → Bool)
    (input : MissionInput) (actions : List StallAction) (p : StallState → Bool)
    (h : ((createMission input).any fun r =>
      (Transition.runChecked (StallAction.run window) C ⟨r, 0, [], []⟩ actions).any p) = true) :
    ∃ s, ((stallSystem window).restrict fun s a _ => C s a = true).Reachable s ∧ p s = true := by
  obtain ⟨r, hcreate, hrun⟩ := (Option.any_eq_true _ _).mp h
  exact Transition.exists_reachable_checked (M := stallSystem window) (fun _ _ _ hs => hs)
    ⟨input, hcreate, rfl, rfl⟩ actions p hrun

/-- The mission runs, and its only step waits for an assignee. -/
def unassigned : List StallAction :=
  [.wait 1, .call (.startMission smallView),
    .call (.submitPlan (smallCaller smallOrchestrator)
      { steps := [{ step_key := "a", title := "a" }] } fun _ => .delivered)]

/-- Sweep `k` nudges after another window. -/
def nudged (k : Nat) : List StallAction :=
  [.wait 100, .sweep, .read k, .read k, .nudge k true]

/-- The orchestrator does not answer two nudges: the mission is given up when it is due. -/
theorem give_up_due_small : ∃ s : StallState, s.runner.mission.status = .running ∧
    s.GiveUpDue 100 := by
  obtain ⟨s, hreach, hp⟩ := exists_checked_stall 100 undisturbed smallMission
    (unassigned ++ nudged 0 ++ nudged 1 ++ [.wait 100, .sweep, .read 2, .read 2])
    (fun s => s.runner.mission.status = .running && s.undisturbed (.giveUp 2 "silent") &&
      (StallAction.run 100 s (.giveUp 2 "silent")).any
        (·.runner.mission.status = .failed)) (by decide +kernel)
  rw [Bool.and_eq_true, Bool.and_eq_true, decide_eq_true_eq, Option.any_eq_true] at hp
  obtain ⟨⟨hrun, hclear⟩, s', hstep, hfailed⟩ := hp
  exact ⟨s, hrun, give_up_due hreach ⟨hstep, hclear⟩ hrun (of_decide_eq_true hfailed)⟩

/-- The orchestrator answers the second nudge with a plan, and is woken for another reason. The
    next time it is late, the sweep does not nudge: it counts the nudges of the first stall. -/
theorem gives_up_early : ¬∀ window s k reason s', (stallSystem window).Reachable s →
    (stallSystem window).step s (.giveUp k reason) s' → s.runner.mission.status = .running →
      s'.runner.mission.status = .failed → s.GiveUpDue window := by
  intro hall
  obtain ⟨s, hreach, hp⟩ := exists_checked_stall 100 (fun _ _ => true) smallMission
    (unassigned ++ nudged 0 ++ nudged 1 ++
      [.call (.submitPlan (smallCaller smallOrchestrator)
        { steps := [{ step_key := "b", title := "b" }] } fun _ => .delivered),
        .wake .orchestrator_woken, .wait 100, .sweep, .read 2, .read 2])
    (fun s => s.runner.mission.status = .running &&
      ((sinceProgress s.log).filterMap (·.wake?)).countP isStallNudge = 0 &&
      (StallAction.run 100 s (.giveUp 2 "silent")).any
        (·.runner.mission.status = .failed)) (by decide +kernel)
  rw [Bool.and_eq_true, Bool.and_eq_true, decide_eq_true_eq, decide_eq_true_eq,
    Option.any_eq_true] at hp
  obtain ⟨⟨hrun, hnone⟩, s', hstep, hfailed⟩ := hp
  have hdue := hall 100 s 2 "silent" s' hreach.of_restrict hstep hrun (of_decide_eq_true hfailed)
  have hnudged : RUNNING_STALL_NUDGE_LIMIT ≤
      ((sinceProgress s.log).filterMap (·.wake?)).countP isStallNudge := by
    refine hdue.nudged.trans (List.countP_mono_left fun e _ he => ?_)
    exact (Bool.and_eq_true_iff.mp he).1
  rw [hnone] at hnudged
  cases hnudged

end StallState

end WorkflowBoard.Orchestration
