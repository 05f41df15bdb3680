import WorkflowBoard.Native.MissionEdits
import WorkflowBoard.Spec.MissionCalls

/-!
# Committed changes of a mission

An edit and an operation of the runner save the entities they loaded. A column that somebody
else has changed meanwhile goes back to what the entity was loaded with. As long as each save
finds the columns that its call has not assigned as the call holds them, every write changes
only what its call means to change.
-/

namespace WorkflowBoard.Orchestration

namespace EditState

/-- Each write leaves the columns alone that its call has not assigned. -/
def NoneLost (s : EditState) : Prop :=
  ∀ w ∈ s.log, ∀ c : Column, c ∉ w.assigned → c.get w.after = c.get w.before

/-- A save that reads the row finds the columns its call has not assigned as the call holds
    them. -/
def current (s : EditState) : EditAction → Bool
  | .reread k => s.calls[k]?.all fun x =>
    Column.all.all fun c => c ∈ x.assigned || c.get x.entity = c.get s.row
  | _ => true

/-- No other call has changed the column since the history had length `n`. -/
def Untouched (s : EditState) (k n : Nat) (c : Column) : Prop :=
  ∀ w ∈ s.log.drop n, w.caller ≠ k → c.get w.after = c.get w.before

end EditState

/-! ## Columns -/

theorem Column.mem_all (c : Column) : c ∈ Column.all := by
  cases c <;> decide

/-- A save is a save of each column. -/
theorem Column.get_save (c : Column) (entity reread row : MissionRow) :
    c.get (entity.save reread row) = saveColumn (c.get entity) (c.get reread) (c.get row) := by
  cases c with
  | status => exact saveColumn_apply (fun _ _ => ColumnValue.status.inj) ..
  | graph_spec => exact saveColumn_apply (fun _ _ => ColumnValue.graph.inj) ..
  | post_actions => exact saveColumn_apply (fun _ _ => ColumnValue.actions.inj) ..
  | user_chat_mode => exact saveColumn_apply (fun _ _ => ColumnValue.mode.inj) ..
  | _ => exact saveColumn_apply (fun _ _ => ColumnValue.number.inj) ..

theorem get_of_not_changed {a b : MissionRow} {c : Column} (h : c ∉ a.changed b) :
    c.get a = c.get b := by
  by_contra hne
  exact h (List.mem_filter.mpr ⟨c.mem_all, decide_eq_true hne⟩)

/-! ## The columns of the runner -/

section Runner

variable {r r' : Runner}

/-- The runner leaves the limits of a mission alone. -/
structure LimitsKept (m m' : Mission) : Prop where
  parallel : m'.max_parallel_steps = m.max_parallel_steps
  steps : m'.max_steps = m.max_steps
  versions : m'.max_plan_versions = m.max_plan_versions

theorem LimitsKept.refl (m : Mission) : LimitsKept m m := ⟨rfl, rfl, rfl⟩

theorem LimitsKept.trans {m₁ m₂ m₃ : Mission} (h : LimitsKept m₁ m₂) (h' : LimitsKept m₂ m₃) :
    LimitsKept m₁ m₃ :=
  ⟨h'.parallel.trans h.parallel, h'.steps.trans h.steps, h'.versions.trans h.versions⟩

/-- The calls but an edit. -/
def noEdit : Guards := { settings := fun _ _ => False }

theorem meets_noEdit {now : Date} {a : Action} (h : ∀ p, a ≠ .updateMission p) :
    Runner.Meets noEdit now r a := by
  have hdefault : Runner.Meets {} now r a := Runner.meets_default a
  cases a with
  | updateMission p => exact absurd rfl (h p)
  | _ => exact hdefault

theorem LimitsKept.life (h : LifeWrite noEdit r r') : LimitsKept r.mission r'.mission := by
  cases h.lifeCase with
  | settings _ _ hno => exact absurd hno id
  | completed =>
    rw [Runner.runPostActions_mission]
    exact ⟨rfl, rfl, rfl⟩
  | postStep now fate =>
    obtain ⟨_, _, heq⟩ := Runner.postStep_mission (r := r) now fate
    rw [heq]
    exact ⟨rfl, rfl, rfl⟩
  | recover =>
    rw [Runner.runPostActions_mission]
    exact .refl _
  | _ => exact ⟨rfl, rfl, rfl⟩

theorem LimitsKept.write (h : Write noEdit r r') : LimitsKept r.mission r'.mission := by
  rcases h.kept_or_life with hkept | hlife
  · obtain ⟨_, _, _, _, _, _, heq, _⟩ := hkept.mission
    rw [heq]
    exact ⟨rfl, rfl, rfl⟩
  · exact .life hlife

/-- The operations of the runner assign only `runnerColumns`. -/
theorem run_columns {now : Date} {a : Action} (hs : r.Sane) (hfree : a.locks = true → r.post = none)
    (ha : ∀ p, a ≠ .updateMission p) (entity : MissionRow) (hentity : entity.mission = r.mission) :
    entity.changed { entity with mission := (a.run now r).runner.mission } ⊆
      Column.runnerColumns := by
  have hwrites : Writes noEdit r (a.run now r).runner :=
    Runner.run_writes hs hfree (meets_noEdit ha)
  obtain ⟨hparallel, hsteps, hversions⟩ :=
    (hwrites.invariant (P := fun r' => LimitsKept r.mission r'.mission)
      (fun _ _ _ hl hw => hl.trans (.write hw)) hs (.refl _)).2
  intro c hc
  have hne := of_decide_eq_true (List.mem_filter.mp hc).2
  cases c with
  | user_chat_mode => exact absurd rfl hne
  | step_timeout_minutes => exact absurd rfl hne
  | max_parallel_steps => exact absurd (congrArg _ (hentity ▸ hparallel.symm)) hne
  | max_steps => exact absurd (congrArg _ (hentity ▸ hsteps.symm)) hne
  | max_plan_versions => exact absurd (congrArg _ (hentity ▸ hversions.symm)) hne
  | _ => decide

theorem run_columns_start : ∃ r, missionSystem.Reachable r ∧
    MissionRow.changed { mission := r.mission }
      { mission := ((Action.startMission smallView).run 0 r).runner.mission } ⊆
        Column.runnerColumns := by
  obtain ⟨r, hr, hp⟩ := Runner.exists_reachable_of_run smallMission [] (·.post.isNone)
    (by decide +kernel)
  exact ⟨r, hr, run_columns (Runner.reachable_sane hr) (fun _ => Option.isNone_iff_eq_none.mp hp)
    (fun _ => by simp) { mission := r.mission } rfl⟩

end Runner

/-! ## What a call holds -/

namespace EditState

/-- A call holds what it last read, but for what it has assigned and what others have written. -/
structure CallOk (s : EditState) (k : Nat) (x : EntityCall) : Prop where
  since : x.since ≤ s.log.length
  held : ∀ c, c ∉ x.assigned → s.Untouched k x.since c → c.get x.entity = c.get s.row
  reread : ∀ r n, x.reread = some (r, n) →
    n ≤ s.log.length ∧ ∀ c, s.Untouched k n c → c.get r = c.get s.row

/-- A save that has read the row holds what it read, but for what the call has assigned. -/
def SaveOk (x : EntityCall) : Prop :=
  ∀ r n, x.reread = some (r, n) → ∀ c, c ∉ x.assigned → c.get x.entity = c.get r

section Steps

variable {s s' : EditState} {k : Nat} {x x' : EntityCall}

variable {y : EntityCall}

theorem getElem?_setCall {j : Nat} (h : (s.calls.set k x)[j]? = some y) :
    j = k ∧ y = x ∨ j ≠ k ∧ s.calls[j]? = some y := by
  rw [List.getElem?_set] at h
  split at h
  · rename_i hjk
    split at h
    · exact .inl ⟨hjk.symm, (Option.some.inj h).symm⟩
    · cases h
  · rename_i hjk
    exact .inr ⟨fun heq => hjk heq.symm, h⟩

theorem CallOk.quiet {j : Nat} (h : s.CallOk j y) (hrow : s'.row = s.row)
    (hlog : s'.log = s.log) : s'.CallOk j y := by
  refine ⟨by rw [hlog]; exact h.since, ?_, ?_⟩
  · unfold Untouched
    rw [hlog, hrow]
    exact h.held
  · unfold Untouched
    rw [hlog, hrow]
    exact h.reread

theorem CallOk.assign (h : s.CallOk k x) (entity : MissionRow) (kind : CallKind) :
    s.CallOk k { x with kind, entity, assigned := x.assigned ++ x.entity.changed entity } := by
  refine ⟨h.since, fun c hc hfree => ?_, h.reread⟩
  rw [List.mem_append, not_or] at hc
  rw [← get_of_not_changed hc.2]
  exact h.held c hc.1 hfree

theorem CallOk.other {j : Nat} {w : EntityWrite} (h : s.CallOk j y)
    (hcaller : w.caller ≠ j) (hbefore : w.before = s.row) (calls : List EntityCall) :
    CallOk ⟨w.after, calls, s.log ++ [w]⟩ j y := by
  have huntouched : ∀ n c, n ≤ s.log.length →
      Untouched ⟨w.after, calls, s.log ++ [w]⟩ j n c →
      s.Untouched j n c ∧ c.get w.after = c.get s.row := by
    intro n c hn hfree
    unfold Untouched at hfree
    dsimp only at hfree
    rw [List.drop_append_of_le_length hn] at hfree
    refine ⟨fun w' hw' => hfree w' (List.mem_append_left _ hw'), ?_⟩
    rw [← hbefore]
    exact hfree w (List.mem_append_right _ (List.mem_singleton.mpr rfl)) hcaller
  have hlen : ∀ n, n ≤ s.log.length → n ≤ (s.log ++ [w]).length := fun n hn => by
    rw [List.length_append]
    omega
  refine ⟨hlen _ h.since, fun c hc hfree => ?_, fun r n hr => ?_⟩
  · obtain ⟨hold, hkept⟩ := huntouched _ c h.since hfree
    exact (h.held c hc hold).trans hkept.symm
  · obtain ⟨hn, hget⟩ := h.reread r n hr
    refine ⟨hlen n hn, fun c hfree => ?_⟩
    obtain ⟨hold, hkept⟩ := huntouched n c hn hfree
    exact (hget c hold).trans hkept.symm

theorem CallOk.own {r : MissionRow} {n : Nat} (h : s.CallOk k x) (hr : x.reread = some (r, n))
    (kind : CallKind) (calls : List EntityCall) :
    CallOk ⟨x.entity.save r s.row, calls,
      s.log ++ [⟨k, s.row, x.entity.save r s.row, x.assigned⟩]⟩ k
      { x with kind, assigned := [], since := n, reread := none } := by
  obtain ⟨hn, hget⟩ := h.reread r n hr
  refine ⟨?_, fun c _ hfree => ?_, fun _ _ hnone => by cases hnone⟩
  · change n ≤ (s.log ++ _).length
    rw [List.length_append]
    omega
  · unfold Untouched at hfree
    dsimp only at hfree
    rw [List.drop_append_of_le_length hn] at hfree
    have hsame := hget c fun w hw => hfree w (List.mem_append_left _ hw)
    change c.get x.entity = c.get (x.entity.save r s.row)
    rw [c.get_save, hsame]
    by_cases heq : c.get x.entity = c.get s.row
    · rw [saveColumn_of_eq heq, heq]
    · rw [saveColumn_of_ne heq]

/-- What a statement does: it loads the mission, changes an entity, drops a save, reads the row
    for one, or writes. -/
theorem run_cases {a : EditAction} (hs : a.run s = some s') :
    (∃ kind, s.load kind = some s') ∨ ∃ k x, s.calls[k]? = some x ∧
      ((∃ entity kind, x.reread = none ∧ s' = s.assign k x entity kind) ∨
        (∃ kind, s' = s.setCall k { x with kind, reread := none }) ∨
        (a = .reread k ∧ s' = s.setCall k { x with reread := some (s.row, s.log.length) }) ∨
        s.write k x = some s') := by
  cases a with
  | updateMission input => exact .inl ⟨_, hs⟩
  | lock => exact .inl ⟨_, hs⟩
  | edit k =>
    obtain ⟨x, hk, hs⟩ := Option.bind_eq_some_iff.mp hs
    refine .inr ⟨k, x, hk, ?_⟩
    unfold EditState.edit at hs
    split at hs
    · rename_i hreread
      split at hs
      · obtain rfl := Option.some.inj hs
        exact .inr (.inl ⟨.ended, by rw [← hreread]⟩)
      · obtain rfl := Option.some.inj hs
        exact .inl ⟨_, _, hreread, rfl⟩
    · cases hs
  | change m k =>
    obtain ⟨x, hk, hs⟩ := Option.bind_eq_some_iff.mp hs
    refine .inr ⟨k, x, hk, ?_⟩
    unfold EditState.change at hs
    dsimp only at hs
    split at hs
    · rename_i hmay
      obtain rfl := Option.some.inj hs
      exact .inl ⟨_, _, hmay.2.1, rfl⟩
    · cases hs
  | reread k =>
    obtain ⟨x, hk, hs⟩ := Option.bind_eq_some_iff.mp hs
    refine .inr ⟨k, x, hk, ?_⟩
    unfold EditState.reread at hs
    split at hs
    · obtain rfl := Option.some.inj hs
      exact .inr (.inr (.inl ⟨rfl, rfl⟩))
    · cases hs
  | write k =>
    obtain ⟨x, hk, hs⟩ := Option.bind_eq_some_iff.mp hs
    exact .inr ⟨k, x, hk, .inr (.inr (.inr hs))⟩
  | finish k =>
    obtain ⟨x, hk, hs⟩ := Option.bind_eq_some_iff.mp hs
    exact .inr ⟨k, x, hk, .inr (.inl ⟨.ended, (Option.some.inj hs).symm⟩)⟩

theorem load_eq {kind : CallKind} (hs : s.load kind = some s') :
    s' = { s with calls := s.calls ++ [{ kind, entity := s.row, since := s.log.length }] } := by
  unfold load at hs
  split at hs
  · cases hs
  · exact (Option.some.inj hs).symm

/-- Each call holds what it last read, in every run. -/
theorem callOk_step {a : EditAction} (h : ∀ k x, s.calls[k]? = some x → s.CallOk k x)
    (hs : a.run s = some s') (k : Nat) (x : EntityCall) (hk : s'.calls[k]? = some x) :
    s'.CallOk k x := by
  rcases run_cases hs with ⟨kind, hload⟩ | ⟨j, y, hj, ⟨entity, kind, _, rfl⟩ | ⟨kind, rfl⟩ |
    ⟨_, rfl⟩ | hwrite⟩
  · obtain rfl := load_eq hload
    rcases getElem?_append_cases hk with hk | ⟨_, rfl⟩
    · exact (h k x hk).quiet rfl rfl
    · exact ⟨Nat.le_refl _, fun _ _ _ => rfl, fun _ _ hnone => by cases hnone⟩
  · rcases getElem?_setCall hk with ⟨rfl, rfl⟩ | ⟨_, hk⟩
    · exact ((h k y hj).assign entity kind).quiet rfl rfl
    · exact (h k x hk).quiet rfl rfl
  · rcases getElem?_setCall hk with ⟨rfl, rfl⟩ | ⟨_, hk⟩
    · exact ⟨(h k y hj).since, (h k y hj).held, fun _ _ hnone => by cases hnone⟩
    · exact (h k x hk).quiet rfl rfl
  · rcases getElem?_setCall hk with ⟨rfl, rfl⟩ | ⟨_, hk⟩
    · refine ⟨(h k y hj).since, (h k y hj).held, fun r n hr => ?_⟩
      obtain ⟨rfl, rfl⟩ := Prod.mk.inj (Option.some.inj hr)
      exact ⟨Nat.le_refl _, fun _ _ => rfl⟩
    · exact (h k x hk).quiet rfl rfl
  · unfold write at hwrite
    split at hwrite
    · rename_i r n hr
      obtain rfl := Option.some.inj hwrite
      rcases getElem?_setCall hk with ⟨rfl, rfl⟩ | ⟨hne, hk⟩
      · exact (h k y hj).own hr _ _
      · exact CallOk.other (w := ⟨j, s.row, y.entity.save r s.row, y.assigned⟩) (h k x hk)
          (fun heq => hne heq.symm) rfl _
    · cases hwrite

/-- An entity is stale only where another call has written since it was read: a save of a call
    that is alone is current. -/
theorem current_of_untouched (hreach : editSystem.Reachable s) (hk : s.calls[k]? = some x)
    (hfree : ∀ c, c ∉ x.assigned → s.Untouched k x.since c) : s.current (.reread k) = true := by
  have hok : ∀ k x, s.calls[k]? = some x → s.CallOk k x := by
    refine hreach.invariant (P := fun s => ∀ k x, s.calls[k]? = some x → s.CallOk k x) ?_ ?_
    · rintro s ⟨hcalls, _⟩ k x hk
      rw [hcalls] at hk
      cases hk
    · exact fun s a s' _ h hs => callOk_step h hs
  unfold current
  dsimp only
  rw [hk, Option.all_some, List.all_eq_true]
  intro c _
  by_cases hc : c ∈ x.assigned
  · rw [decide_eq_true hc, Bool.true_or]
  · rw [decide_eq_true ((hok k x hk).held c hc (hfree c hc)), Bool.or_true]

/-! ## Runs whose saves are current -/

/-- A write leaves the columns alone that its call has not assigned. -/
theorem write_keeps {r row : MissionRow} {n : Nat} (hr : x.reread = some (r, n)) (h : SaveOk x)
    {c : Column} (hc : c ∉ x.assigned) : c.get (x.entity.save r row) = c.get row := by
  rw [c.get_save]
  exact saveColumn_of_eq (h r n hr c hc)

/-- No committed change is lost: in every run in which each save that reads the row finds the
    columns its call has not assigned as the call holds them. -/
theorem none_lost (h : (editSystem.restrict fun s a _ => s.current a = true).Reachable s) :
    s.NoneLost := by
  refine (h.invariant (P := fun s =>
    (∀ (k : Nat) (x : EntityCall), s.calls[k]? = some x → SaveOk x) ∧
    s.NoneLost) ?_ ?_).2
  · rintro s ⟨hcalls, hlog⟩
    refine ⟨fun k x hk => ?_, fun w hw => ?_⟩
    · rw [hcalls] at hk
      cases hk
    · rw [hlog] at hw
      cases hw
  · rintro s a s' _ ⟨hsaves, hnone⟩ ⟨hs, hcurrent⟩
    have hidle : ∀ x : EntityCall, x.reread = none → SaveOk x := by
      intro x hx r n hr
      rw [hx] at hr
      cases hr
    rcases run_cases hs with ⟨kind, hload⟩ | ⟨j, y, hj, ⟨entity, kind, hy, rfl⟩ | ⟨kind, rfl⟩ |
      ⟨rfl, rfl⟩ | hwrite⟩
    · obtain rfl := load_eq hload
      refine ⟨fun k x hk => ?_, hnone⟩
      rcases getElem?_append_cases hk with hk | ⟨_, rfl⟩
      · exact hsaves k x hk
      · exact hidle _ rfl
    · refine ⟨fun k x hk => ?_, hnone⟩
      rcases getElem?_setCall hk with ⟨_, rfl⟩ | ⟨_, hk⟩
      · exact hidle _ hy
      · exact hsaves k x hk
    · refine ⟨fun k x hk => ?_, hnone⟩
      rcases getElem?_setCall hk with ⟨_, rfl⟩ | ⟨_, hk⟩
      · exact hidle _ rfl
      · exact hsaves k x hk
    · refine ⟨fun k x hk => ?_, hnone⟩
      rcases getElem?_setCall hk with ⟨_, rfl⟩ | ⟨_, hk⟩
      · -- the save reads what the call holds
        intro r n hr c hc
        obtain ⟨rfl, _⟩ := Prod.mk.inj (Option.some.inj hr)
        unfold current at hcurrent
        dsimp only at hcurrent
        rw [hj, Option.all_some, List.all_eq_true] at hcurrent
        have hget := hcurrent c c.mem_all
        rw [decide_eq_false hc, Bool.false_or, decide_eq_true_eq] at hget
        exact hget
      · exact hsaves k x hk
    · unfold write at hwrite
      split at hwrite
      · rename_i r n hr
        obtain rfl := Option.some.inj hwrite
        refine ⟨fun k x hk => ?_, fun w hw c hc => ?_⟩
        · rcases getElem?_setCall hk with ⟨_, rfl⟩ | ⟨_, hk⟩
          · exact hidle _ rfl
          · exact hsaves k x hk
        · rcases List.mem_append.mp hw with hw | hw
          · exact hnone w hw c hc
          · obtain rfl := List.mem_singleton.mp hw
            exact write_keeps hr (hsaves j y hj) hc
      · cases hwrite

end Steps

/-! ## Runs on one mission -/

theorem exists_checked_edits (C : EditState → EditAction → Bool) (actions : List EditAction)
    (p : EditState → Bool)
    (h : (Transition.runChecked EditAction.run C ⟨{}, [], []⟩ actions).any p = true) :
    ∃ s, (editSystem.restrict fun s a _ => C s a = true).Reachable s ∧ p s = true :=
  Transition.exists_reachable_checked (M := editSystem) (fun _ _ _ hs => hs) ⟨rfl, rfl⟩ actions p h

/-- An edit of a limit. -/
def raiseSteps : MissionEdit := { patch := { max_steps := some 80 } }

/-- Two edits of one limit: the second is saved first, and the save of the first is current. -/
theorem current_of_untouched_twoEdits : ∃ s : EditState, s.row.mission.max_steps = 90 ∧
    s.log.length = 1 ∧ s.current (.reread 0) = true := by
  obtain ⟨s, hreach, hp⟩ := exists_checked_edits (fun _ _ => true)
    [.updateMission raiseSteps, .edit 0, .updateMission { patch := { max_steps := some 90 } },
      .edit 1, .reread 1, .write 1]
    (fun s => s.row.mission.max_steps = 90 && s.log.length = 1 && (s.calls[0]?).any fun x =>
      Column.all.all fun c => c ∈ x.assigned || (s.log.drop x.since).all fun w =>
        w.caller = 0 || c.get w.after = c.get w.before) (by decide +kernel)
  simp only [Bool.and_eq_true, decide_eq_true_eq, Option.any_eq_true, List.all_eq_true,
    Bool.or_eq_true] at hp
  obtain ⟨⟨hrow, hlog⟩, x, hx, hfree⟩ := hp
  refine ⟨s, hrow, hlog, current_of_untouched hreach.of_restrict hx fun c hc w hw hother => ?_⟩
  exact ((hfree c c.mem_all).resolve_left hc w hw).resolve_left hother

/-- The mission as its start leaves it. -/
def startedMission : Mission := { status := .planning, room_id := some "room" }

/-- An edit is saved, and the mission is started behind it. -/
theorem none_lost_small : ∃ s : EditState, s.row.mission.status = .planning ∧
    s.row.mission.max_steps = 80 ∧ s.NoneLost := by
  obtain ⟨s, hreach, hp⟩ := exists_checked_edits current
    [.updateMission raiseSteps, .edit 0, .reread 0, .write 0, .lock,
      .change { startedMission with max_steps := 80 } 1, .reread 1, .write 1, .finish 1]
    (fun s => s.row.mission.status = .planning && s.row.mission.max_steps = 80)
    (by decide +kernel)
  rw [Bool.and_eq_true, decide_eq_true_eq, decide_eq_true_eq] at hp
  exact ⟨s, hp.1, hp.2, none_lost hreach⟩

/-- An edit that was loaded before the start is saved behind it: the mission is a draft again. -/
theorem start_reverted : ¬∀ s, editSystem.Reachable s → s.NoneLost := by
  intro hall
  obtain ⟨s, hreach, hp⟩ := exists_checked_edits (fun _ _ => true)
    [.updateMission raiseSteps, .edit 0, .lock, .change startedMission 1, .reread 1, .write 1,
      .finish 1, .reread 0, .write 0]
    (fun s => s.log.any fun w => .status ∉ w.assigned && w.before.mission.status = .planning &&
      w.after.mission.status = .draft) (by decide +kernel)
  obtain ⟨w, hw, hp⟩ := List.any_eq_true.mp hp
  rw [Bool.and_eq_true, Bool.and_eq_true, decide_eq_true_eq, decide_eq_true_eq,
    decide_eq_true_eq] at hp
  have hsame := hall s hreach.of_restrict w hw .status hp.1.1
  change ColumnValue.status _ = .status _ at hsame
  rw [hp.1.2, hp.2] at hsame
  cases hsame

end EditState

end WorkflowBoard.Orchestration
