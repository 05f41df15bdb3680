import WorkflowBoard.ForStd.List
import WorkflowBoard.Native.QaSchedule

/-!
# Committed changes of a schedule

`runNow`, `update` and the sweeps each hold an entity across other statements and save it
whole. A save writes every column in which the entity differs from the row, so a column that
somebody else has changed meanwhile goes back to what the entity was loaded with
(`not_always_committed`: a manual run enables a schedule that was disabled during it).

`committed_kept`: as long as every save finds, at its second read, the cadence columns it does
not mean to set as they were loaded, every schedule has in every reachable state the enabled
flag, cadence and cursor that were last set on purpose.
-/

namespace WorkflowBoard.Qa

/-- Two cadences agree in the columns outside `sets`. -/
def Cadence.Agree (sets : Sets) (a b : Cadence) : Prop := a.keep sets b = a

instance (sets : Sets) (a b : Cadence) : Decidable (a.Agree sets b) :=
  inferInstanceAs (Decidable (_ = _))

/-- The row of the entity has the cadence of the entity, but for the columns in `sets`. -/
def Current (db : ScheduleDb) (sets : Sets) (e : QaSchedule) : Prop :=
  (reread db e).cadence.Agree sets e.cadence

instance (db : ScheduleDb) (sets : Sets) (e : QaSchedule) : Decidable (Current db sets e) :=
  inferInstanceAs (Decidable (Cadence.Agree _ _ _))

/-- The entity a call is about to save, as the call loaded it or last wrote it, with the columns
    it changes on purpose. -/
def ScheduleCall.saving (clock : Date) (o : Outside) : ScheduleCall → Option (QaSchedule × Sets)
  | .sweep now _ (.healing (e :: _)) => (computeNextRun e now).toOption.map fun _ => (e, {})
  | .sweep now _ (.taking (e :: _)) => (computeNextRun e now).toOption.map fun _ => (e, {})
  | .sweep _ _ (.dispatching e _) => o.batch.map fun _ => (e, {})
  | .runNow _ _ (.dispatching e) => o.batch.map fun _ => (e, {})
  | .update _ _ patch (.loaded e) =>
    if (patch.projectId.join.any (· ≠ "")) ∧ o.projectError.isSome then none
    else (applyPatch e patch clock).toOption.map fun _ => (e, patch.sets)
  | _ => none

/-- The condition on a statement: a call that goes to save an entity finds the row as it
    loaded it, in the cadence columns it does not mean to set. -/
def ScheduleState.SavesCurrent (s : ScheduleState) : ScheduleAction → Prop
  | .advance i o => ∀ p ∈ s.calls[i]?.bind (ScheduleCall.saving s.clock o), Current s.db p.2 p.1
  | _ => True

instance (s : ScheduleState) (a : ScheduleAction) : Decidable (s.SavesCurrent a) :=
  match a with
  | .advance i o => inferInstanceAs (Decidable
      (∀ p ∈ s.calls[i]?.bind (ScheduleCall.saving s.clock o), Current s.db p.2 p.1))
  | .tick _ => .isTrue trivial
  | .startSweep => .isTrue trivial
  | .startRunNow _ _ => .isTrue trivial
  | .startUpdate _ _ _ => .isTrue trivial

/-- Runs in which no call saves a stale entity. -/
def currentRuns : Transition ScheduleState ScheduleAction :=
  scheduleSystem.restrict fun s a _ => s.SavesCurrent a

/-- Every schedule has the cadence columns that were last set on purpose. -/
def ScheduleState.Kept (s : ScheduleState) : Prop :=
  s.committed = s.db.map fun row => (row.id, row.cadence)

/-! ## Agreement -/

section Agree

variable {sets : Sets} {a b c : Cadence}

theorem Cadence.agree_iff : a.Agree sets b ↔ (sets.enabled = false → a.enabled = b.enabled) ∧
    (sets.cadence = false → a.cron = b.cron ∧ a.interval_ms = b.interval_ms) ∧
    (sets.next_run_at = false → a.next_run_at = b.next_run_at) := by
  obtain ⟨en, cad, next⟩ := sets
  cases a
  cases b
  simp only [Agree, keep, Cadence.mk.injEq]
  cases en <;> cases cad <;> cases next <;> grind

theorem Cadence.Agree.refl (sets : Sets) (a : Cadence) : a.Agree sets a :=
  agree_iff.mpr ⟨fun _ => rfl, fun _ => ⟨rfl, rfl⟩, fun _ => rfl⟩

theorem Cadence.Agree.symm (h : a.Agree sets b) : b.Agree sets a := by
  rw [agree_iff] at h ⊢
  grind

theorem Cadence.Agree.trans (h₁ : a.Agree sets b) (h₂ : b.Agree sets c) : a.Agree sets c := by
  rw [agree_iff] at h₁ h₂ ⊢
  grind

theorem Cadence.Agree.cursor (h : a.Agree {} b) : a.Agree { next_run_at := true } b := by
  rw [agree_iff] at h ⊢
  grind

/-- A save leaves alone the columns in which the entity agreed with the second read. -/
theorem agree_save {e r : QaSchedule} (row : QaSchedule) (h : e.cadence.Agree sets r.cadence) :
    (e.save r row).cadence.Agree sets row.cadence := by
  rw [Cadence.agree_iff] at h ⊢
  obtain ⟨henabled, hcadence, hnext⟩ := h
  refine ⟨fun hs => saveColumn_of_eq (henabled hs), ?_, fun hs => saveColumn_of_eq (hnext hs)⟩
  intro hs
  obtain ⟨hcron, hinterval⟩ := hcadence hs
  exact ⟨saveColumn_of_eq hcron, saveColumn_of_eq hinterval⟩

end Agree

/-! ## The patch of an update -/

section Patch

variable {e e' : QaSchedule} {patch : UpdateScheduleInput}

theorem patchDetails_frame (h : patchDetails e patch = .ok e') :
    e'.id = e.id ∧ e'.cadence = e.cadence := by
  unfold patchDetails at h
  split at h
  · cases h
  · cases h
    exact ⟨rfl, rfl⟩

theorem patchScope_frame (h : patchScope e patch = .ok e') :
    e'.id = e.id ∧ e'.cadence = e.cadence := by
  unfold patchScope at h
  split at h
  · obtain ⟨ids, -, rfl⟩ := except_map_eq_ok.mp h
    exact ⟨rfl, rfl⟩
  · cases h
    exact ⟨rfl, rfl⟩

theorem patchCadence_frame (h : patchCadence e patch = .ok e') :
    e'.id = e.id ∧ e'.cadence.Agree patch.sets e.cadence := by
  unfold patchCadence at h
  split at h
  · rename_i hsets
    obtain ⟨cadence, -, rfl⟩ := except_map_eq_ok.mp h
    refine ⟨rfl, Cadence.agree_iff.mpr ⟨fun _ => rfl, ?_, fun _ => rfl⟩⟩
    intro hs
    have hs : (patch.cron.isSome || patch.intervalMs.isSome) = false := hs
    obtain ⟨hcron, hinterval⟩ := Bool.or_eq_false_iff.mp hs
    rw [hcron, hinterval] at hsets
    simp at hsets
  · cases h
    exact ⟨rfl, .refl _ _⟩

theorem agree_applyPatch {now : Date} (h : applyPatch e patch now = .ok e') :
    e'.id = e.id ∧ e'.cadence.Agree patch.sets e.cadence := by
  simp only [applyPatch, bind_eq_ok, pure_eq_ok] at h
  obtain ⟨e₁, h₁, e₂, h₂, e₃, h₃, next, -, rfl⟩ := h
  obtain ⟨hid₁, hc₁⟩ := patchDetails_frame h₁
  obtain ⟨hid₂, hc₂⟩ := patchScope_frame h₂
  obtain ⟨hid₃, hc₃⟩ := patchCadence_frame h₃
  refine ⟨hid₃.trans (hid₂.trans hid₁), ?_⟩
  rw [hc₂, hc₁] at hc₃
  refine Cadence.Agree.trans ?_ hc₃
  refine Cadence.agree_iff.mpr ⟨?_, fun _ => ⟨rfl, rfl⟩, ?_⟩
  · intro hs
    have hs : patch.enabled.isSome = false := hs
    cases hen : patch.enabled with
    | none => rfl
    | some b => rw [hen] at hs; cases hs
  · intro hs
    cases hs

end Patch

/-! ## A save -/

section Save

variable {s : ScheduleState} {i : Nat} {e r : QaSchedule} {sets : Sets}

/-- A save that agreed with its second read keeps what was committed. -/
theorem kept_saveRow (hids : (s.db.map (·.id)).Nodup) (hkept : s.Kept)
    (h : e.cadence.Agree sets r.cadence) : (saveRow s i e r sets).Kept := by
  have hids' : ((s.db.write e r).map (·.id)).Nodup := by
    rw [ScheduleDb.map_id_write]
    exact hids
  unfold ScheduleState.Kept at hkept ⊢
  simp only [saveRow, hkept, List.map_map]
  unfold ScheduleDb.write
  rw [List.map_map]
  apply List.map_congr_left
  intro row hrow
  simp only [Function.comp_apply]
  by_cases hid : row.id = e.id
  · have hmem : e.save r row ∈ s.db.write e r :=
      List.mem_map.mpr ⟨row, hrow, if_pos hid⟩
    have hfind : (s.db.write e r).row? e.id = some (e.save r row) :=
      find?_key_eq_some hids' hmem hid
    have hagree := agree_save row h
    unfold ScheduleDb.write at hfind
    rw [if_pos hid, if_pos hid, hfind]
    exact congrArg (Prod.mk row.id) hagree
  · rw [if_neg hid, if_neg hid]

theorem reread_eq_or (db : ScheduleDb) (e' e : QaSchedule) (hid : e'.id = e.id) :
    reread db e' = e' ∨ reread db e' = reread db e := by
  unfold reread
  rw [hid]
  cases db.row? e.id with
  | none => exact .inl rfl
  | some row => exact .inr rfl

/-- The second read of an entity that was current agrees with what the save does not set. -/
theorem agree_reread {db : ScheduleDb} {e' : QaSchedule} (hcurrent : Current db sets e)
    (hid : e'.id = e.id) (hagree : e'.cadence.Agree sets e.cadence) :
    e'.cadence.Agree sets (reread db e').cadence := by
  obtain hr | hr := reread_eq_or db _ _ hid
  · rw [hr]
    exact .refl _ _
  · rw [hr]
    exact hagree.trans hcurrent.symm

/-- The second read of an advance that finds the cursor it advances. -/
theorem agree_advance {db : ScheduleDb} (hcurrent : Current db {} e) (next : Option Date) :
    { e with next_run_at := next }.cadence.Agree
      { next_run_at := (reread db { e with next_run_at := next }).next_run_at = e.next_run_at }
      (reread db { e with next_run_at := next }).cadence := by
  obtain hr | hr := reread_eq_or db { e with next_run_at := next } e rfl
  · rw [hr]
    exact .refl _ _
  · have hnext : (reread db e).next_run_at = e.next_run_at :=
      (Cadence.agree_iff.mp hcurrent).2.2 rfl
    rw [hr, decide_eq_true hnext]
    refine Cadence.Agree.trans ?_ hcurrent.cursor.symm
    exact Cadence.agree_iff.mpr ⟨fun _ => rfl, fun _ => ⟨rfl, rfl⟩, nofun⟩

end Save

/-! ## The invariant -/

/-- What a call knows of the entity it is about to write: it agrees with the second read in the
    columns the save does not set. The lists of a sweep hold rows without a cursor, and then
    rows with one. -/
def CallOk : ScheduleCall → Prop
  | .sweep _ _ (.healing rest) => ∀ e ∈ rest, e.next_run_at = none
  | .sweep _ _ (.healWrite e r rest) =>
    e.cadence.Agree { next_run_at := r.next_run_at = none } r.cadence ∧
      ∀ e ∈ rest, e.next_run_at = none
  | .sweep _ _ (.taking rest) => ∀ e ∈ rest, e.next_run_at ≠ none
  | .sweep _ _ (.takeWrite e r dueAt rest) =>
    e.cadence.Agree { next_run_at := r.next_run_at = some dueAt } r.cadence ∧
      ∀ e ∈ rest, e.next_run_at ≠ none
  | .sweep _ _ (.checking _ _ rest) => ∀ e ∈ rest, e.next_run_at ≠ none
  | .sweep _ _ (.dispatching _ rest) => ∀ e ∈ rest, e.next_run_at ≠ none
  | .sweep _ _ (.stampWrite e r rest) =>
    e.cadence.Agree {} r.cadence ∧ ∀ e ∈ rest, e.next_run_at ≠ none
  | .runNow _ _ (.write e r) => e.cadence.Agree {} r.cadence
  | .update _ _ patch (.write e r) => e.cadence.Agree patch.sets r.cadence
  | _ => True

structure KeptInv (s : ScheduleState) : Prop where
  ids : (s.db.map (·.id)).Nodup
  kept : s.Kept
  calls : ∀ c ∈ s.calls, CallOk c

section Step

variable {s t : ScheduleState} {i : Nat} {o : Outside} {c c' : ScheduleCall}

/-- A statement leaves the other calls, and keeps what was committed. -/
structure StepOk (s t : ScheduleState) (c' : ScheduleCall) : Prop where
  ids : (t.db.map (·.id)).Nodup
  kept : t.Kept
  calls : t.calls = s.calls
  callOk : CallOk c'

section

variable (hinv : KeptInv s)
include hinv

theorem KeptInv.quiet (hdb : t.db = s.db) (hcommitted : t.committed = s.committed)
    (hcalls : t.calls = s.calls) (hok : CallOk c') : StepOk s t c' := by
  refine ⟨hdb ▸ hinv.ids, ?_, hcalls, hok⟩
  unfold ScheduleState.Kept
  rw [hdb, hcommitted]
  exact hinv.kept

/-- A statement that saves an entity that agreed with its second read. -/
theorem KeptInv.save {e r : QaSchedule} {sets : Sets}
    (hagree : e.cadence.Agree sets r.cadence) (hok : CallOk c') :
    StepOk s (saveRow s i e r sets) c' := by
  refine ⟨?_, kept_saveRow hinv.ids hinv.kept hagree, rfl, hok⟩
  show ((s.db.write e r).map (·.id)).Nodup
  rw [ScheduleDb.map_id_write]
  exact hinv.ids

theorem KeptInv.sweepStep {now : Date} {startedAt : Nat} {phase phase' : SweepPhase}
    (hok : CallOk (.sweep now startedAt phase))
    (hcurrent : ∀ p ∈ ScheduleCall.saving s.clock o (.sweep now startedAt phase),
      Current s.db p.2 p.1)
    (h : sweepStep s i now o phase = some (t, phase')) :
    StepOk s t (.sweep now startedAt phase') := by
  cases phase with
  | start =>
    cases h
    apply hinv.quiet rfl rfl rfl
    split <;> trivial
  | findOrphans =>
    cases h
    apply hinv.quiet rfl rfl rfl
    intro e he
    have hnone := (Bool.and_eq_true_iff.mp (List.mem_filter.mp he).2).2
    exact Option.isNone_iff_eq_none.mp hnone
  | healing rest =>
    cases rest with
    | nil =>
      cases h
      exact hinv.quiet rfl rfl rfl trivial
    | cons e rest =>
      simp only [Qa.sweepStep] at h
      split at h <;> cases h
      · exact hinv.quiet rfl rfl rfl trivial
      · rename_i next hnext
        have hcur : Current s.db {} e := hcurrent (e, {}) (by simp [ScheduleCall.saving, hnext])
        have hadvance := agree_advance hcur next
        rw [hok e List.mem_cons_self] at hadvance
        exact hinv.quiet rfl rfl rfl ⟨hadvance, fun e he => hok e (List.mem_cons_of_mem _ he)⟩
  | healWrite e r rest =>
    cases h
    exact hinv.save hok.1 hok.2
  | findDue =>
    cases h
    apply hinv.quiet rfl rfl rfl
    intro e he hnone
    have he := (List.mem_insertionSort _).mp (List.mem_of_mem_take he)
    have hdue := (Bool.and_eq_true_iff.mp (List.mem_filter.mp he).2).2
    rw [hnone] at hdue
    cases hdue
  | taking rest =>
    cases rest with
    | nil =>
      cases h
      exact hinv.quiet rfl rfl rfl trivial
    | cons e rest =>
      have hrest : ∀ e ∈ rest, e.next_run_at ≠ none := fun e he => hok e (List.mem_cons_of_mem _ he)
      simp only [Qa.sweepStep] at h
      split at h <;> cases h
      · exact hinv.quiet rfl rfl rfl hrest
      · rename_i next hnext
        have hcur : Current s.db {} e := hcurrent (e, {}) (by simp [ScheduleCall.saving, hnext])
        have hadvance := agree_advance hcur next
        obtain ⟨d, hd⟩ := Option.ne_none_iff_exists'.mp (hok e List.mem_cons_self)
        rw [hd] at hadvance
        rw [hd]
        exact hinv.quiet rfl rfl rfl ⟨hadvance, hrest⟩
  | takeWrite e r dueAt rest =>
    cases h
    have hsave : StepOk s (saveRow s i e r { next_run_at := r.next_run_at = some dueAt })
        (.sweep now startedAt (.checking e dueAt rest)) := hinv.save hok.1 hok.2
    exact ⟨hsave.ids, hsave.kept, hsave.calls, hsave.callOk⟩
  | checking e dueAt rest =>
    simp only [Qa.sweepStep] at h
    split at h <;> cases h <;> exact hinv.quiet rfl rfl rfl hok
  | dispatching e rest =>
    simp only [Qa.sweepStep] at h
    split at h <;> cases h
    · exact hinv.quiet rfl rfl rfl hok
    · rename_i batch hbatch
      have hcur : Current s.db {} e := hcurrent (e, {}) (by simp [ScheduleCall.saving, hbatch])
      exact hinv.quiet rfl rfl rfl ⟨agree_reread hcur rfl (.refl _ _), hok⟩
  | stampWrite e r rest =>
    cases h
    exact hinv.save hok.1 hok.2
  | returned => cases h

theorem KeptInv.runNowStep {id accountId : String} {phase phase' : RunNowPhase}
    (hok : CallOk (.runNow id accountId phase))
    (hcurrent : ∀ p ∈ ScheduleCall.saving s.clock o (.runNow id accountId phase),
      Current s.db p.2 p.1)
    (h : runNowStep s i id accountId o phase = some (t, phase')) :
    StepOk s t (.runNow id accountId phase') := by
  cases phase with
  | start =>
    simp only [Qa.runNowStep] at h
    split at h
    · cases h
      exact hinv.quiet rfl rfl rfl trivial
    · split at h <;> cases h <;> exact hinv.quiet rfl rfl rfl trivial
  | dispatching e =>
    simp only [Qa.runNowStep] at h
    split at h <;> cases h
    · exact hinv.quiet rfl rfl rfl trivial
    · rename_i batch hbatch
      have hcur : Current s.db {} e := hcurrent (e, {}) (by simp [ScheduleCall.saving, hbatch])
      exact hinv.quiet rfl rfl rfl (agree_reread hcur rfl (.refl _ _))
  | write e r =>
    cases h
    exact hinv.save hok trivial
  | returned error => cases h

theorem KeptInv.updateStep {id accountId : String} {patch : UpdateScheduleInput}
    {phase phase' : UpdatePhase}
    (hok : CallOk (.update id accountId patch phase))
    (hcurrent : ∀ p ∈ ScheduleCall.saving s.clock o (.update id accountId patch phase),
      Current s.db p.2 p.1)
    (h : updateStep s i id accountId patch o phase = some (t, phase')) :
    StepOk s t (.update id accountId patch phase') := by
  cases phase with
  | start =>
    simp only [Qa.updateStep] at h
    split at h <;> cases h <;> exact hinv.quiet rfl rfl rfl trivial
  | loaded e =>
    simp only [Qa.updateStep] at h
    split at h
    · cases h
      exact hinv.quiet rfl rfl rfl trivial
    · rename_i hproject
      split at h <;> cases h
      · exact hinv.quiet rfl rfl rfl trivial
      · rename_i e' he'
        obtain ⟨hid, hagree⟩ := agree_applyPatch he'
        have hcur : Current s.db patch.sets e := by
          apply hcurrent (e, patch.sets)
          simp only [ScheduleCall.saving]
          rw [if_neg hproject, he']
          rfl
        exact hinv.quiet rfl rfl rfl (agree_reread hcur hid hagree)
  | write e r =>
    cases h
    exact hinv.save hok trivial
  | returned error => cases h

theorem KeptInv.callStep (hok : CallOk c)
    (hcurrent : ∀ p ∈ ScheduleCall.saving s.clock o c, Current s.db p.2 p.1)
    (h : callStep s i o c = some (t, c')) : StepOk s t c' := by
  cases c with
  | sweep now startedAt phase =>
    obtain ⟨r, hr, heq⟩ := Option.map_eq_some_iff.mp h
    cases heq
    exact hinv.sweepStep hok hcurrent hr
  | runNow id accountId phase =>
    obtain ⟨r, hr, heq⟩ := Option.map_eq_some_iff.mp h
    cases heq
    exact hinv.runNowStep hok hcurrent hr
  | update id accountId patch phase =>
    obtain ⟨r, hr, heq⟩ := Option.map_eq_some_iff.mp h
    cases heq
    exact hinv.updateStep hok hcurrent hr

theorem KeptInv.start (hok : CallOk c) : KeptInv (s.call c) := by
  refine ⟨hinv.ids, hinv.kept, ?_⟩
  intro c₀ hc
  obtain hc | hc := List.mem_append.mp hc
  · exact hinv.calls c₀ hc
  · obtain rfl := List.mem_singleton.mp hc
    exact hok

theorem KeptInv.act {a : ScheduleAction} (hcurrent : s.SavesCurrent a)
    (h : s.act a = .ok t) : KeptInv t := by
  cases a with
  | tick now =>
    simp only [ScheduleState.act] at h
    split at h
    · cases h
      exact ⟨hinv.ids, hinv.kept, hinv.calls⟩
    · cases h
  | startSweep =>
    cases h
    exact hinv.start trivial
  | startRunNow id accountId =>
    cases h
    exact hinv.start trivial
  | startUpdate id accountId patch =>
    cases h
    exact hinv.start trivial
  | advance i o =>
    simp only [ScheduleState.act] at h
    split at h
    · rename_i t' c' hstep
      cases h
      obtain ⟨c, hcall, hstep⟩ := Option.bind_eq_some_iff.mp hstep
      have hok := hinv.calls c (List.mem_of_getElem? hcall)
      have hstepOk :=
        hinv.callStep hok (by simpa [ScheduleState.SavesCurrent, hcall] using hcurrent)
        hstep
      refine ⟨hstepOk.ids, hstepOk.kept, ?_⟩
      intro c₀ hc
      have hc : c₀ ∈ t'.calls.set i c' := hc
      rw [hstepOk.calls] at hc
      obtain hc | rfl := List.mem_or_eq_of_mem_set hc
      · exact hinv.calls c₀ hc
      · exact hstepOk.callOk
    · cases h

end

theorem keptInv_reachable (h : currentRuns.Reachable s) : KeptInv s := by
  refine h.invariant ?_ ?_
  · rintro s ⟨hids, hcalls, -, -, -, hcommitted⟩
    refine ⟨hids, hcommitted, ?_⟩
    intro c hc
    rw [hcalls] at hc
    cases hc
  · rintro s a s' _ hinv ⟨hstep, hcurrent⟩
    exact hinv.act hcurrent hstep

end Step

/-! ## Main result -/

/-- In every run of sweeps, manual runs and updates in which every save finds the cadence columns
    it does not mean to set as they were loaded, each schedule has in every reachable state the
    enabled flag, cron, interval and cursor that were last set on purpose. -/
theorem committed_kept {s : ScheduleState} (h : currentRuns.Reachable s) : s.Kept :=
  (keptInv_reachable h).kept

/-- One enabled schedule, and no call. -/
def oneEnabled : ScheduleState where
  db := [{ id := "S", account_id := "A", interval_ms := some 60000, next_run_at := some 1000 }]
  clock := 10
  calls := []
  saves := []
  taken := []
  dispatches := []
  committed := [("S", ⟨true, none, some 60000, some 1000⟩)]

theorem oneEnabled_init : scheduleSystem.init oneEnabled :=
  ⟨by decide, rfl, rfl, rfl, rfl, rfl⟩

/-- A manual run, and then an update that disables the schedule. -/
theorem committed_kept_oneEnabled :
    ∃ s, currentRuns.Reachable s ∧ s.db.map (·.cadence) = [⟨false, none, some 60000, none⟩] ∧
      s.Kept := by
  obtain ⟨s, hreach, hs⟩ := Transition.exists_reachable_guarded (M := currentRuns)
    (C := ScheduleState.SavesCurrent) (fun _ _ _ hok h => ⟨h, hok⟩) oneEnabled_init
    [.startRunNow "S" "A", .advance 0 {}, .advance 0 { batch := some "B" }, .advance 0 {},
      .startUpdate "S" "A" { enabled := some false }, .advance 1 {}, .advance 1 {}, .advance 1 {}]
    (fun s => s.db.map (·.cadence) = [⟨false, none, some 60000, none⟩]) (by decide +kernel)
  exact ⟨s, hreach, of_decide_eq_true hs, committed_kept hreach⟩

/-- A manual run loads the schedule, an update disables it, and the save of the manual run
    enables it again and brings its cursor back. -/
theorem not_always_committed : ¬ ∀ s, scheduleSystem.Reachable s → s.Kept := by
  intro hall
  have hrun : ∀ s a t, ScheduleState.act s a = .ok t → scheduleSystem.step s a t :=
    fun _ _ _ h => h
  obtain ⟨s, hpath, hs⟩ := Transition.exists_path_of_run hrun oneEnabled
    [.startRunNow "S" "A", .advance 0 {},
      .startUpdate "S" "A" { enabled := some false }, .advance 1 {}, .advance 1 {}, .advance 1 {},
      .advance 0 { batch := some "B" }, .advance 0 {}]
    (fun s => s.db.map (·.cadence) = [⟨true, none, some 60000, some 1000⟩] ∧
      s.committed = [("S", ⟨false, none, some 60000, none⟩)]) (by decide +kernel)
  have hkept := hall s (.path (.init oneEnabled_init) hpath)
  obtain ⟨hdb, hcommitted⟩ := of_decide_eq_true hs
  have hkept : s.committed.map (·.2) = s.db.map (·.cadence) := by
    rw [hkept, List.map_map]
    rfl
  rw [hdb, hcommitted] at hkept
  exact absurd hkept (by decide)

end WorkflowBoard.Qa
