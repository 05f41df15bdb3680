import WorkflowBoard.ForStd.List
import WorkflowBoard.Native.QaSchedule

/-!
# Occurrences of a schedule

A sweep reads its due schedules up front and comes to each of them later, after dispatches
that take as long as they take. A second sweep can take up a schedule in between, and the
first then dispatches the same occurrence again (`not_always_dispatched_once`).

`occurrence_dispatched_once`: as long as no sweep saves a schedule that another sweep has
saved since it started, every occurrence is dispatched at most once.

Every cursor a sweep writes is later than the instant the sweep started at, and every
occurrence it may meet in the table was taken up before that instant. So a cursor never
comes back to an occurrence that was taken up (`SweepInv.floor`), and a due schedule that
waits in the list of a sweep while another takes it up is one the sweep may not save
(`Pending`).
-/

namespace WorkflowBoard.Qa

/-- No call but `i` has saved the schedule since the first `startedAt` saves. -/
def ScheduleState.Alone (s : ScheduleState) (i startedAt : Nat) (id : String) : Prop :=
  ∀ p ∈ s.saves.drop startedAt, p.2 = id → p.1 = i

/-- The schedule a sweep writes in its next statement. -/
def SweepPhase.writes : SweepPhase → Option QaSchedule
  | .healWrite e _ _ => some e
  | .takeWrite e _ _ _ => some e
  | .stampWrite e _ _ => some e
  | _ => none

/-- The schedule a sweep writes in its next statement, with the saves made when it started. -/
def ScheduleCall.writes : ScheduleCall → Option (Nat × String)
  | .sweep _ startedAt phase => phase.writes.map fun e => (startedAt, e.id)
  | _ => none

/-- The condition on a statement: a sweep that saves a schedule is the only one that saved it
    since the sweep started. -/
def ScheduleState.SavesAlone (s : ScheduleState) : ScheduleAction → Prop
  | .advance i _ => ∀ p ∈ s.calls[i]?.bind ScheduleCall.writes, s.Alone i p.1 p.2
  | _ => True

instance (s : ScheduleState) (i startedAt : Nat) (id : String) :
    Decidable (s.Alone i startedAt id) :=
  inferInstanceAs (Decidable (∀ p ∈ s.saves.drop startedAt, p.2 = id → p.1 = i))

instance (s : ScheduleState) (a : ScheduleAction) : Decidable (s.SavesAlone a) :=
  match a with
  | .advance i _ => inferInstanceAs
      (Decidable (∀ p ∈ s.calls[i]?.bind ScheduleCall.writes, s.Alone i p.1 p.2))
  | .tick _ => .isTrue trivial
  | .startSweep => .isTrue trivial
  | .startRunNow _ _ => .isTrue trivial
  | .startUpdate _ _ _ => .isTrue trivial

/-- Only sweeps are started. -/
def ScheduleAction.isSweep : ScheduleAction → Bool
  | .startRunNow _ _ => false
  | .startUpdate _ _ _ => false
  | _ => true

/-- Overlapping sweeps in any interleaving. -/
def sweepSystem : Transition ScheduleState ScheduleAction :=
  scheduleSystem.restrict fun _ a _ => a.isSweep = true

/-- Runs in which no sweep saves over another. -/
def aloneRuns : Transition ScheduleState ScheduleAction :=
  sweepSystem.restrict fun s a _ => s.SavesAlone a

/-! ## Next firings -/

theorem lt_of_computeNextRun {schedule : QaSchedule} {start d : Int}
    (h : computeNextRun schedule start = .ok (some d)) : start < d := by
  have hinterval : computeNextRun.interval schedule start = some d → start < d := by
    intro h
    obtain ⟨ms, hms, rfl⟩ := Option.map_eq_some_iff.mp h
    obtain ⟨-, hpos⟩ := Option.filter_eq_some_iff.mp hms
    have hpos : 0 < ms := of_decide_eq_true hpos
    omega
  unfold computeNextRun at h
  split at h
  · cases h
  · split at h
    · split at h
      · exact lt_of_nextCronAfter h
      · exact hinterval (Except.ok.inj h)
    · exact hinterval (Except.ok.inj h)

/-! ## What a save does to the table -/

section Save

variable {s : ScheduleState} {i : Nat} {e r : QaSchedule} {sets : Sets}

theorem mem_write {db : ScheduleDb} {row' : QaSchedule} (h : row' ∈ db.write e r) :
    ∃ row ∈ db, (row.id ≠ e.id ∧ row' = row) ∨ (row.id = e.id ∧ row' = e.save r row) := by
  obtain ⟨row, hrow, rfl⟩ := List.mem_map.mp h
  refine ⟨row, hrow, ?_⟩
  by_cases hid : row.id = e.id
  · exact .inr ⟨hid, if_pos hid⟩
  · exact .inl ⟨hid, if_neg hid⟩

/-- A save by another call ends the time a call was alone with a schedule. -/
theorem not_alone_saveRow {j startedAt : Nat} (hj : startedAt ≤ s.saves.length) (hne : i ≠ j) :
    ¬ (saveRow s i e r sets).Alone j startedAt e.id := by
  intro h
  apply hne
  apply h (i, e.id) _ rfl
  show (i, e.id) ∈ (s.saves ++ [(i, e.id)]).drop startedAt
  rw [List.drop_append_of_le_length hj]
  exact List.mem_append_right _ List.mem_cons_self

/-- A call that is alone with a schedule after a save was alone before. -/
theorem alone_of_saveRow {j startedAt : Nat} {id : String} (hj : startedAt ≤ s.saves.length)
    (h : (saveRow s i e r sets).Alone j startedAt id) : s.Alone j startedAt id := by
  intro p hp
  apply h p
  show p ∈ (s.saves ++ [(i, e.id)]).drop startedAt
  rw [List.drop_append_of_le_length hj]
  exact List.mem_append_left _ hp

end Save

/-! ## The invariant -/

/-- A schedule that waits in the list of sweep `i`: it was due, and if its occurrence has been
    taken up since, another sweep has saved it. -/
def Pending (s : ScheduleState) (i : Nat) (now : Int) (startedAt : Nat) (e : QaSchedule) : Prop :=
  ∃ d : Int, e.next_run_at = some d ∧ d ≤ now ∧
    ((e.id, d) ∈ s.taken → ¬ s.Alone i startedAt e.id)

/-- The rest of the list of a sweep. -/
structure RestOk (s : ScheduleState) (i : Nat) (now : Int) (startedAt : Nat)
    (rest : List QaSchedule) : Prop where
  nodup : (rest.map (·.id)).Nodup
  pending : ∀ e ∈ rest, Pending s i now startedAt e

/-- The cursor of the entity a sweep has moved is later than its start. -/
def Later (now : Int) (e : QaSchedule) : Prop := ∀ d : Int, e.next_run_at = some d → now < d

/-- What a sweep knows in each phase. -/
def SweepOk (s : ScheduleState) (i : Nat) (now : Int) (startedAt : Nat) : SweepPhase → Prop
  | .healWrite e _ _ => Later now e
  | .taking rest => RestOk s i now startedAt rest
  | .takeWrite e r dueAt rest => Later now e ∧ dueAt ≤ now ∧ e.id ∉ rest.map (·.id) ∧
      ((e.id, dueAt) ∈ s.taken → ¬ s.Alone i startedAt e.id) ∧
      (s.Alone i startedAt e.id → ∀ row ∈ s.db, row.id = e.id →
        row.next_run_at = r.next_run_at) ∧
      RestOk s i now startedAt rest
  | .checking e _ rest => Later now e ∧ RestOk s i now startedAt rest
  | .dispatching e rest => Later now e ∧ RestOk s i now startedAt rest
  | .stampWrite e _ rest => Later now e ∧ RestOk s i now startedAt rest
  | _ => True

/-- The call holds an occurrence it has taken up and not dispatched. -/
def holds (occ : String × Date) : ScheduleCall → Bool
  | .sweep _ _ (.checking e dueAt _) => (e.id, dueAt) = occ
  | _ => false

structure SweepInv (s : ScheduleState) : Prop where
  ids : (s.db.map (·.id)).Nodup
  sweeps : ∀ (i : Nat) (c : ScheduleCall), s.calls[i]? = some c →
    ∃ (now : Int) (startedAt : Nat) (phase : SweepPhase), c = .sweep now startedAt phase ∧
      startedAt ≤ s.saves.length ∧ now ≤ s.clock ∧
      (∀ q ∈ s.taken, q.2 ≤ now ∨ ¬ s.Alone i startedAt q.1) ∧ SweepOk s i now startedAt phase
  taken_le : ∀ q ∈ s.taken, q.2 ≤ s.clock
  floor : ∀ row ∈ s.db, ∀ d : Int, row.next_run_at = some d → ∀ q ∈ s.taken, q.1 = row.id →
    q.2 < d
  once : s.taken.Nodup
  held : ∀ occ, s.dispatches.count occ + s.calls.countP (holds occ) ≤ s.taken.count occ

/-! ## Steps of other sweeps -/

section Frame

variable {s t : ScheduleState} {i j startedAt : Nat} {now : Int}

/-- What the step from `s` to `t` leaves to sweep `j`. -/
structure Frame (s t : ScheduleState) (j startedAt : Nat) : Prop where
  alone : ∀ id, t.Alone j startedAt id → s.Alone j startedAt id
  taken : ∀ q ∈ t.taken, q ∈ s.taken ∨ ¬ t.Alone j startedAt q.1
  row : ∀ row ∈ t.db, t.Alone j startedAt row.id →
    ∃ row₀ ∈ s.db, row₀.id = row.id ∧ row₀.next_run_at = row.next_run_at

theorem Frame.of_eq (hdb : t.db = s.db) (hsaves : t.saves = s.saves) (htaken : t.taken = s.taken) :
    Frame s t j startedAt := by
  have halone : ∀ id, t.Alone j startedAt id → s.Alone j startedAt id := by
    intro id h
    unfold ScheduleState.Alone at h ⊢
    rwa [hsaves] at h
  refine ⟨halone, ?_, ?_⟩
  · intro q hq
    rw [htaken] at hq
    exact .inl hq
  · intro row hrow _
    rw [hdb] at hrow
    exact ⟨row, hrow, rfl, rfl⟩

/-- The state after a save that may take up an occurrence of the schedule. -/
def wrote (s : ScheduleState) (i : Nat) (e r : QaSchedule) (sets : Sets)
    (new : List (String × Date)) : ScheduleState :=
  { saveRow s i e r sets with taken := s.taken ++ new }

variable {e r : QaSchedule} {sets : Sets} {new : List (String × Date)}

theorem saveRow_eq_wrote : saveRow s i e r sets = Qa.wrote s i e r sets [] := by
  simp [Qa.wrote, saveRow]

theorem Frame.wrote (hij : i ≠ j) (hj : startedAt ≤ s.saves.length)
    (hnew : ∀ q ∈ new, q.1 = e.id) : Frame s (wrote s i e r sets new) j startedAt := by
  have hnot : ¬ (saveRow s i e r sets).Alone j startedAt e.id := not_alone_saveRow hj hij
  refine ⟨?_, ?_, ?_⟩
  · intro id h
    have h : (saveRow s i e r sets).Alone j startedAt id := h
    exact alone_of_saveRow hj h
  · intro q hq
    obtain hq | hq := List.mem_append.mp hq
    · exact .inl hq
    · rw [hnew q hq]
      exact .inr hnot
  · intro row' hrow' halone
    obtain ⟨row, hrow, ⟨-, rfl⟩ | ⟨hid, rfl⟩⟩ := mem_write hrow'
    · exact ⟨row', hrow, rfl, rfl⟩
    · have hid' : (e.save r row).id = e.id := hid
      rw [hid'] at halone
      exact absurd halone hnot

/-- The list of a sweep after a step that takes up none of its schedules. -/
theorem RestOk.mono {rest : List QaSchedule} (h : RestOk s i now startedAt rest)
    (halone : ∀ id, t.Alone i startedAt id → s.Alone i startedAt id)
    (htaken : ∀ e ∈ rest, ∀ q ∈ t.taken, q.1 = e.id → q ∈ s.taken ∨ ¬ t.Alone i startedAt q.1) :
    RestOk t i now startedAt rest := by
  refine ⟨h.nodup, ?_⟩
  intro e he
  obtain ⟨d, hd, hle, hfresh⟩ := h.pending e he
  refine ⟨d, hd, hle, ?_⟩
  intro hmem hal
  obtain hold | hnot := htaken e he _ hmem rfl
  · exact hfresh hold (halone _ hal)
  · exact hnot hal

theorem Frame.restOk {rest : List QaSchedule} (hframe : Frame s t j startedAt)
    (h : RestOk s j now startedAt rest) : RestOk t j now startedAt rest :=
  h.mono hframe.alone fun _ _ q hq _ => hframe.taken q hq

/-- A sweep keeps what it knows through the steps of others. -/
theorem Frame.sweepOk {phase : SweepPhase} (hframe : Frame s t j startedAt)
    (h : SweepOk s j now startedAt phase) : SweepOk t j now startedAt phase := by
  cases phase with
  | taking rest => exact hframe.restOk h
  | takeWrite e r dueAt rest =>
    obtain ⟨hlater, hdue, hnot, hfresh, hcurrent, hrest⟩ := h
    refine ⟨hlater, hdue, hnot, ?_, ?_, hframe.restOk hrest⟩
    · intro hmem hal
      obtain hold | hother := hframe.taken _ hmem
      · exact hfresh hold (hframe.alone _ hal)
      · exact hother hal
    · intro hal row hrow hid
      rw [← hid] at hal
      obtain ⟨row₀, hrow₀, hid₀, hnext⟩ := hframe.row row hrow hal
      rw [← hnext]
      rw [hid] at hal
      exact hcurrent (hframe.alone _ hal) row₀ hrow₀ (hid₀.trans hid)
  | checking e dueAt rest => exact ⟨h.1, hframe.restOk h.2⟩
  | dispatching e rest => exact ⟨h.1, hframe.restOk h.2⟩
  | stampWrite e r rest => exact ⟨h.1, hframe.restOk h.2⟩
  | healWrite e r rest => exact h
  | start => trivial
  | findOrphans => trivial
  | healing rest => trivial
  | findDue => trivial
  | returned => trivial

theorem SweepOk.of_eq {phase : SweepPhase} (h : SweepOk s j now startedAt phase)
    (hdb : t.db = s.db) (hsaves : t.saves = s.saves) (htaken : t.taken = s.taken) :
    SweepOk t j now startedAt phase :=
  (Frame.of_eq hdb hsaves htaken).sweepOk h

end Frame

/-! ## One step -/

section Step

variable {s t : ScheduleState} {i startedAt : Nat} {now : Int} {phase phase' : SweepPhase}

/-- The state after a statement of sweep `i`. -/
def moved (t : ScheduleState) (i : Nat) (now : Int) (startedAt : Nat) (phase : SweepPhase) :
    ScheduleState :=
  { t with calls := t.calls.set i (.sweep now startedAt phase) }

/-- A statement of sweep `i`, given what it does to the sweep itself and to the table. -/
theorem SweepInv.moved (hinv : SweepInv s) (hcall : s.calls[i]? = some (.sweep now startedAt phase))
    (hcalls : t.calls = s.calls) (hclock : t.clock = s.clock)
    (hids : (t.db.map (·.id)).Nodup) (hsaves : s.saves.length ≤ t.saves.length)
    (hframe : ∀ j startedAt, i ≠ j → startedAt ≤ s.saves.length → Frame s t j startedAt)
    (hseen : ∀ q ∈ t.taken, q.2 ≤ now ∨ ¬ t.Alone i startedAt q.1)
    (hok : SweepOk t i now startedAt phase')
    (htaken : ∀ q ∈ t.taken, q.2 ≤ t.clock)
    (hfloor : ∀ row ∈ t.db, ∀ d : Int, row.next_run_at = some d → ∀ q ∈ t.taken, q.1 = row.id →
      q.2 < d)
    (honce : t.taken.Nodup)
    (hheld : ∀ occ, t.dispatches.count occ +
        (if holds occ (.sweep now startedAt phase') = true then 1 else 0) + s.taken.count occ ≤
      t.taken.count occ + s.dispatches.count occ +
        (if holds occ (.sweep now startedAt phase) = true then 1 else 0)) :
    SweepInv (Qa.moved t i now startedAt phase') := by
  have hkept : ∀ j startedAt', Frame t (Qa.moved t i now startedAt phase') j startedAt' :=
    fun _ _ => .of_eq rfl rfl rfl
  refine ⟨hids, ?_, htaken, hfloor, honce, ?_⟩
  · intro j c hc
    have hc : (t.calls.set i (.sweep now startedAt phase'))[j]? = some c := hc
    rw [hcalls] at hc
    obtain ⟨rfl, rfl⟩ | ⟨hij, hc⟩ := getElem?_set_cases hc
    · obtain ⟨_, _, _, heq, hstart, hnow, -, -⟩ := hinv.sweeps _ _ hcall
      cases heq
      exact ⟨_, _, _, rfl, hstart.trans hsaves, hclock ▸ hnow, hseen, (hkept _ _).sweepOk hok⟩
    · obtain ⟨now', startedAt', phase₀, rfl, hstart, hnow, hseen₀, hok₀⟩ := hinv.sweeps _ _ hc
      have hfr := hframe j startedAt' hij hstart
      refine ⟨_, _, _, rfl, hstart.trans hsaves, hclock ▸ hnow, ?_,
        (hkept _ _).sweepOk (hfr.sweepOk hok₀)⟩
      intro q hq
      obtain hold | hnot := hfr.taken q hq
      · exact (hseen₀ q hold).imp_right fun hn hal => hn (hfr.alone _ hal)
      · exact .inr hnot
  · intro occ
    have hcount := countP_set_add (b := .sweep now startedAt phase') hcall (holds occ)
    have hle := hinv.held occ
    have hstep := hheld occ
    show t.dispatches.count occ + (t.calls.set i (.sweep now startedAt phase')).countP (holds occ) ≤
      t.taken.count occ
    rw [hcalls]
    omega

theorem SweepInv.moved_quiet (hinv : SweepInv s)
    (hcall : s.calls[i]? = some (.sweep now startedAt phase))
    (hok : SweepOk s i now startedAt phase')
    (hheld : ∀ occ, holds occ (.sweep now startedAt phase') = true →
      holds occ (.sweep now startedAt phase) = true) :
    SweepInv (Qa.moved s i now startedAt phase') := by
  obtain ⟨_, _, _, heq, -, -, hseen, -⟩ := hinv.sweeps _ _ hcall
  cases heq
  apply hinv.moved hcall rfl rfl hinv.ids (Nat.le_refl _) _ hseen hok hinv.taken_le hinv.floor
    hinv.once
  · intro occ
    have himp := hheld occ
    by_cases h : holds occ (.sweep now startedAt phase') = true
    · rw [if_pos h, if_pos (himp h)]
      omega
    · rw [if_neg h]
      omega
  · intro j _ _ _
    exact .of_eq rfl rfl rfl

variable {e r : QaSchedule} {new : List (String × Date)} {sets : Sets}

/-- The cursors of the table after a save: the cursor of the entity is later than the start of
    the sweep, and what was taken up of a schedule it is alone with is not. -/
theorem floor_wrote (hinv : SweepInv s) (hcall : s.calls[i]? = some (.sweep now startedAt phase))
    (halone : s.Alone i startedAt e.id) (hlater : Later now e)
    (hnew : ∀ q ∈ new, q.1 = e.id ∧ q.2 ≤ now)
    (hcurrent : new ≠ [] → ∀ row ∈ s.db, row.id = e.id → row.next_run_at = r.next_run_at) :
    ∀ row ∈ (wrote s i e r sets new).db, ∀ d : Int, row.next_run_at = some d →
      ∀ q ∈ (wrote s i e r sets new).taken, q.1 = row.id → q.2 < d := by
  obtain ⟨_, _, _, heq, -, -, hseen, -⟩ := hinv.sweeps _ _ hcall
  cases heq
  -- everything that was taken up of this schedule is at most `now`
  have hpast : ∀ q ∈ s.taken ++ new, q.1 = e.id → q.2 ≤ now := by
    intro q hq hid
    obtain hq | hq := List.mem_append.mp hq
    · obtain hle | hnot := hseen q hq
      · exact hle
      · exact absurd (hid ▸ halone) hnot
    · exact (hnew q hq).2
  intro row' hrow' d hd q hq hqid
  obtain ⟨row, hrow, ⟨hne, rfl⟩ | ⟨hid, rfl⟩⟩ := mem_write hrow'
  · obtain hq | hq := List.mem_append.mp hq
    · exact hinv.floor _ hrow d hd q hq hqid
    · exact absurd (hqid.symm.trans (hnew q hq).1) hne
  · have hqe : q.1 = e.id := hqid.trans hid
    have hle := hpast q hq hqe
    have hd : saveColumn e.next_run_at r.next_run_at row.next_run_at = some d := hd
    have hmoved : e.next_run_at = some d → q.2 < d := fun h => lt_of_le_of_lt hle (hlater d h)
    by_cases hsame : e.next_run_at = r.next_run_at
    · rw [saveColumn_of_eq hsame] at hd
      by_cases hempty : new = []
      · have hq : q ∈ s.taken ++ new := hq
        rw [hempty, List.append_nil] at hq
        exact hinv.floor row hrow d hd q hq hqid
      · rw [hcurrent hempty row hrow hid, ← hsame] at hd
        exact hmoved hd
    · rw [saveColumn_of_ne hsame] at hd
      exact hmoved hd

/-- The list of a sweep after its own save of a schedule that is not in it. -/
theorem restOk_wrote {rest : List QaSchedule} (hstart : startedAt ≤ s.saves.length)
    (hnew : ∀ q ∈ new, q.1 ∉ rest.map (·.id)) (h : RestOk s i now startedAt rest) :
    RestOk (wrote s i e r sets new) i now startedAt rest := by
  apply h.mono
  · intro id hal
    have hal : (saveRow s i e r sets).Alone i startedAt id := hal
    exact alone_of_saveRow hstart hal
  · intro e' he' q hq hid
    obtain hq | hq := List.mem_append.mp hq
    · exact .inl hq
    · have hmem : q.1 ∈ rest.map (·.id) := hid ▸ List.mem_map_of_mem he'
      exact absurd hmem (hnew q hq)

/-- A statement of sweep `i` that saves a schedule it is alone with. -/
theorem SweepInv.moved_wrote (hinv : SweepInv s)
    (new : List (String × Date)) (hcall : s.calls[i]? = some (.sweep now startedAt phase))
    (halone : s.Alone i startedAt e.id) (hlater : Later now e)
    (hnew : ∀ q ∈ new, q.1 = e.id ∧ q.2 ≤ now) (hfresh : (s.taken ++ new).Nodup)
    (hcurrent : new ≠ [] → ∀ row ∈ s.db, row.id = e.id → row.next_run_at = r.next_run_at)
    (hok : SweepOk (wrote s i e r sets new) i now startedAt phase')
    (hheld : ∀ occ, (if holds occ (.sweep now startedAt phase') = true then 1 else 0) ≤
      new.count occ) :
    SweepInv (Qa.moved (wrote s i e r sets new) i now startedAt phase') := by
  obtain ⟨_, _, _, heq, hstart, hnow, hseen, -⟩ := hinv.sweeps _ _ hcall
  cases heq
  have hlength : s.saves.length ≤ (wrote s i e r sets new).saves.length := by
    show s.saves.length ≤ (s.saves ++ [(i, e.id)]).length
    rw [List.length_append]
    omega
  have hids : ((wrote s i e r sets new).db.map (·.id)).Nodup := by
    show ((s.db.write e r).map (·.id)).Nodup
    rw [ScheduleDb.map_id_write]
    exact hinv.ids
  apply hinv.moved (t := wrote s i e r sets new) hcall rfl rfl hids hlength _ _ hok _
    (floor_wrote hinv hcall halone hlater hnew hcurrent) hfresh
  · intro occ
    have := hheld occ
    show s.dispatches.count occ + _ + s.taken.count occ ≤ (s.taken ++ new).count occ + _ + _
    rw [List.count_append]
    omega
  · intro j startedAt' hij hj
    exact .wrote hij hj fun q hq => (hnew q hq).1
  · intro q hq
    obtain hq | hq := List.mem_append.mp hq
    · refine (hseen q hq).imp_right fun hn hal => hn ?_
      have hal : (saveRow s i e r sets).Alone i startedAt q.1 := hal
      exact alone_of_saveRow hstart hal
    · exact .inl (hnew q hq).2
  · intro q hq
    obtain hq | hq := List.mem_append.mp hq
    · exact hinv.taken_le q hq
    · exact le_trans (hnew q hq).2 hnow

end Step

/-! ## The due list -/

section Due

variable {s : ScheduleState} {i startedAt : Nat} {now : Int}

variable {db : ScheduleDb}

/-- A due schedule is a row of the table whose cursor has been reached. -/
theorem mem_due {e : QaSchedule} (h : e ∈ db.due now) :
    e ∈ db ∧ ∃ d : Int, e.next_run_at = some d ∧ d ≤ now := by
  have h := (List.mem_insertionSort _).mp (List.mem_of_mem_take h)
  obtain ⟨hmem, hdue⟩ := List.mem_filter.mp h
  obtain ⟨-, hnext⟩ := Bool.and_eq_true_iff.mp hdue
  cases hd : e.next_run_at with
  | none => rw [hd] at hnext; cases hnext
  | some d =>
    rw [hd] at hnext
    exact ⟨hmem, d, rfl, of_decide_eq_true hnext⟩

theorem nodup_due (h : (db.map (·.id)).Nodup) :
    ((db.due now).map (·.id)).Nodup := by
  unfold ScheduleDb.due
  rw [List.map_take]
  apply List.Nodup.sublist (List.take_sublist _ _)
  have hperm := (List.perm_insertionSort (fun a b : QaSchedule =>
    a.next_run_at.getD 0 ≤ b.next_run_at.getD 0) (db.filter (ScheduleDb.isDue now))).map (·.id)
  rw [hperm.nodup_iff]
  exact h.sublist (List.filter_sublist.map _)

/-- What a sweep reads as due has not been taken up. -/
theorem SweepInv.restOk_due (hinv : SweepInv s) :
    RestOk s i now startedAt (s.db.due now) := by
  refine ⟨nodup_due hinv.ids, ?_⟩
  intro e he
  obtain ⟨hmem, d, hd, hle⟩ := mem_due he
  refine ⟨d, hd, hle, ?_⟩
  intro htaken
  exact absurd (hinv.floor e hmem d hd _ htaken rfl) (lt_irrefl d)

/-- The second read of a save finds the cursor of the row. -/
theorem next_eq_reread (hids : (db.map (·.id)).Nodup) (e : QaSchedule) :
    ∀ row ∈ db, row.id = e.id → row.next_run_at = (reread db e).next_run_at := by
  intro row hrow hid
  have hfind : db.row? e.id = some row := find?_key_eq_some hids hrow hid
  unfold reread
  rw [hfind]
  rfl

end Due

/-! ## Every step -/

section Advance

variable {s t : ScheduleState} {i startedAt : Nat} {now : Int} {phase phase' : SweepPhase}
  {o : Outside}

theorem SweepInv.sweepStep (hinv : SweepInv s)
    (hcall : s.calls[i]? = some (.sweep now startedAt phase))
    (halone : ∀ e ∈ phase.writes, s.Alone i startedAt e.id)
    (h : sweepStep s i now o phase = some (t, phase')) :
    SweepInv (Qa.moved t i now startedAt phase') := by
  obtain ⟨_, _, _, heq, hstart, -, hseen, hok⟩ := hinv.sweeps _ _ hcall
  cases heq
  have hnone : ∀ {phase'}, (∀ occ, holds occ (.sweep now startedAt phase') = false) →
      SweepOk s i now startedAt phase' → SweepInv (Qa.moved s i now startedAt phase') := by
    intro phase' hholds hok'
    apply hinv.moved_quiet hcall hok'
    intro occ hocc
    rw [hholds occ] at hocc
    cases hocc
  cases phase with
  | start =>
    cases h
    split <;> exact hnone (fun _ => rfl) trivial
  | findOrphans =>
    cases h
    exact hnone (fun _ => rfl) trivial
  | healing rest =>
    cases rest with
    | nil =>
      cases h
      exact hnone (fun _ => rfl) trivial
    | cons e rest =>
      simp only [Qa.sweepStep] at h
      split at h <;> cases h
      · exact hnone (fun _ => rfl) trivial
      · rename_i next hnext
        apply hnone (fun _ => rfl)
        intro d hd
        have hd : next = some d := hd
        exact lt_of_computeNextRun (hd ▸ hnext)
  | healWrite e r rest =>
    cases h
    rw [saveRow_eq_wrote]
    exact hinv.moved_wrote [] hcall (halone e rfl) hok (by simp) (by simpa using hinv.once)
      (by simp) trivial (by simp [holds])
  | findDue =>
    cases h
    exact hnone (fun _ => rfl) hinv.restOk_due
  | taking rest =>
    cases rest with
    | nil =>
      cases h
      exact hnone (fun _ => rfl) trivial
    | cons e rest =>
      have hok : RestOk s i now startedAt (e :: rest) := hok
      obtain ⟨hnot, hnd⟩ := List.nodup_cons.mp hok.nodup
      have hrest : RestOk s i now startedAt rest :=
        ⟨hnd, fun e' he' => hok.pending e' (List.mem_cons_of_mem _ he')⟩
      simp only [Qa.sweepStep] at h
      split at h <;> cases h
      · exact hnone (fun _ => rfl) hrest
      · rename_i next hnext
        obtain ⟨d, hd, hle, hfresh⟩ := hok.pending e List.mem_cons_self
        apply hnone (fun _ => rfl)
        rw [hd]
        refine ⟨?_, hle, hnot, hfresh, ?_, hrest⟩
        · intro d' hd'
          have hd' : next = some d' := hd'
          exact lt_of_computeNextRun (hd' ▸ hnext)
        · intro _
          exact next_eq_reread hinv.ids _
  | takeWrite e r dueAt rest =>
    cases h
    obtain ⟨hlater, hdue, hnot, hfresh, hcurrent, hrest⟩ := hok
    have hal := halone e rfl
    apply hinv.moved_wrote [(e.id, dueAt)] hcall hal hlater
    · simpa using hdue
    · refine List.Nodup.append hinv.once (List.nodup_singleton _) ?_
      rw [List.disjoint_singleton]
      exact fun hmem => hfresh hmem hal
    · intro _
      exact hcurrent hal
    · exact ⟨hlater, restOk_wrote hstart (by simpa using hnot) hrest⟩
    · intro occ
      rw [List.count_singleton]
      exact Nat.le_of_eq (if_congr (by simp [holds]) rfl rfl)
  | checking e dueAt rest =>
    obtain ⟨hlater, hrest⟩ := hok
    simp only [Qa.sweepStep] at h
    split at h <;> cases h
    · exact hnone (fun _ => rfl) hrest
    · apply hinv.moved (t := { s with dispatches := s.dispatches ++ [(e.id, dueAt)] }) hcall rfl rfl
        hinv.ids (Nat.le_refl _) _ hseen _ hinv.taken_le hinv.floor hinv.once
      · intro occ
        show (s.dispatches ++ [(e.id, dueAt)]).count occ + _ + _ ≤ _
        rw [List.count_append, List.count_singleton]
        simp only [holds, Bool.false_eq_true, if_false, decide_eq_true_eq, beq_iff_eq]
        omega
      · intro j _ _ _
        exact .of_eq rfl rfl rfl
      · have hok' : SweepOk s i now startedAt (.dispatching e rest) := ⟨hlater, hrest⟩
        exact hok'.of_eq rfl rfl rfl
  | dispatching e rest =>
    obtain ⟨hlater, hrest⟩ := hok
    simp only [Qa.sweepStep] at h
    split at h <;> cases h
    · exact hnone (fun _ => rfl) hrest
    · exact hnone (fun _ => rfl) ⟨hlater, hrest⟩
  | stampWrite e r rest =>
    cases h
    obtain ⟨hlater, hrest⟩ := hok
    rw [saveRow_eq_wrote]
    exact hinv.moved_wrote [] hcall (halone e rfl) hlater (by simp) (by simpa using hinv.once)
      (by simp) (restOk_wrote hstart (by simp) hrest) (by simp [holds])
  | returned => cases h

/-- Every step of a run in which no sweep saves over another keeps the invariant. -/
theorem SweepInv.act {a : ScheduleAction} (hinv : SweepInv s) (hsweep : a.isSweep = true)
    (halone : s.SavesAlone a) (h : s.act a = .ok t) : SweepInv t := by
  cases a with
  | tick now =>
    simp only [ScheduleState.act] at h
    split at h
    · rename_i hle
      cases h
      refine ⟨hinv.ids, ?_, fun q hq => le_trans (hinv.taken_le q hq) hle, hinv.floor, hinv.once,
        hinv.held⟩
      intro i c hc
      obtain ⟨_, _, _, rfl, hstart, hnow, hseen, hok⟩ := hinv.sweeps i c hc
      exact ⟨_, _, _, rfl, hstart, le_trans hnow hle, hseen, hok.of_eq rfl rfl rfl⟩
    · cases h
  | startSweep =>
    cases h
    refine ⟨hinv.ids, ?_, hinv.taken_le, hinv.floor, hinv.once, ?_⟩
    · intro i c hc
      obtain hc | ⟨rfl, rfl⟩ := getElem?_append_cases hc
      · obtain ⟨_, _, _, rfl, hstart, hnow, hseen, hok⟩ := hinv.sweeps i c hc
        exact ⟨_, _, _, rfl, hstart, hnow, hseen, hok.of_eq rfl rfl rfl⟩
      · exact ⟨_, _, _, rfl, Nat.le_refl _, le_refl _, fun q hq => .inl (hinv.taken_le q hq),
          trivial⟩
    · intro occ
      have hle := hinv.held occ
      show _ +
        (s.calls ++ [ScheduleCall.sweep s.clock s.saves.length .start]).countP (holds occ) ≤ _
      rw [List.countP_append]
      exact hle
  | startRunNow id accountId => cases hsweep
  | startUpdate id accountId patch => cases hsweep
  | advance i o =>
    simp only [ScheduleState.act] at h
    split at h
    · rename_i t' c hstep
      cases h
      obtain ⟨c₀, hcall, hstep⟩ := Option.bind_eq_some_iff.mp hstep
      obtain ⟨now, startedAt, phase, rfl, -⟩ := hinv.sweeps i c₀ hcall
      obtain ⟨r, hr, heq⟩ := Option.map_eq_some_iff.mp hstep
      cases heq
      apply hinv.sweepStep hcall _ hr
      intro e he
      apply halone (startedAt, e.id)
      rw [hcall]
      exact Option.map_eq_some_iff.mpr ⟨e, he, rfl⟩
    · cases h

theorem sweepInv_reachable (h : aloneRuns.Reachable s) : SweepInv s := by
  refine h.invariant ?_ ?_
  · rintro s ⟨hids, hcalls, hsaves, htaken, hdispatches, -⟩
    refine ⟨hids, ?_, ?_, ?_, ?_, ?_⟩
    · intro i c hc
      rw [hcalls] at hc
      cases hc
    · intro q hq
      rw [htaken] at hq
      cases hq
    · intro row _ d _ q hq
      rw [htaken] at hq
      cases hq
    · rw [htaken]
      exact List.nodup_nil
    · intro occ
      rw [hcalls, hdispatches]
      simp
  · rintro s a s' _ hinv ⟨⟨hstep, hsweep⟩, halone⟩
    exact hinv.act hsweep halone hstep

end Advance

/-! ## Main result -/

/-- In every run of overlapping sweeps in which a sweep that saves a schedule is the only one
    that saved it since the sweep started, every occurrence (a schedule and the cursor it was due
    at) is dispatched at most once. -/
theorem occurrence_dispatched_once {s : ScheduleState} (h : aloneRuns.Reachable s) :
    s.dispatches.Nodup := by
  have hinv := sweepInv_reachable h
  rw [List.nodup_iff_count_le_one]
  intro occ
  have htaken := List.nodup_iff_count_le_one.mp hinv.once occ
  have hheld := hinv.held occ
  omega

/-- Two schedules that are due, and no call. -/
def twoDue : ScheduleState where
  db := [{ id := "S1", interval_ms := some 60000, next_run_at := some 0 },
    { id := "S2", interval_ms := some 60000, next_run_at := some 1 }]
  clock := 10
  calls := []
  saves := []
  taken := []
  dispatches := []
  committed := [("S1", ⟨true, none, some 60000, some 0⟩), ("S2", ⟨true, none, some 60000, some 1⟩)]

theorem twoDue_init : scheduleSystem.init twoDue :=
  ⟨by decide, rfl, rfl, rfl, rfl, rfl⟩

/-- A state that a run meeting the condition reaches: one sweep dispatches both schedules. -/
theorem occurrence_dispatched_once_twoDue :
    ∃ s, aloneRuns.Reachable s ∧ s.dispatches = [("S1", 0), ("S2", 1)] ∧ s.dispatches.Nodup := by
  obtain ⟨s, hreach, hs⟩ := Transition.exists_reachable_guarded (M := aloneRuns)
    (C := fun s a => a.isSweep = true ∧ s.SavesAlone a)
    (fun _ _ _ hok h => ⟨⟨h, hok.1⟩, hok.2⟩) twoDue_init
    (.startSweep :: List.replicate 12 (.advance 0 { batch := some "B" }))
    (fun s => s.dispatches = [("S1", 0), ("S2", 1)]) (by decide +kernel)
  exact ⟨s, hreach, of_decide_eq_true hs, occurrence_dispatched_once hreach⟩

/-- A sweep that is dispatching `S1` has `S2` in its list; a second sweep takes up and dispatches
    `S2`; the first comes to it and dispatches the occurrence again. -/
theorem not_always_dispatched_once :
    ¬ ∀ s, sweepSystem.Reachable s → s.dispatches.Nodup := by
  intro hall
  obtain ⟨s, hreach, hs⟩ := Transition.exists_reachable_guarded (M := sweepSystem)
    (C := fun _ a => a.isSweep = true) (fun _ _ _ hok h => ⟨h, hok⟩) twoDue_init
    (.startSweep :: List.replicate 7 (.advance 0 {}) ++ .startSweep ::
      List.replicate 7 (.advance 1 {}) ++ List.replicate 5 (.advance 0 { batch := some "B" }))
    (fun s => s.dispatches = [("S1", 0), ("S2", 1), ("S2", 1)]) (by decide +kernel)
  have hnodup := hall s hreach
  rw [of_decide_eq_true hs] at hnodup
  exact absurd hnodup (by decide)

end WorkflowBoard.Qa
