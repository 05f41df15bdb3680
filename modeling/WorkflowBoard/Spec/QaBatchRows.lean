import WorkflowBoard.ForStd.List
import WorkflowBoard.Native.QaBatches

/-!
# The row of a batch and its runs

What the walk of a batch makes of its entity: an entity on its way at an index (`Walk`), a batch
at a run of its index (`Live`), and a batch as a dispatch or a run leaves it (`Settled`), each
with what the runs before that index have come to.
-/

namespace WorkflowBoard.Qa

/-! ## The list of runs of a batch -/

namespace QaRunBatch

variable {b : QaRunBatch} {i j : Nat} {id : Option Nat}

theorem runAt_setRunAt_self : (b.setRunAt i id).runAt i = id := by
  have hlt : i < (b.run_ids ++ List.replicate (i + 1 - b.run_ids.length) none).length := by
    rw [List.length_append, List.length_replicate]
    omega
  unfold runAt setRunAt
  rw [List.getElem?_set_self hlt, Option.join_some]

theorem runAt_setRunAt_other (hij : i ≠ j) : (b.setRunAt i id).runAt j = b.runAt j := by
  unfold runAt setRunAt
  dsimp only
  rw [List.getElem?_set_ne hij]
  by_cases hj : j < b.run_ids.length
  · rw [List.getElem?_append_left hj]
  · rw [List.getElem?_append_right (by omega), List.getElem?_replicate,
      List.getElem?_eq_none (by omega)]
    split <;> rfl

end QaRunBatch

/-! ## Runs -/

section Runs

variable {runs runs' : List BatchRun} {i run : Nat} {status : QaRunStatus}

/-- Each run is one of an index before `i`, and has ended. -/
def Over (runs : List BatchRun) (i : Nat) : Prop :=
  ∀ r ∈ runs, r.batch_index < i ∧ r.status.isTerminal = true

/-- `run` is the run of index `i`; the others are over. -/
structure At (runs : List BatchRun) (i run : Nat) : Prop where
  here : ∃ r, runs[run]? = some r ∧ r.batch_index = i
  others : ∀ (j : Nat) (r : BatchRun), runs[j]? = some r → j ≠ run →
    r.batch_index < i ∧ r.status.isTerminal = true

/-- The run has ended. -/
def Ended (runs : List BatchRun) (run : Nat) : Prop :=
  ∃ r, runs[run]? = some r ∧ r.status.isTerminal = true

/-- The runs stay where they are, with the index they have, and a run that has ended stays so. -/
structure Onward (runs runs' : List BatchRun) : Prop where
  forth : ∀ (j : Nat) (r : BatchRun), runs[j]? = some r → ∃ r', runs'[j]? = some r' ∧
    r'.batch_index = r.batch_index ∧ (r.status.isTerminal = true → r'.status.isTerminal = true)
  back : ∀ (j : Nat) (r' : BatchRun), runs'[j]? = some r' → ∃ r, runs[j]? = some r ∧
    r'.batch_index = r.batch_index ∧ (r.status.isTerminal = true → r'.status.isTerminal = true)

/-- A status that ends the run, or leaves one ended that has. -/
theorem onward_setStatus
    (h : ∀ r, runs[run]? = some r → r.status.isTerminal = true → status.isTerminal = true) :
    Onward runs (runs.modify run fun r => { r with status }) := by
  refine ⟨fun j r hj => ?_, fun j r' hj => ?_⟩
  · by_cases hrun : run = j
    · subst hrun
      exact ⟨_, getElem?_modify_self hj, rfl, h r hj⟩
    · exact ⟨r, by rw [getElem?_modify_other hrun, hj], rfl, id⟩
  · rcases getElem?_modify_cases hj with ⟨rfl, r, hr, rfl⟩ | ⟨_, hr⟩
    · exact ⟨r, hr, rfl, h r hr⟩
    · exact ⟨r', hr, rfl, id⟩

theorem ended_modify_other {f : BatchRun → BatchRun} {other : Nat}
    (h : Ended (runs.modify run f) other) (hne : run ≠ other) : Ended runs other := by
  obtain ⟨r, hr, hterm⟩ := h
  rw [getElem?_modify_other hne] at hr
  exact ⟨r, hr, hterm⟩

theorem Over.onward (h : Over runs i) (ho : Onward runs runs') : Over runs' i := by
  intro r' hr'
  obtain ⟨j, hj⟩ := List.getElem?_of_mem hr'
  obtain ⟨r, hr, hindex, hended⟩ := ho.back j r' hj
  obtain ⟨hlt, hterm⟩ := h r (List.mem_of_getElem? hr)
  exact ⟨by omega, hended hterm⟩

theorem At.onward (h : At runs i run) (ho : Onward runs runs') : At runs' i run := by
  refine ⟨?_, fun j r' hj hne => ?_⟩
  · obtain ⟨r, hr, hi⟩ := h.here
    obtain ⟨r', hr', hindex, _⟩ := ho.forth run r hr
    exact ⟨r', hr', hindex.trans hi⟩
  · obtain ⟨r, hr, hindex, hended⟩ := ho.back j r' hj
    obtain ⟨hlt, hterm⟩ := h.others j r hr hne
    exact ⟨by omega, hended hterm⟩

theorem Ended.onward (h : Ended runs run) (ho : Onward runs runs') : Ended runs' run := by
  obtain ⟨r, hr, hterm⟩ := h
  obtain ⟨r', hr', _, hended⟩ := ho.forth run r hr
  exact ⟨r', hr', hended hterm⟩

theorem Ended.append (h : Ended runs run) (more : List BatchRun) : Ended (runs ++ more) run := by
  obtain ⟨r, hr, hterm⟩ := h
  exact ⟨r, by rw [List.getElem?_append_left (lt_of_getElem? hr), hr], hterm⟩

theorem Over.mono {j : Nat} (h : Over runs i) (hij : i ≤ j) : Over runs j :=
  fun r hr => ⟨by have := (h r hr).1; omega, (h r hr).2⟩

theorem Over.insert (h : Over runs i) : At (runs ++ [⟨i, .running⟩]) i runs.length := by
  refine ⟨⟨⟨i, .running⟩, by simp, rfl⟩, fun j r hj hne => ?_⟩
  rcases getElem?_append_cases hj with hold | ⟨heq, _⟩
  · exact h r (List.mem_of_getElem? hold)
  · exact absurd heq hne

theorem At.isOver (h : At runs i run) (hended : Ended runs run) : Over runs (i + 1) := by
  intro r hr
  obtain ⟨j, hj⟩ := List.getElem?_of_mem hr
  obtain ⟨r₀, hr₀, hi⟩ := h.here
  obtain ⟨r₁, hr₁, hterm⟩ := hended
  by_cases hne : j = run
  · subst hne
    have h₀ : r₀ = r := Option.some.inj (hr₀.symm.trans hj)
    have h₁ : r₁ = r := Option.some.inj (hr₁.symm.trans hj)
    subst h₀ h₁
    exact ⟨by omega, hterm⟩
  · have := h.others j r hj hne
    exact ⟨by omega, this.2⟩

end Runs

/-! ## Entities -/

section Entities

variable {ids : List String} {b b' : QaRunBatch} {i : Nat} {runs runs' : List BatchRun}

/-- The results of a batch. -/
def QaRunBatch.results (b : QaRunBatch) : Nat := b.passed + b.failed + b.errored

/-- The run that a batch waits for. -/
def waitsFor (b : QaRunBatch) : Option Nat :=
  if b.status = .running then b.runAt b.current_index else none

/-- An entity on its way at index `i`: each index before it has counted. -/
structure Walk (ids : List String) (b : QaRunBatch) (i : Nat) : Prop where
  scenarios : b.scenario_ids = ids
  stop : b.stop_on_fail = false
  status : b.status = .running
  results : b.results = i
  later : ∀ j, i ≤ j → b.runAt j = none

/-- A batch at a run of its current index. -/
structure Live (ids : List String) (b : QaRunBatch) (run : Nat) : Prop where
  scenarios : b.scenario_ids = ids
  stop : b.stop_on_fail = false
  status : b.status = .running
  results : b.results = b.current_index
  current : b.current_index < ids.length
  runAt : b.runAt b.current_index = some run
  later : ∀ j, b.current_index < j → b.runAt j = none

/-- A batch as a dispatch or a run leaves it. -/
inductive Settled (ids : List String) (b : QaRunBatch) (runs : List BatchRun) : Prop where
  /-- The current index waits for a dispatch. -/
  | parked (walk : Walk ids b b.current_index) (current : b.current_index < ids.length)
      (done : Over runs b.current_index)
  | live (run : Nat) (live : Live ids b run) (here : At runs b.current_index run)
  | done (scenarios : b.scenario_ids = ids) (status : b.status = .done)
      (results : b.results = ids.length) (ended : ∀ r ∈ runs, r.status.isTerminal = true)

theorem ended_onward (h : ∀ r ∈ runs, r.status.isTerminal = true) (ho : Onward runs runs') :
    ∀ r ∈ runs', r.status.isTerminal = true := by
  intro r' hr'
  obtain ⟨j, hj⟩ := List.getElem?_of_mem hr'
  obtain ⟨r, hr, _, hended⟩ := ho.back j r' hj
  exact hended (h r (List.mem_of_getElem? hr))

/-- The runs of a batch that goes on are settled. -/
theorem Settled.onward (h : Settled ids b runs) (ho : Onward runs runs') :
    Settled ids b runs' := by
  cases h with
  | parked walk current done => exact .parked walk current (done.onward ho)
  | live run live here => exact .live run live (here.onward ho)
  | done scenarios status results ended =>
    exact .done scenarios status results (ended_onward ended ho)

/-- A run that is skipped is one turn of the walk. -/
theorem Walk.skip (h : Walk ids b i) (current : Nat) :
    Walk ids ({ b with current_index := current }.skip i) (i + 1) := by
  refine ⟨h.scenarios, h.stop, h.status, ?_, fun j hj => ?_⟩
  · have hresults := h.results
    change b.passed + b.failed + b.errored = i at hresults
    change b.passed + b.failed + (b.errored + 1) = i + 1
    omega
  · change (QaRunBatch.setRunAt _ i none).runAt j = none
    rw [QaRunBatch.runAt_setRunAt_other (by omega)]
    exact h.later j (by omega)

theorem Walk.record {run : Nat} (h : Walk ids b i) (hi : i < ids.length)
    (hcurrent : b.current_index = i) : Live ids (b.setRunAt i (some run)) run := by
  refine ⟨h.scenarios, h.stop, h.status, ?_, ?_, ?_, fun j hj => ?_⟩
  · exact h.results.trans hcurrent.symm
  · exact hcurrent ▸ hi
  · change (b.setRunAt i (some run)).runAt b.current_index = some run
    rw [hcurrent]
    exact QaRunBatch.runAt_setRunAt_self
  · change b.current_index < j at hj
    rw [QaRunBatch.runAt_setRunAt_other (by omega)]
    exact h.later j (by omega)

theorem Walk.atIndex (h : Walk ids b i) (current : Nat) :
    Walk ids { b with current_index := current } i :=
  ⟨h.scenarios, h.stop, h.status, h.results, h.later⟩

/-- A batch that waits for a dispatch at its index can be dispatched again, and no other. -/
theorem wedgedAt_eq_some (h : b.wedgedAt = some i) :
    b.status = .running ∧ i = b.current_index ∧ b.runAt b.current_index = none := by
  unfold QaRunBatch.wedgedAt at h
  split at h
  · rename_i hwedged
    exact ⟨hwedged.1, (Option.some.inj h).symm, hwedged.2⟩
  · cases h

theorem wedgedAt_of_walk (h : Walk ids b b.current_index) : b.wedgedAt = some b.current_index := by
  unfold QaRunBatch.wedgedAt
  exact if_pos ⟨h.status, h.later _ (Nat.le_refl _)⟩

theorem waitsFor_of_walk (h : Walk ids b b.current_index) : waitsFor b = none := by
  unfold waitsFor
  rw [if_pos h.status]
  exact h.later _ (Nat.le_refl _)

/-- A settled batch waits for the run of its index. -/
theorem Settled.waits {run : Nat} (h : Settled ids b runs) (hwaits : waitsFor b = some run) :
    Live ids b run ∧ At runs b.current_index run := by
  cases h with
  | parked walk current _ =>
    rw [waitsFor_of_walk walk] at hwaits
    cases hwaits
  | live run' live here =>
    unfold waitsFor at hwaits
    rw [if_pos live.status, live.runAt] at hwaits
    cases hwaits
    exact ⟨live, here⟩
  | done scenarios status results ended =>
    unfold waitsFor at hwaits
    rw [if_neg (by rw [status]; decide)] at hwaits
    cases hwaits

theorem Settled.walk (h : Settled ids b runs) (hwedged : b.wedgedAt = some i) :
    Walk ids b i ∧ i < ids.length ∧ Over runs i := by
  obtain ⟨hstatus, rfl, hnone⟩ := wedgedAt_eq_some hwedged
  cases h with
  | parked walk current done => exact ⟨walk, current, done⟩
  | live run live here =>
    rw [live.runAt] at hnone
    cases hnone
  | done scenarios status results ended =>
    rw [status] at hstatus
    cases hstatus

theorem tally_results (b : QaRunBatch) (status : QaRunStatus) :
    (b.tally status).results = b.results + 1 := by
  unfold QaRunBatch.results
  cases status <;> simp only [QaRunBatch.tally] <;> omega

theorem tally_frame (b : QaRunBatch) (status : QaRunStatus) :
    (b.tally status).scenario_ids = b.scenario_ids ∧
      (b.tally status).stop_on_fail = b.stop_on_fail ∧ (b.tally status).status = b.status ∧
      (b.tally status).current_index = b.current_index ∧
      (b.tally status).run_ids = b.run_ids := by
  cases status <;> exact ⟨rfl, rfl, rfl, rfl, rfl⟩

/-- A run that ends moves the batch on, or ends it. -/
theorem Live.finalize {run : Nat} {status : QaRunStatus} {now : Date} {next : Option Nat}
    (h : Live ids b run) (here : At runs b.current_index run) (hended : Ended runs run)
    (hf : b.finalize status now = (b', next)) :
    Settled ids b' runs ∧ (∀ i, next = some i → b'.wedgedAt = some i) ∧ waitsFor b' = none := by
  obtain ⟨hids, hstop, hstatus, hcurrent, hruns⟩ := tally_frame b status
  have hresults := (tally_results b status).trans (congrArg (· + 1) h.results)
  have hover : Over runs (b.current_index + 1) := here.isOver hended
  have hlength : (b.tally status).scenario_ids.length = ids.length := by rw [hids, h.scenarios]
  unfold QaRunBatch.finalize at hf
  dsimp only at hf
  rw [if_neg (by rw [hstop, h.stop]; exact fun hand => absurd hand.1 (by decide)), hlength,
    hcurrent] at hf
  split at hf
  · rename_i hlast
    cases hf
    have hcur := h.current
    have hdone : b.results + 1 = ids.length := by
      have := h.results
      omega
    exact ⟨.done (hids.trans h.scenarios) rfl ((tally_results b status).trans hdone) fun r hr =>
      (hover r hr).2, nofun, rfl⟩
  · rename_i hmore
    cases hf
    have hlater : ∀ j, b.current_index + 1 ≤ j → (b.tally status).runAt j = none := by
      intro j hj
      have hnone := h.later j (by omega)
      unfold QaRunBatch.runAt at hnone ⊢
      rw [hruns]
      exact hnone
    have hwalk : Walk ids { b.tally status with current_index := b.current_index + 1 }
        (b.current_index + 1) :=
      ⟨hids.trans h.scenarios, hstop.trans h.stop, hstatus.trans h.status, hresults, hlater⟩
    refine ⟨.parked hwalk (by dsimp only; omega) hover, fun i hi => ?_, waitsFor_of_walk hwalk⟩
    cases hi
    exact wedgedAt_of_walk hwalk

/-- The end of a walk whose last dispatches failed. -/
theorem Walk.walkedOff (h : Walk ids b ids.length) (hover : Over runs ids.length) (now : Date) :
    Settled ids (b.walkedOff now) runs :=
  .done h.scenarios rfl h.results fun r hr => (hover r hr).2

end Entities

end WorkflowBoard.Qa
