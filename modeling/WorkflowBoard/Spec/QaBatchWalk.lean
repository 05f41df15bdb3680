import WorkflowBoard.ForStd.Except
import WorkflowBoard.Spec.QaBatchRows

/-!
# The walk of a batch

The dispatch of a batch and the run that ends write the same row, each from an entity of its
own. When a run ends while the dispatch that started it is in progress, the batch is moved on
behind the dispatcher's back, the next dispatch is dropped, and the dispatcher then saves its
entity over that: the batch stays at a run that has ended. As long as such a run waits for the
dispatch, one run is finalised at a time, and a dispatch enters with the batch as it is, the
batch is walked: each index is run at most once, one after the other, and each counts once.
-/

namespace WorkflowBoard.Qa

def BatchDispatch.isLeaving : BatchDispatch → Bool
  | .leaving => true
  | _ => false

namespace BatchCall

/-- `onRunFinalized` is about to save the batch. -/
def isAdvancing : BatchCall → Bool
  | .selecting .. | .saving .. => true
  | _ => false

/-- `onRunFinalized` has been or is going to be called, and has not returned. -/
def isWorking : BatchCall → Bool
  | .completed _ | .finalising .. | .selecting .. | .saving .. => true
  | _ => false

end BatchCall

namespace BatchState

/-- No dispatch of the batch and no finalisation of its runs is in progress. -/
def isIdle (s : BatchState) : Bool := s.dispatch.isNone && s.calls.all (!·.isWorking)

/-- `resumeWedgedBatch` would dispatch the batch. -/
def accepts (s : BatchState) : Bool := s.dispatch.isNone && s.row.any (·.wedgedAt.isSome)

/-- The laws of the walk. -/
structure WalkOk (s : BatchState) : Prop where
  once : ∀ i, s.runs.countP (·.batch_index = i) ≤ 1
  single : s.runs.countP (!·.status.isTerminal) ≤ 1
  resumable : s.isIdle = true → ∀ b, s.row = some b →
    (∀ i run r, b.runAt i = some run → s.runs[run]? = some r → r.status.isTerminal = true) →
    b.status = .done ∨ s.accepts = true
  total : ∀ b, s.row = some b → b.status = .done →
    b.passed + b.failed + b.errored = b.scenario_ids.length

/-- `onRunFinalized` may read the batch: the run is one that the batch has gone past, or no
    dispatch is in progress but one that is leaving, and no other run of the index is being
    finalised. -/
def mayRead (s : BatchState) (run : Nat) : Bool :=
  match s.row, s.runs[run]? with
  | some b, some r =>
    b.status ≠ .running || r.batch_index < b.current_index ||
      (s.dispatch.all (·.isLeaving) &&
        (r.batch_index ≠ b.current_index || s.calls.all (!·.isAdvancing)))
  | _, _ => true

/-- A run ends with a result that ends it and is finalised in its turn, and a dispatch that
    enters holds the batch as it is. -/
def orderly (s : BatchState) : BatchAction → Bool
  | .complete _ status => status.isTerminal
  | .call _ k =>
    match s.calls[k]? with
    | some (.finalising run _) => s.mayRead run
    | some (.entering batch _ _) => s.dispatch.isSome || s.row = some batch
    | _ => true
  | _ => true

end BatchState

/-! ## States -/

namespace BatchState

section Invariant

variable {ids : List String} {s s' : BatchState} {k : Nat} {c c' : BatchCall}

/-- The row is that of a running batch, not past index `i`. -/
def Held (ids : List String) (s : BatchState) (i : Nat) : Prop :=
  ∃ b, s.row = some b ∧ b.status = .running ∧ b.current_index ≤ i ∧ b.current_index < ids.length

/-- No dispatch is in progress, or one that has saved the batch. -/
def AtRest (s : BatchState) : Prop := s.dispatch = none ∨ s.dispatch = some .leaving

/-- What is read of the status of a run is not more than what it is. -/
def Seen (runs : List BatchRun) (run : Nat) (reread : Option QaRunStatus) : Prop :=
  ∀ status, reread = some status → status.isTerminal = true → Ended runs run

/-- Where the batch stands. While a dispatch is in progress, it is the entity of the dispatch
    that goes on, and the row stays as it is. -/
def StageOk (ids : List String) (s : BatchState) : Option BatchDispatch → Prop
  | none | some .leaving =>
    (∀ b, s.row = some b → Settled ids b s.runs) ∧
      (s.row = none → ∀ r ∈ s.runs, r.status.isTerminal = true)
  | some (.starting e i _) =>
    s.Held ids i ∧ Walk ids e i ∧ i ≤ ids.length ∧ Over s.runs i
  | some (.sending e i _ run) =>
    s.Held ids i ∧ Walk ids e i ∧ i < ids.length ∧ e.current_index = i ∧ At s.runs i run
  | some (.unsent e i _ run reread) =>
    s.Held ids i ∧ Walk ids e i ∧ i < ids.length ∧ At s.runs i run ∧ Seen s.runs run reread
  | some (.selecting e) => s.Held ids e.current_index ∧ Settled ids e s.runs
  | some (.saving e reread) =>
    s.Held ids e.current_index ∧ Settled ids e s.runs ∧ reread = s.row
  | some .deleting => s.Held ids ids.length ∧ ∀ r ∈ s.runs, r.status.isTerminal = true

/-- `onRunFinalized` holds what it has made of the row, which has stayed as it was. -/
def Advancing (s : BatchState) (e : QaRunBatch) (next : Option Nat) : Prop :=
  s.AtRest ∧ ∃ b run status now, s.row = some b ∧ b.status = .running ∧
    b.runAt b.current_index = some run ∧ Ended s.runs run ∧ b.finalize status now = (e, next)

/-- What a call holds. -/
def CallOk (s : BatchState) : BatchCall → Prop
  | .entering e index _ => e.wedgedAt = some index
  | .resuming => True
  | .reaping run reread => Seen s.runs run reread
  | .completed run => Ended s.runs run
  | .finalising run _ => Ended s.runs run
  | .selecting e next => s.Advancing e next
  | .saving e next reread => s.Advancing e next ∧ reread = s.row
  | .finished => True

def live (s : BatchState) : Option BatchDispatch → Option Nat
  | none | some .leaving => s.row.bind waitsFor
  | some (.sending _ _ _ run) => some run
  | some (.selecting e) => waitsFor e
  | some (.saving e _) => waitsFor e
  | some (.starting ..) | some (.unsent ..) | some .deleting => none

/-- The call is about to finalise the run, or saves the batch behind that. -/
def handles (run : Nat) : BatchCall → Bool
  | .completed r | .finalising r _ => r = run
  | .selecting .. | .saving .. => true
  | _ => false

structure WalkInv (ids : List String) (s : BatchState) : Prop where
  once : (s.runs.map (·.batch_index)).Nodup
  stage : s.StageOk ids s.dispatch
  calls : ∀ (k : Nat) (c : BatchCall), s.calls[k]? = some c → s.CallOk c
  alone : ∀ (j k : Nat) (c c' : BatchCall), s.calls[j]? = some c → s.calls[k]? = some c' →
    c.isAdvancing = true → c'.isAdvancing = true → j = k
  /-- A run that the batch waits for and that has ended is going to be finalised. -/
  pending : ∀ run, s.live s.dispatch = some run → Ended s.runs run →
    ∃ c ∈ s.calls, handles run c = true

/-! ## Runs that go on -/

variable {reread : Option QaRunStatus} {run : Nat} {status : QaRunStatus} {r : BatchRun}
  {next : Option Nat} {now : Date} {e : QaRunBatch} {t : Bool} {d : BatchDispatch}
  {fate : StartFate}

theorem Seen.onward {runs runs' : List BatchRun}
    (h : Seen runs run reread) (ho : Onward runs runs') : Seen runs' run reread :=
  fun status hstatus hterm => (h status hstatus hterm).onward ho

theorem StageOk.onward {d : Option BatchDispatch} (h : s.StageOk ids d)
    (ho : Onward s.runs s'.runs) (hrow : s'.row = s.row) : s'.StageOk ids d := by
  have hheld : ∀ {i}, s.Held ids i → s'.Held ids i := fun hr => by
    unfold Held at hr ⊢
    rw [hrow]
    exact hr
  have hrest : (∀ b, s.row = some b → Settled ids b s.runs) ∧
      (s.row = none → ∀ r ∈ s.runs, r.status.isTerminal = true) →
      (∀ b, s'.row = some b → Settled ids b s'.runs) ∧
      (s'.row = none → ∀ r ∈ s'.runs, r.status.isTerminal = true) := by
    rintro ⟨hsettled, hgone⟩
    rw [hrow]
    exact ⟨fun b hb => (hsettled b hb).onward ho, fun hnone => ended_onward (hgone hnone) ho⟩
  cases d with
  | none => exact hrest h
  | some d =>
    cases d with
    | starting e i t => exact ⟨hheld h.1, h.2.1, h.2.2.1, h.2.2.2.onward ho⟩
    | sending e i t run =>
      exact ⟨hheld h.1, h.2.1, h.2.2.1, h.2.2.2.1, h.2.2.2.2.onward ho⟩
    | unsent e i t run reread =>
      exact ⟨hheld h.1, h.2.1, h.2.2.1, h.2.2.2.1.onward ho, h.2.2.2.2.onward ho⟩
    | selecting e => exact ⟨hheld h.1, h.2.onward ho⟩
    | saving e reread => exact ⟨hheld h.1, h.2.1.onward ho, h.2.2.trans hrow.symm⟩
    | deleting => exact ⟨hheld h.1, ended_onward h.2 ho⟩
    | leaving => exact hrest h

/-- A call keeps what it holds, as long as the runs go on and the batch is left alone where
    the call is about to save it. -/
theorem CallOk.frame (h : s.CallOk c) (hended : ∀ run, Ended s.runs run → Ended s'.runs run)
    (hrow : c.isAdvancing = true → s'.row = s.row)
    (hrest : c.isAdvancing = true → s.AtRest → s'.AtRest) : s'.CallOk c := by
  have hadv : ∀ e next, c.isAdvancing = true → s.Advancing e next → s'.Advancing e next := by
    rintro e next hc ⟨hatrest, b, run, status, now, hb, hstatus, hrun, hend, hf⟩
    refine ⟨hrest hc hatrest, b, run, status, now, ?_, hstatus, hrun, hended run hend, hf⟩
    rw [hrow hc]
    exact hb
  cases c with
  | entering e index t => exact h
  | resuming => trivial
  | reaping run reread => exact fun status hstatus hterm => hended run (h status hstatus hterm)
  | completed run => exact hended run h
  | finalising run status => exact hended run h
  | selecting e next => exact hadv e next rfl h
  | saving e next reread => exact ⟨hadv e next rfl h.1, h.2.trans (hrow rfl).symm⟩
  | finished => trivial

/-- The batch does not change while somebody is about to save it, so no dispatch is in progress. -/
theorem CallOk.atRest (h : s.CallOk c) (hadv : c.isAdvancing = true) : s.AtRest := by
  cases c with
  | selecting e next => exact h.1
  | saving e next reread => exact h.1.1
  | _ => cases hadv

/-! ## Steps of a call alone -/

theorem WalkInv.setCall (h : WalkInv ids s) (hk : s.calls[k]? = some c) (hc : s.CallOk c')
    (halone : c'.isAdvancing = true →
      ∀ (j : Nat) (d : BatchCall), s.calls[j]? = some d → d.isAdvancing = true → j = k)
    (hhandles : ∀ run, s.live s.dispatch = some run → handles run c = true →
      handles run c' = true) : WalkInv ids (s.setCall k c') := by
  refine ⟨h.once, h.stage, fun j d hj => ?_, fun i j d d' hi hj hd hd' => ?_,
    fun run hlive hend => ?_⟩
  · rcases getElem?_set_cases hj with ⟨rfl, rfl⟩ | ⟨_, hj⟩
    · exact hc
    · exact h.calls j d hj
  · rcases getElem?_set_cases hi with ⟨rfl, rfl⟩ | ⟨_, hi₀⟩
    · rcases getElem?_set_cases hj with ⟨rfl, rfl⟩ | ⟨_, hj₀⟩
      · rfl
      · exact (halone hd j d' hj₀ hd').symm
    · rcases getElem?_set_cases hj with ⟨rfl, rfl⟩ | ⟨_, hj₀⟩
      · exact halone hd' i d hi₀ hd
      · exact h.alone i j d d' hi₀ hj₀ hd hd'
  · obtain ⟨d, hd, hhandle⟩ := h.pending run hlive hend
    obtain ⟨j, hj⟩ := List.getElem?_of_mem hd
    by_cases hkj : k = j
    · subst hkj
      obtain rfl : c = d := Option.some.inj (hk.symm.trans hj)
      exact ⟨c', List.mem_set (lt_of_getElem? hk) c', hhandles run hlive hhandle⟩
    · exact ⟨d, List.mem_of_getElem? (by
        change (s.calls.set k c')[j]? = some d
        rw [List.getElem?_set_ne hkj, hj]), hhandle⟩

theorem WalkInv.addCall (h : WalkInv ids s) (hc : s.CallOk c) (hadv : c.isAdvancing = false) :
    WalkInv ids { s with calls := s.calls ++ [c] } := by
  refine ⟨h.once, h.stage, fun j d hj => ?_, fun i j d d' hi hj hd hd' => ?_,
    fun run hlive hend => ?_⟩
  · rcases getElem?_append_cases hj with hj | ⟨_, rfl⟩
    · exact h.calls j d hj
    · exact hc
  · rcases getElem?_append_cases hi with hi | ⟨_, rfl⟩
    · rcases getElem?_append_cases hj with hj | ⟨_, rfl⟩
      · exact h.alone i j d d' hi hj hd hd'
      · rw [hadv] at hd'
        cases hd'
    · rw [hadv] at hd
      cases hd
  · obtain ⟨d, hd, hhandle⟩ := h.pending run hlive hend
    exact ⟨d, List.mem_append_left _ hd, hhandle⟩

/-! ## Steps of a call that write a status -/

theorem map_index_setStatus (run : Nat) (status : QaRunStatus) :
    ((s.setStatus run status).runs.map (·.batch_index)) = s.runs.map (·.batch_index) := by
  refine List.ext_getElem? fun j => ?_
  rw [List.getElem?_map, List.getElem?_map]
  change ((s.runs.modify run _)[j]?).map _ = _
  rw [List.getElem?_modify]
  cases s.runs[j]? with
  | none => rfl
  | some r => by_cases hrun : run = j <;> simp [hrun]

/-- The status of a run is written, and one call begins or goes on. -/
theorem WalkInv.setStatus {calls : List BatchCall} (h : WalkInv ids s)
    (hstatus : ∀ r, s.runs[run]? = some r → r.status.isTerminal = true → status.isTerminal = true)
    (hcalls : ∀ (j : Nat) (d : BatchCall), calls[j]? = some d → s.calls[j]? = some d ∨
      d.isAdvancing = false ∧ (s.setStatus run status).CallOk d)
    (hpending : s.live s.dispatch = some run → ∃ d ∈ calls, handles run d = true)
    (hkept : ∀ other d, d ∈ s.calls → handles other d = true → d ∈ calls) :
    WalkInv ids { s.setStatus run status with calls } := by
  have ho : Onward s.runs (s.setStatus run status).runs := onward_setStatus hstatus
  refine ⟨?_, h.stage.onward ho rfl, fun j d hj => ?_, fun i j d d' hi hj hd hd' => ?_,
    fun other hlive hend => ?_⟩
  · change ((s.setStatus run status).runs.map (·.batch_index)).Nodup
    rw [map_index_setStatus]
    exact h.once
  · rcases hcalls j d hj with hold | ⟨hadv, hok⟩
    · exact (h.calls j d hold).frame (fun r hr => hr.onward ho) (fun _ => rfl) fun _ hrest => hrest
    · exact hok.frame (fun _ hr => hr) (fun _ => rfl) fun _ hrest => hrest
  · have hold : ∀ (j : Nat) (d : BatchCall), calls[j]? = some d → d.isAdvancing = true →
        s.calls[j]? = some d := by
      intro j d hj hd
      rcases hcalls j d hj with hold | ⟨hadv, _⟩
      · exact hold
      · rw [hadv] at hd
        cases hd
    exact h.alone i j d d' (hold i d hi hd) (hold j d' hj hd') hd hd'
  · by_cases hrun : run = other
    · subst hrun
      exact hpending hlive
    · obtain ⟨d, hd, hhandle⟩ := h.pending other hlive (ended_modify_other hend hrun)
      exact ⟨d, hkept other d hd hhandle, hhandle⟩

theorem WalkInv.complete (h : WalkInv ids s)
    (hrun : ∃ r, s.runs[run]? = some r) (hstatus : status.isTerminal = true) :
    WalkInv ids { s.setStatus run status with calls := s.calls ++ [.completed run] } := by
  refine h.setStatus (fun _ _ _ => hstatus) (fun j d hj => ?_) (fun _ => ⟨.completed run, ?_⟩)
    fun other d hd _ => List.mem_append_left _ hd
  · rcases getElem?_append_cases hj with hold | ⟨_, rfl⟩
    · exact .inl hold
    · obtain ⟨r, hr⟩ := hrun
      exact .inr ⟨rfl, _, getElem?_modify_self hr, hstatus⟩
  · exact ⟨List.mem_append_right _ (List.mem_singleton.mpr rfl), by simp [handles]⟩

/-- What a save of an error leaves of the status of a run that may have ended meanwhile. -/
theorem error_isTerminal {reread : QaRunStatus}
    (h : Seen s.runs run (some reread)) (hr : s.runs[run]? = some r) :
    (saveColumn .error reread r.status).isTerminal = true := by
  by_cases heq : QaRunStatus.error = reread
  · rw [saveColumn_of_eq heq]
    obtain ⟨r', hr', hterm⟩ := h reread rfl (heq ▸ rfl)
    obtain rfl : r' = r := Option.some.inj (hr'.symm.trans hr)
    exact hterm
  · rw [saveColumn_of_ne heq]
    rfl

theorem WalkInv.reap {reread : QaRunStatus} (h : WalkInv ids s)
    (hk : s.calls[k]? = some (.reaping run (some reread))) (hr : s.runs[run]? = some r) :
    WalkInv ids ((s.setStatus run (saveColumn .error reread r.status)).setCall k
      (.finalising run .error)) := by
  have hterm := error_isTerminal (h.calls k _ hk) hr
  refine h.setStatus (fun _ _ _ => hterm) (fun j d hj => ?_) (fun _ => ⟨.finalising run .error, ?_⟩)
    fun other d hd hhandle => ?_
  · rcases getElem?_set_cases hj with ⟨rfl, rfl⟩ | ⟨_, hold⟩
    · exact .inr ⟨rfl, _, getElem?_modify_self hr, hterm⟩
    · exact .inl hold
  · exact ⟨List.mem_set (lt_of_getElem? hk) _, by simp [handles]⟩
  · obtain ⟨j, hj⟩ := List.getElem?_of_mem hd
    -- the reaper does not finalise before it has written
    have hne : k ≠ j := by
      rintro rfl
      obtain rfl : BatchCall.reaping run (some reread) = d := Option.some.inj (hk.symm.trans hj)
      cases hhandle
    exact List.mem_of_getElem? ((List.getElem?_set_ne hne).trans hj)

/-! ## Finalisations -/

/-- A call that has not begun to save the batch goes on, and it finalises no run less. -/
theorem WalkInv.goOn (h : WalkInv ids s) (hk : s.calls[k]? = some c) (hc : s.CallOk c')
    (hadv : c'.isAdvancing = false)
    (hhandles : ∀ run, s.live s.dispatch = some run → handles run c = true →
      handles run c' = true) : WalkInv ids (s.setCall k c') := by
  refine h.setCall hk hc (fun hadvancing => ?_) hhandles
  rw [hadv] at hadvancing
  cases hadvancing

/-- A finalisation that may read the batch finds it at the run's index, if the batch waits for
    that run. -/
theorem WalkInv.finds (h : WalkInv ids s) (hmay : s.mayRead run = true)
    (hlive : s.live s.dispatch = some run) :
    ∃ b r, s.row = some b ∧ s.runs[run]? = some r ∧ b.status = .running ∧
      r.batch_index = b.current_index := by
  have hstage := h.stage
  -- a dispatch that goes on stands at or behind the index of the row, with its run at its index
  have habsurd : ∀ i, s.Held ids i → At s.runs i run →
      s.dispatch.all (·.isLeaving) = false → False := by
    rintro i ⟨b, hb, hrunning, hle, _⟩ hat hbusy
    obtain ⟨r, hr, hindex⟩ := hat.here
    unfold mayRead at hmay
    rw [hb, hr] at hmay
    dsimp only at hmay
    rw [hbusy, Bool.false_and, Bool.or_false, Bool.or_eq_true, decide_eq_true_eq,
      decide_eq_true_eq] at hmay
    rcases hmay with hstopped | hpast
    · exact hstopped hrunning
    · omega
  have hsettled : (∀ b, s.row = some b → Settled ids b s.runs) → s.row.bind waitsFor = some run →
      ∃ b r, s.row = some b ∧ s.runs[run]? = some r ∧ b.status = .running ∧
        r.batch_index = b.current_index := by
    intro hrow hwaits
    obtain ⟨b, hb, hwaits⟩ := Option.bind_eq_some_iff.mp hwaits
    obtain ⟨live, here⟩ := (hrow b hb).waits hwaits
    obtain ⟨r, hr, hindex⟩ := here.here
    exact ⟨b, r, hb, hr, live.status, hindex⟩
  generalize hd : s.dispatch = d at hstage hlive habsurd
  cases d with
  | none => exact hsettled hstage.1 hlive
  | some d =>
    cases d with
    | leaving => exact hsettled hstage.1 hlive
    | sending e i t r =>
      cases hlive
      exact (habsurd i hstage.1 hstage.2.2.2.2 rfl).elim
    | selecting e => exact (habsurd _ hstage.1 (hstage.2.waits hlive).2 rfl).elim
    | saving e reread => exact (habsurd _ hstage.1 (hstage.2.1.waits hlive).2 rfl).elim
    | _ => cases hlive

/-- A run that has ended moves on a batch that stands at its index. -/
theorem WalkInv.accept {b e : QaRunBatch} (h : WalkInv ids s)
    (hk : s.calls[k]? = some (.finalising run status)) (hmay : s.mayRead run = true)
    (hrow : s.row = some b) (hr : s.runs[run]? = some r) (hstatus : b.status = .running)
    (hindex : r.batch_index = b.current_index) (hf : b.finalize status now = (e, next)) :
    WalkInv ids (s.setCall k (.selecting e next)) := by
  unfold mayRead at hmay
  rw [hrow, hr] at hmay
  dsimp only at hmay
  rw [hindex, decide_eq_false (Nat.lt_irrefl _), decide_eq_false (fun hne => hne hstatus),
    Bool.or_false, Bool.false_or, Bool.and_eq_true, decide_eq_false (fun hne => hne rfl),
    Bool.false_or] at hmay
  obtain ⟨hleaving, hnone⟩ := hmay
  have hrest : s.AtRest := by
    cases hd : s.dispatch with
    | none => exact .inl hd
    | some d =>
      rw [hd, Option.all_some] at hleaving
      cases d with
      | leaving => exact .inr hd
      | _ => cases hleaving
  have hsettled : Settled ids b s.runs := by
    have hstage := h.stage
    rcases hrest with hd | hd
    · rw [hd] at hstage
      exact hstage.1 b hrow
    · rw [hd] at hstage
      exact hstage.1 b hrow
  have hended : Ended s.runs run := h.calls k _ hk
  have hwaits : b.runAt b.current_index = some run := by
    cases hsettled with
    | parked walk current hover =>
      have := (hover r (List.mem_of_getElem? hr)).1
      omega
    | live run' live here =>
      by_cases hsame : run = run'
      · rw [live.runAt, hsame]
      · have := (here.others run r hr hsame).1
        omega
    | done scenarios hdone results ended =>
      rw [hdone] at hstatus
      cases hstatus
  refine h.setCall hk ⟨hrest, b, run, status, now, hrow, hstatus, hwaits, hended, hf⟩
    (fun _ j d hj hd => ?_) fun _ _ _ => rfl
  have hquiet := List.all_eq_true.mp hnone d (List.mem_of_getElem? hj)
  rw [hd] at hquiet
  cases hquiet

/-! ## Saves -/

theorem save_self (e b : QaRunBatch) : e.write (some b) (some b) = some e := by
  simp only [QaRunBatch.write, QaRunBatch.save, Option.map_some, saveColumn_self]

theorem Advancing.settled (h : WalkInv ids s) (hadv : s.Advancing e next) :
    Settled ids e s.runs ∧ (∀ i, next = some i → e.wedgedAt = some i) ∧ waitsFor e = none := by
  obtain ⟨hrest, b, run, status, now, hb, hstatus, hrun, hended, hf⟩ := hadv
  have hsettled : Settled ids b s.runs := by
    have hstage := h.stage
    rcases hrest with hd | hd
    · rw [hd] at hstage
      exact hstage.1 b hb
    · rw [hd] at hstage
      exact hstage.1 b hb
  have hwaits : waitsFor b = some run := by
    unfold waitsFor
    rw [if_pos hstatus, hrun]
  obtain ⟨live, here⟩ := hsettled.waits hwaits
  exact live.finalize here hended hf

theorem WalkInv.advance {reread : Option QaRunBatch}
    (h : WalkInv ids s) (hk : s.calls[k]? = some (.saving e next reread))
    (hs : s.callNext now k (.saving e next reread) = some s') : WalkInv ids s' := by
  cases hs
  obtain ⟨hadv, rfl⟩ := h.calls k _ hk
  obtain ⟨hsettled, hnext, hwaits⟩ := Advancing.settled h hadv
  obtain ⟨hrest, b, run, status, now, hb, _⟩ := hadv
  have hrow : e.write s.row s.row = some e := by
    rw [hb]
    exact save_self e b
  rw [hrow]
  refine ⟨h.once, ?_, fun j d hj => ?_, fun i j d d' hi hj hd hd' => ?_, fun run hlive => ?_⟩
  · have hstage : (∀ b, some e = some b → Settled ids b s.runs) ∧
        (some e = none → ∀ r ∈ s.runs, r.status.isTerminal = true) :=
      ⟨fun b heq => Option.some.inj heq ▸ hsettled, nofun⟩
    change StageOk ids _ s.dispatch
    rcases hrest with hd | hd
    · rw [hd]
      exact hstage
    · rw [hd]
      exact hstage
  · rcases getElem?_set_cases hj with ⟨rfl, rfl⟩ | ⟨hne, hj₀⟩
    · cases next with
      | none => trivial
      | some index => exact hnext index rfl
    · -- no other call saves the batch
      have hother : d.isAdvancing = false := by
        cases hd : d.isAdvancing with
        | false => rfl
        | true => exact absurd (h.alone k j _ d hk hj₀ rfl hd) hne
      refine (h.calls j d hj₀).frame (fun _ hr => hr) (fun hd => ?_) fun _ hr => hr
      rw [hother] at hd
      cases hd
  · rcases getElem?_set_cases hi with ⟨rfl, rfl⟩ | ⟨_, hi₀⟩
    · cases next <;> cases hd
    · rcases getElem?_set_cases hj with ⟨rfl, rfl⟩ | ⟨_, hj₀⟩
      · cases next <;> cases hd'
      · exact h.alone i j d d' hi₀ hj₀ hd hd'
  · have hnone : ∀ d, s.dispatch = d → d = none ∨ d = some .leaving →
        live { s with row := some e } d = none := by
      rintro d _ (rfl | rfl)
      · exact hwaits
      · exact hwaits
    change live { s with row := some e } s.dispatch = some run at hlive
    rw [hnone _ rfl hrest] at hlive
    cases hlive

theorem WalkInv.enter {i : Nat} (h : WalkInv ids s)
    (hk : s.calls[k]? = some (.entering e i t)) (hrow : s.row = some e)
    (hnone : s.dispatch = none) :
    WalkInv ids { s.setCall k .finished with dispatch := some (.starting e i t) } := by
  have hwedged : e.wedgedAt = some i := h.calls k _ hk
  have hstage := h.stage
  rw [hnone] at hstage
  obtain ⟨hwalk, hi, hover⟩ := (hstage.1 e hrow).walk hwedged
  obtain ⟨hstatus, hcurrent, hnorun⟩ := wedgedAt_eq_some hwedged
  have hquiet : ∀ (j : Nat) (d : BatchCall), s.calls[j]? = some d → d.isAdvancing = false := by
    have habsurd : ∀ e' next, s.Advancing e' next → False := by
      rintro e' next ⟨_, b, run, _, _, hb, _, hrun, _, _⟩
      obtain rfl : e = b := Option.some.inj (hrow.symm.trans hb)
      rw [hnorun] at hrun
      cases hrun
    intro j d hj
    have hok := h.calls j d hj
    cases d with
    | selecting e' next => exact (habsurd e' next hok).elim
    | saving e' next reread => exact (habsurd e' next hok.1).elim
    | _ => rfl
  have hset : WalkInv ids (s.setCall k .finished) := by
    refine h.goOn hk trivial rfl fun run hlive hhandle => ?_
    cases hhandle
  refine ⟨h.once, ⟨⟨e, hrow, hstatus, hcurrent.ge, hcurrent ▸ hi⟩, hwalk, hi.le, hover⟩,
    fun j d hj => ?_, hset.alone, nofun⟩
  refine (hset.calls j d hj).frame (fun _ hr => hr) (fun _ => rfl) fun hadv => ?_
  rcases getElem?_set_cases hj with ⟨rfl, rfl⟩ | ⟨_, hj₀⟩
  · cases hadv
  · rw [hquiet j d hj₀] at hadv
    cases hadv

/-! ## Steps of the dispatch -/

/-- The dispatch goes on: nobody else is about to save the batch. -/
theorem WalkInv.goesOn (h : WalkInv ids s) (hd : s.dispatch = some d)
    (hbusy : d.isLeaving = false) (hcalls : s'.calls = s.calls)
    (honce : (s'.runs.map (·.batch_index)).Nodup)
    (hended : ∀ run, Ended s.runs run → Ended s'.runs run)
    (hstage : s'.StageOk ids s'.dispatch)
    (hpending : ∀ run, s'.live s'.dispatch = some run → Ended s'.runs run →
      s.live s.dispatch = some run ∧ Ended s.runs run) : WalkInv ids s' := by
  refine ⟨honce, hstage, fun j c hj => ?_, ?_, fun run hlive hend => ?_⟩
  · rw [hcalls] at hj
    have hquiet : c.isAdvancing = false := by
      cases hadv : c.isAdvancing with
      | false => rfl
      | true =>
        rcases (h.calls j c hj).atRest hadv with hnone | hleaving
        · rw [hd] at hnone
          cases hnone
        · rw [hd] at hleaving
          cases hleaving
          cases hbusy
    refine (h.calls j c hj).frame hended (fun hadv => ?_) fun hadv => ?_
    · rw [hquiet] at hadv
      cases hadv
    · rw [hquiet] at hadv
      cases hadv
  · rw [hcalls]
    exact h.alone
  · obtain ⟨hlive₀, hend₀⟩ := hpending run hlive hend
    rw [hcalls]
    exact h.pending run hlive₀ hend₀

theorem Held.mono {i j : Nat} (h : s.Held ids i) (hij : i ≤ j) : s.Held ids j := by
  obtain ⟨b, hb, hstatus, hle, hlt⟩ := h
  exact ⟨b, hb, hstatus, hle.trans hij, hlt⟩

section

variable (h : WalkInv ids s)
include h

theorem WalkInv.start {i : Nat} (hd : s.dispatch = some (.starting e i t))
    (hs : s.dispatchNext fate now (.starting e i t) = some s') : WalkInv ids s' := by
  have hstage := h.stage
  rw [hd] at hstage
  obtain ⟨hheld, hwalk, hi, hover⟩ := hstage
  unfold BatchState.dispatchNext at hs
  dsimp only at hs
  split at hs
  · rename_i hlt
    rw [hwalk.scenarios] at hlt
    split at hs
    · -- the run is inserted
      cases hs
      refine h.goesOn hd rfl rfl ?_ (fun run hr => hr.append _)
        ⟨hheld, hwalk.atIndex i, hlt, rfl, hover.insert⟩ fun run hlive hend => ?_
      · change ((s.runs ++ [BatchRun.mk i .running]).map (·.batch_index)).Nodup
        rw [List.map_append, List.map_singleton, List.nodup_append]
        refine ⟨h.once, List.nodup_singleton _, fun x hx y hy => ?_⟩
        obtain ⟨r, hr, rfl⟩ := List.mem_map.mp hx
        rw [List.mem_singleton.mp hy]
        exact Nat.ne_of_lt (hover r hr).1
      · cases hlive
        obtain ⟨r, hr, hterm⟩ := hend
        change (s.runs ++ [BatchRun.mk i .running])[s.runs.length]? = some r at hr
        rw [List.getElem?_append_right (Nat.le_refl _), Nat.sub_self] at hr
        cases hr
        cases hterm
    · cases hs
      have hat : Walk ids { e with current_index := i } i := hwalk.atIndex i
      cases t with
      | true =>
        exact h.goesOn hd rfl rfl h.once (fun _ hr => hr)
          ⟨hheld.mono hi, fun r hr => (hover r hr).2⟩ fun run hlive _ => by cases hlive
      | false =>
        refine h.goesOn hd rfl rfl h.once (fun _ hr => hr)
          ⟨hheld, .parked hat hlt hover⟩ fun run hlive _ => ?_
        change waitsFor { e with current_index := i } = some run at hlive
        rw [waitsFor_of_walk hat] at hlive
        cases hlive
    · cases hs
      exact h.goesOn hd rfl rfl h.once (fun _ hr => hr)
        ⟨hheld.mono (Nat.le_succ i), hwalk.skip i, hlt, hover.mono (Nat.le_succ i)⟩
        fun run hlive _ => by cases hlive
  · rename_i hlast
    rw [hwalk.scenarios] at hlast
    obtain rfl : i = ids.length := by omega
    cases hs
    refine h.goesOn hd rfl rfl h.once (fun _ hr => hr) ⟨?_, hwalk.walkedOff hover now⟩
      fun run hlive _ => by cases hlive
    obtain ⟨b, hb, hstatus, _, hlt⟩ := hheld
    refine ⟨b, hb, hstatus, ?_, hlt⟩
    change b.current_index ≤ e.scenario_ids.length - 1
    rw [hwalk.scenarios]
    omega

theorem WalkInv.send {i run : Nat} (hd : s.dispatch = some (.sending e i t run))
    (hs : s.dispatchNext fate now (.sending e i t run) = some s') : WalkInv ids s' := by
  have hstage := h.stage
  rw [hd] at hstage
  obtain ⟨hheld, hwalk, hi, hcurrent, hat⟩ := hstage
  cases fate with
  | goesOn =>
    cases hs
    have hlive : Live ids (e.setRunAt i (some run)) run := hwalk.record hi hcurrent
    have hindex : (e.setRunAt i (some run)).current_index = i := hcurrent
    refine h.goesOn hd rfl rfl h.once (fun _ hr => hr)
      ⟨hindex ▸ hheld, .live run hlive (hindex ▸ hat)⟩ fun other hwaits hend => ⟨?_, hend⟩
    change waitsFor (e.setRunAt i (some run)) = some other at hwaits
    unfold waitsFor at hwaits
    rw [if_pos hlive.status, hlive.runAt] at hwaits
    rw [hd]
    exact hwaits
  | budget => cases hs
  | fails =>
    cases hs
    exact h.goesOn hd rfl rfl h.once (fun _ hr => hr)
      ⟨hheld, hwalk, hi, hat, nofun⟩ fun run hlive _ => by cases hlive

/-- A run whose prompt could not be posted ends, and its index is skipped. -/
theorem WalkInv.drop {i run : Nat} (hd : s.dispatch = some (.unsent e i t run reread))
    (hs : s.dispatchNext fate now (.unsent e i t run reread) = some s') : WalkInv ids s' := by
  have hstage := h.stage
  rw [hd] at hstage
  obtain ⟨hheld, hwalk, hi, hat, hseen⟩ := hstage
  cases reread with
  | none =>
    obtain ⟨r, hr, rfl⟩ := Option.map_eq_some_iff.mp hs
    refine h.goesOn hd rfl rfl h.once (fun _ hr => hr) ⟨hheld, hwalk, hi, hat, ?_⟩
      fun run hlive _ => by cases hlive
    intro status hstatus hterm
    cases hstatus
    exact ⟨r, hr, hterm⟩
  | some reread =>
    obtain ⟨r, hr, rfl⟩ := Option.map_eq_some_iff.mp hs
    have hterm := error_isTerminal hseen hr
    have ho : Onward s.runs (s.setStatus run (saveColumn .error reread r.status)).runs :=
      onward_setStatus fun _ _ _ => hterm
    have hended : Ended (s.setStatus run (saveColumn .error reread r.status)).runs run :=
      ⟨_, getElem?_modify_self hr, hterm⟩
    refine h.goesOn hd rfl rfl ?_ (fun run hend => hend.onward ho)
      ⟨hheld.mono (Nat.le_succ i), hwalk.skip e.current_index, hi, (hat.onward ho).isOver hended⟩
      fun run hlive _ => by cases hlive
    change ((s.setStatus run _).runs.map (·.batch_index)).Nodup
    rw [map_index_setStatus]
    exact h.once

theorem WalkInv.leave (hd : s.dispatch = some d) (hs : s.dispatchNext fate now d = some s')
    (hlast : (∃ e, d = .selecting e) ∨ (∃ e reread, d = .saving e reread) ∨ d = .deleting) :
    WalkInv ids s' := by
  have hstage := h.stage
  rw [hd] at hstage
  rcases hlast with ⟨e, rfl⟩ | ⟨e, reread, rfl⟩ | rfl
  · cases hs
    refine h.goesOn hd rfl rfl h.once (fun _ hr => hr) ⟨hstage.1, hstage.2, rfl⟩
      fun run hlive hend => ⟨?_, hend⟩
    rw [hd]
    exact hlive
  · obtain ⟨⟨b, hb, _⟩, hsettled, rfl⟩ := hstage
    cases hs
    have hrow : e.write s.row s.row = some e := by
      rw [hb]
      exact save_self e b
    rw [hrow]
    refine h.goesOn hd rfl rfl h.once (fun _ hr => hr)
      ⟨fun b heq => Option.some.inj heq ▸ hsettled, nofun⟩
      fun run hlive hend => ⟨?_, hend⟩
    rw [hd]
    exact hlive
  · cases hs
    exact h.goesOn hd rfl rfl h.once (fun _ hr => hr) ⟨nofun, fun _ => hstage.2⟩
      fun run hlive _ => by cases hlive

theorem WalkInv.done (hd : s.dispatch = some .leaving) :
    WalkInv ids { s with dispatch := none } := by
  have hstage := h.stage
  have hpending := h.pending
  rw [hd] at hstage hpending
  exact ⟨h.once, hstage, fun j c hj => (h.calls j c hj).frame (fun _ hr => hr) (fun _ => rfl)
    fun _ _ => .inl rfl, h.alone, hpending⟩

/-- A statement of a dispatch keeps the walk. -/
theorem WalkInv.dispatchNext (hd : s.dispatch = some d) (hs : s.dispatchNext fate now d = some s') :
    WalkInv ids s' := by
  cases d with
  | starting e i t => exact h.start hd hs
  | sending e i t run => exact h.send hd hs
  | unsent e i t run reread => exact h.drop hd hs
  | selecting e => exact h.leave hd hs (.inl ⟨e, rfl⟩)
  | saving e reread => exact h.leave hd hs (.inr (.inl ⟨e, reread, rfl⟩))
  | deleting => exact h.leave hd hs (.inr (.inr rfl))
  | leaving =>
    cases hs
    exact h.done hd

/-! ## Every statement -/

theorem WalkInv.callNext (hk : s.calls[k]? = some c)
    (hs : s.callNext now k c = some s') (hclear : s.orderly (.call now k) = true) :
    WalkInv ids s' := by
  unfold orderly at hclear
  dsimp only at hclear
  rw [hk] at hclear
  have hfinish : ∀ c', (∀ run, handles run c = false) → s.CallOk c' → c'.isAdvancing = false →
      WalkInv ids (s.setCall k c') := by
    intro c' hnone hok hadv
    refine h.goOn hk hok hadv fun run _ hhandle => ?_
    rw [hnone run] at hhandle
    cases hhandle
  cases c with
  | entering e i t =>
    unfold BatchState.callNext at hs
    dsimp only at hs hclear
    split at hs
    · cases hs
      exact hfinish .finished (fun _ => rfl) trivial rfl
    · rename_i hnone
      cases hs
      rw [hnone, Option.isSome_none, Bool.false_or, decide_eq_true_eq] at hclear
      exact h.enter hk hclear hnone
  | resuming =>
    unfold BatchState.callNext at hs
    dsimp only at hs
    split at hs
    · split at hs
      · rename_i index hwedged
        cases hs
        exact hfinish _ (fun _ => rfl) hwedged rfl
      · cases hs
        exact hfinish .finished (fun _ => rfl) trivial rfl
    · cases hs
      exact hfinish .finished (fun _ => rfl) trivial rfl
  | reaping run reread =>
    cases reread with
    | none =>
      obtain ⟨r, hr, rfl⟩ := Option.map_eq_some_iff.mp hs
      refine hfinish _ (fun _ => rfl) (fun status hstatus hterm => ?_) rfl
      cases hstatus
      exact ⟨r, hr, hterm⟩
    | some reread =>
      obtain ⟨r, hr, rfl⟩ := Option.map_eq_some_iff.mp hs
      exact h.reap hk hr
  | completed run =>
    obtain ⟨r, hr, rfl⟩ := Option.map_eq_some_iff.mp hs
    have hended : Ended s.runs run := h.calls k (.completed run) hk
    have hok : s.CallOk (.finalising run r.status) := hended
    exact h.goOn hk hok rfl fun _ _ hhandle => hhandle
  | finalising run status =>
    have hignored : (∀ b r, s.row = some b → s.runs[run]? = some r → b.status = .running →
        r.batch_index = b.current_index → False) → WalkInv ids (s.setCall k .finished) := by
      intro hnot
      refine h.goOn hk trivial rfl fun other hlive hhandle => ?_
      obtain rfl : run = other := of_decide_eq_true hhandle
      obtain ⟨b, r, hb, hr, hstatus, hindex⟩ := h.finds hclear hlive
      exact (hnot b r hb hr hstatus hindex).elim
    unfold BatchState.callNext at hs
    dsimp only at hs
    split at hs
    · rename_i b r hb hr
      split at hs
      · rename_i hthis
        cases hs
        exact h.accept hk hclear hb hr hthis.1 hthis.2 rfl
      · rename_i hnot
        cases hs
        refine hignored fun b' r' hb' hr' hstatus hindex => hnot ?_
        obtain rfl : b = b' := Option.some.inj (hb.symm.trans hb')
        obtain rfl : r = r' := Option.some.inj (hr.symm.trans hr')
        exact ⟨hstatus, hindex⟩
    · rename_i hnone
      cases hs
      exact hignored fun b r hb hr _ _ => hnone b r hb hr
  | selecting e next =>
    cases hs
    exact h.setCall hk ⟨h.calls k _ hk, rfl⟩
      (fun _ j d hj hd => h.alone j k d _ hj hk hd rfl) fun _ _ _ => rfl
  | saving e next reread => exact h.advance hk hs
  | finished => cases hs

theorem WalkInv.act {a : BatchAction} (hs : a.run s = some s')
    (hclear : s.orderly a = true) : WalkInv ids s' := by
  cases a with
  | complete run status =>
    obtain ⟨r, hr, rfl⟩ := Option.map_eq_some_iff.mp hs
    exact h.complete ⟨r, hr⟩ hclear
  | reap run =>
    obtain ⟨r, hr, hs⟩ := Option.bind_eq_some_iff.mp hs
    split at hs
    · cases hs
    · cases hs
      exact h.addCall nofun rfl
  | resumeWedgedBatch =>
    change (if s.dispatch.isSome = true then none else _) = some s' at hs
    split at hs
    · cases hs
    · cases hs
      exact h.addCall trivial rfl
  | dispatch fate now =>
    obtain ⟨d, hd, hs⟩ := Option.bind_eq_some_iff.mp hs
    exact h.dispatchNext hd hs
  | call now k =>
    obtain ⟨c, hk, hs⟩ := Option.bind_eq_some_iff.mp hs
    exact h.callNext hk hs hclear

end

theorem walkInv_start (hids : ids ≠ []) :
    WalkInv ids { row := some (startBatch ids false)
                  calls := [.entering (startBatch ids false) 0 true] } := by
  have hwalk : Walk ids (startBatch ids false) 0 := ⟨rfl, rfl, rfl, rfl, fun _ _ => rfl⟩
  refine ⟨List.nodup_nil, ⟨fun b hb => ?_, nofun⟩, fun j c hj => ?_,
    fun i j c c' hi _ hadv => ?_, nofun⟩
  · cases hb
    exact .parked hwalk (List.length_pos_of_ne_nil hids) nofun
  · obtain rfl := List.mem_singleton.mp (List.mem_of_getElem? hj)
    exact wedgedAt_of_walk hwalk
  · obtain rfl := List.mem_singleton.mp (List.mem_of_getElem? hi)
    cases hadv

/-! ## The laws -/

theorem WalkInv.single (h : WalkInv ids s) :
    ∃ run, ∀ (j : Nat) (r : BatchRun), s.runs[j]? = some r → j ≠ run →
      r.status.isTerminal = true := by
  have hall : (∀ r ∈ s.runs, r.status.isTerminal = true) → ∃ run, ∀ (j : Nat) (r : BatchRun),
      s.runs[j]? = some r → j ≠ run → r.status.isTerminal = true :=
    fun hended => ⟨0, fun j r hj _ => hended r (List.mem_of_getElem? hj)⟩
  have hat : ∀ i run, At s.runs i run → ∃ run, ∀ (j : Nat) (r : BatchRun),
      s.runs[j]? = some r → j ≠ run → r.status.isTerminal = true :=
    fun i run hat => ⟨run, fun j r hj hne => (hat.others j r hj hne).2⟩
  have hsettled : ∀ b, Settled ids b s.runs → ∃ run, ∀ (j : Nat) (r : BatchRun),
      s.runs[j]? = some r → j ≠ run → r.status.isTerminal = true := by
    intro b hb
    cases hb with
    | parked walk current hover => exact hall fun r hr => (hover r hr).2
    | live run live here => exact hat _ run here
    | done scenarios status results ended => exact hall ended
  have hrest : (∀ b, s.row = some b → Settled ids b s.runs) ∧
      (s.row = none → ∀ r ∈ s.runs, r.status.isTerminal = true) → ∃ run, ∀ (j : Nat) (r : BatchRun),
      s.runs[j]? = some r → j ≠ run → r.status.isTerminal = true := by
    rintro ⟨hrow, hgone⟩
    cases hb : s.row with
    | none => exact hall (hgone hb)
    | some b => exact hsettled b (hrow b hb)
  have hstage := h.stage
  cases hd : s.dispatch with
  | none =>
    rw [hd] at hstage
    exact hrest hstage
  | some d =>
    rw [hd] at hstage
    cases d with
    | starting e i t => exact hall fun r hr => (hstage.2.2.2 r hr).2
    | sending e i t run => exact hat i run hstage.2.2.2.2
    | unsent e i t run reread => exact hat i run hstage.2.2.2.1
    | selecting e => exact hsettled e hstage.2
    | saving e reread => exact hsettled e hstage.2.1
    | deleting => exact hall hstage.2
    | leaving => exact hrest hstage

theorem WalkInv.total {b : QaRunBatch} (h : WalkInv ids s) (hb : s.row = some b)
    (hdone : b.status = .done) : b.passed + b.failed + b.errored = b.scenario_ids.length := by
  have hheld : ∀ i, s.Held ids i → False := by
    rintro i ⟨b', hb', hstatus, _⟩
    obtain rfl : b = b' := Option.some.inj (hb.symm.trans hb')
    rw [hdone] at hstatus
    cases hstatus
  have hsettled : Settled ids b s.runs →
      b.passed + b.failed + b.errored = b.scenario_ids.length := by
    intro hsettled
    cases hsettled with
    | parked walk current hover =>
      rw [walk.status] at hdone
      cases hdone
    | live run live here =>
      rw [live.status] at hdone
      cases hdone
    | done scenarios status results ended =>
      rw [scenarios]
      exact results
  have hstage := h.stage
  cases hd : s.dispatch with
  | none =>
    rw [hd] at hstage
    exact hsettled (hstage.1 b hb)
  | some d =>
    rw [hd] at hstage
    cases d with
    | leaving => exact hsettled (hstage.1 b hb)
    | starting e i t => exact (hheld _ hstage.1).elim
    | sending e i t run => exact (hheld _ hstage.1).elim
    | unsent e i t run reread => exact (hheld _ hstage.1).elim
    | selecting e => exact (hheld _ hstage.1).elim
    | saving e reread => exact (hheld _ hstage.1).elim
    | deleting => exact (hheld _ hstage.1).elim

theorem handles_isWorking (h : handles run c = true) : c.isWorking = true := by
  cases c <;> first | rfl | cases h

/-- The laws of the walk follow from the invariant. -/
theorem WalkInv.walkOk (h : WalkInv ids s) : s.WalkOk := by
  refine ⟨fun i => ?_, ?_, fun hidle b hb hended => ?_, fun b hb hdone => h.total hb hdone⟩
  · have hcount := List.nodup_iff_count_le_one.mp h.once i
    rw [List.count, List.countP_map] at hcount
    refine le_trans (le_of_eq (List.countP_congr fun r _ => ?_)) hcount
    simp
  · obtain ⟨run, hothers⟩ := h.single
    rw [List.countP_eq_length_filter]
    have hat : ∀ (j : Nat) (r : BatchRun), s.runs[j]? = some r →
        (!r.status.isTerminal) = true → j = run := by
      intro j r hj hopen
      by_contra hne
      rw [hothers j r hj hne] at hopen
      cases hopen
    exact length_filter_le_one fun i j r r' hi hj hr hr' =>
      (hat i r hi hr).trans (hat j r' hj hr').symm
  · unfold isIdle at hidle
    rw [Bool.and_eq_true] at hidle
    obtain ⟨hnone, hidle⟩ := hidle
    have hd : s.dispatch = none := Option.isNone_iff_eq_none.mp hnone
    have hstage := h.stage
    rw [hd] at hstage
    cases hstage.1 b hb with
    | parked walk current hover =>
      refine .inr ?_
      unfold accepts
      rw [hnone, hb, Option.any_some, wedgedAt_of_walk walk]
      rfl
    | live run live here =>
      obtain ⟨r, hr, _⟩ := here.here
      have hlive : s.live s.dispatch = some run := by
        rw [hd]
        change s.row.bind waitsFor = some run
        rw [hb, Option.bind_some]
        unfold waitsFor
        rw [if_pos live.status, live.runAt]
      -- the run has ended, so somebody is finalising it
      obtain ⟨c, hc, hhandle⟩ := h.pending run hlive
        ⟨r, hr, hended b.current_index run r live.runAt hr⟩
      have hquiet := List.all_eq_true.mp hidle c hc
      rw [handles_isWorking hhandle] at hquiet
      cases hquiet
    | done scenarios status results ended => exact .inl status

end Invariant

/-- The walk of a batch: in every run whose steps meet the condition. -/
theorem batch_walk {s : BatchState}
    (h : ((batchSystem false).restrict fun s a _ => s.orderly a = true).Reachable s) :
    s.WalkOk := by
  obtain ⟨ids, hinv⟩ : ∃ ids, WalkInv ids s := by
    refine h.invariant (P := fun s => ∃ ids, WalkInv ids s) ?_ ?_
    · rintro s ⟨ids, hids, rfl⟩
      exact ⟨ids, walkInv_start hids⟩
    · rintro s a s' _ ⟨ids, hi⟩ ⟨hs, hclear⟩
      exact ⟨ids, hi.act hs hclear⟩
  exact hinv.walkOk

/-! ## Runs on one batch -/

theorem exists_checked_batch (C : BatchState → BatchAction → Bool) {ids : List String}
    (hids : ids ≠ []) (actions : List BatchAction) (p : BatchState → Bool)
    (h : (Transition.runChecked BatchAction.run C
      { row := some (startBatch ids false)
        calls := [.entering (startBatch ids false) 0 true] } actions).any p = true) :
    ∃ s, ((batchSystem false).restrict fun s a _ => C s a = true).Reachable s ∧ p s = true :=
  Transition.exists_reachable_checked (M := batchSystem false) (fun _ _ _ hs => hs)
    ⟨ids, hids, rfl⟩ actions p h

/-- The next statements of call `k`, and of the dispatch. -/
def callSteps (n k : Nat) : List BatchAction := List.replicate n (.call 0 k)

def dispatchSteps (n : Nat) : List BatchAction := List.replicate n (.dispatch .goesOn 0)

/-- Two scenarios, one that passes and one that fails. -/
theorem batch_walk_small : ∃ s : BatchState,
    (s.row.any fun b => b.status = .done && b.passed = 1 && b.failed = 1) = true ∧ s.WalkOk := by
  obtain ⟨s, hreach, hp⟩ := exists_checked_batch orderly
    (show ["sign in", "sign out"] ≠ [] by decide)
    (callSteps 1 0 ++ dispatchSteps 5 ++ [.complete 0 .passed] ++ callSteps 5 1 ++
      dispatchSteps 5 ++ [.complete 1 .failed] ++ callSteps 4 2)
    (fun s => s.row.any fun b => b.status = .done && b.passed = 1 && b.failed = 1)
    (by decide +kernel)
  exact ⟨s, hp, batch_walk hreach⟩

/-- The run ends while its dispatch is in progress: the batch stays at a run that has ended. -/
theorem batch_wedged : ¬∀ s, (batchSystem false).Reachable s → s.WalkOk := by
  intro hall
  obtain ⟨s, hreach, hp⟩ := exists_checked_batch (fun _ _ => true)
    (show ["sign in", "sign out"] ≠ [] by decide)
    (callSteps 1 0 ++ dispatchSteps 1 ++ [.complete 0 .passed] ++ callSteps 5 1 ++
      dispatchSteps 4)
    (fun s => s.isIdle && !s.accepts && (s.row.any fun b => b.status = .running) &&
      s.runs.all fun r => r.status.isTerminal) (by decide +kernel)
  rw [Bool.and_eq_true, Bool.and_eq_true, Bool.and_eq_true, Bool.not_eq_true'] at hp
  obtain ⟨⟨⟨hidle, hrefused⟩, hrow⟩, hruns⟩ := hp
  cases hb : s.row with
  | none =>
    rw [hb] at hrow
    cases hrow
  | some b =>
    rw [hb, Option.any_some, decide_eq_true_eq] at hrow
    have hended : ∀ (i run : Nat) (r : BatchRun), b.runAt i = some run →
        s.runs[run]? = some r → r.status.isTerminal = true :=
      fun _ _ r _ hr => List.all_eq_true.mp hruns r (List.mem_of_getElem? hr)
    rcases (hall s hreach.of_restrict).resumable hidle b hb hended with hdone | haccepts
    · rw [hrow] at hdone
      cases hdone
    · rw [hrefused] at haccepts
      cases haccepts

end BatchState

end WorkflowBoard.Qa
