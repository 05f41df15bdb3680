import WorkflowBoard.ForStd.List
import WorkflowBoard.Native.Dispatch

/-!
# Parking a ticket after its re-sends

The supervisor counts a re-send when it claims it, before the dispatch has found out whether the
trigger can be sent. A host that is offline or refuses the runtime uses the re-sends up without
the agent having heard of any (`not_always_parksEarned`).

`parks_earned`: where every dispatch of the supervisor gets through, and a ticket is not parked
while a re-send or the agent's progress is still being handled, a ticket is parked for exhausted
re-sends only after as many triggers have been emitted since its agent last made progress.
-/

namespace WorkflowBoard.Tickets

/-- A trigger of the supervisor for the ticket went to a host. -/
def DispatchEvent.resent (id : String) : DispatchEvent → Bool
  | .emitted ticketId _ source => ticketId = id && source = .supervisor
  | _ => false

/-- The triggers of the supervisor since the last progress. The history is newest first. -/
def emittedSince (history : List DispatchEvent) (id : String) : Nat :=
  (history.takeWhile (· ≠ .progress id)).countP (·.resent id)

/-- Every ticket that was parked for exhausted re-sends had got them. -/
def DispatchState.ParksEarned (s : DispatchState) : Prop :=
  ∀ after before id, s.history = after ++ .parked id :: before →
    maxSupervisorRedispatches ≤ emittedSince before id

/-! ## The condition -/

/-- The dispatch of a ticket gets through: the assignee's host is active in the account and
    reachable and accepts the runtime, the account is there and not paused, the instance is not
    quiesced, and the payload can be built. -/
def DispatchOutside.delivers (o : DispatchOutside) (t : Ticket) : Bool :=
  t.assignee.isSome && (o.host.any fun h => h.is_active && h.account_id = t.account_id) &&
  o.account.isSome && !o.account.any (·.dispatch_paused) && !o.quiesced && o.reachable &&
  !o.refused && !o.buildFails

/-- A dispatch of the supervisor for the ticket is under way. -/
def DispatchCall.resending (id : String) (c : DispatchCall) : Bool :=
  c.ticket.id = id && c.source = .supervisor &&
    match c.phase with
    | .returned _ => false
    | _ => true

def DispatchState.resending (s : DispatchState) (id : String) : Nat :=
  s.dispatches.countP (·.resending id)

/-- Progress on the ticket is still being handled. -/
def DispatchState.handling (s : DispatchState) (id : String) : Bool :=
  s.handlers.any fun c => c.ticketId = id && c.phase ≠ .returned

/-- The ticket that the next statement of a pass parks for exhausted re-sends. -/
def DispatchState.parking (s : DispatchState) (o : PassOutside) (p : Pass) : Option Ticket :=
  match p.phase with
  | .due t account latestComment =>
    if !s.passWaits p t account latestComment o && t.exhausted p.now then some t else none
  | _ => none

/-- A dispatch of the supervisor gets through; a ticket is parked when none is under way for it and
    no progress is being handled. -/
def DispatchState.Delivered (s : DispatchState) : DispatchAction → Prop
  | .dispatch i o => ∀ c ∈ s.dispatches[i]?,
      c.source = .supervisor → c.phase = .start → o.delivers c.ticket
  | .pass i o => ∀ t ∈ s.passes[i]?.bind (s.parking o), s.resending t.id = 0 ∧ ¬ s.handling t.id
  | _ => True

instance (s : DispatchState) (a : DispatchAction) : Decidable (s.Delivered a) :=
  match a with
  | .dispatch i o => inferInstanceAs (Decidable (∀ c ∈ s.dispatches[i]?,
      c.source = .supervisor → c.phase = .start → o.delivers c.ticket))
  | .pass i o => inferInstanceAs (Decidable
      (∀ t ∈ s.passes[i]?.bind (s.parking o), s.resending t.id = 0 ∧ ¬ s.handling t.id))
  | .tick _ => .isTrue trivial
  | .output _ _ => .isTrue trivial
  | .change _ _ => .isTrue trivial
  | .startDispatch _ _ => .isTrue trivial
  | .startAck _ => .isTrue trivial
  | .ack _ => .isTrue trivial
  | .startProgress _ => .isTrue trivial
  | .progress _ => .isTrue trivial
  | .supervise _ => .isTrue trivial

/-- Runs whose steps meet the condition. -/
def deliveredRuns : Transition DispatchState DispatchAction :=
  dispatchSystem.restrict fun s a _ => s.Delivered a

/-! ## Counting in the history -/

section History

variable {h : List DispatchEvent} {e : DispatchEvent} {id : String}

theorem emittedSince_cons (hne : e ≠ .progress id) :
    emittedSince (e :: h) id = emittedSince h id + if e.resent id then 1 else 0 := by
  unfold emittedSince
  rw [List.takeWhile_cons_of_pos (by simpa using hne), List.countP_cons]

theorem emittedSince_le_cons (hne : e ≠ .progress id) :
    emittedSince h id ≤ emittedSince (e :: h) id := by
  rw [emittedSince_cons hne]
  exact Nat.le_add_right _ _

end History

/-! ## The count of a ticket -/

/-- The re-sends that were emitted or are under way. -/
def DispatchState.credit (s : DispatchState) (id : String) : Nat :=
  emittedSince s.history id + s.resending id

/-- The count of a ticket is covered, or about to be reset. -/
def DispatchState.Counted (s : DispatchState) (id : String) : Prop :=
  ∀ t, s.db.ticket? id = some t → t.supervisor_redispatches ≤ s.credit id ∨ s.handling id

/-- What a step does to the count of a ticket: it is reset, or grows no more than the credit does;
    progress that was being handled still is, or has been handled. -/
structure KeepsCount (s t : DispatchState) (id : String) : Prop where
  row : ∀ r', t.db.ticket? id = some r' → r'.supervisor_redispatches = 0 ∨
    ∃ r, s.db.ticket? id = some r ∧
      r'.supervisor_redispatches + s.credit id ≤ r.supervisor_redispatches + t.credit id
  handled : s.handling id → t.handling id ∨
    ∀ r', t.db.ticket? id = some r' → r'.supervisor_redispatches = 0

section Count

variable {s t : DispatchState} {id : String}

theorem DispatchState.Counted.step (hs : s.Counted id) (hkeep : KeepsCount s t id) :
    t.Counted id := by
  intro r' hr'
  obtain hzero | ⟨r, hr, hle⟩ := hkeep.row r' hr'
  · left
    omega
  · obtain hcount | hhandling := hs r hr
    · left
      omega
    · obtain hstill | hzero := hkeep.handled hhandling
      · exact .inr hstill
      · left
        rw [hzero r' hr']
        exact Nat.zero_le _

/-- A step that leaves the table, the history, the dispatches and the handlers alone. -/
theorem KeepsCount.of_eq (hdb : t.db = s.db) (hhistory : t.history = s.history)
    (hdispatches : t.dispatches = s.dispatches) (hhandlers : t.handlers = s.handlers) :
    KeepsCount s t id := by
  have hcredit : t.credit id = s.credit id := by
    unfold DispatchState.credit DispatchState.resending
    rw [hhistory, hdispatches]
  refine ⟨?_, ?_⟩
  · intro r hr
    rw [hdb] at hr
    exact .inr ⟨r, hr, by rw [hcredit]⟩
  · intro hh
    left
    unfold DispatchState.handling at hh ⊢
    rw [hhandlers]
    exact hh

/-- A rewrite of one row that resets its count or leaves it. -/
theorem KeepsCount.of_update {j : String} {f : Ticket → Ticket} (hid : ∀ x, (f x).id = x.id)
    (hdb : t.db = s.db.update j f) (hhandlers : t.handlers = s.handlers)
    (hcredit : id ≠ j → s.credit id ≤ t.credit id)
    (hrow : ∀ r, s.db.ticket? j = some r → (f r).supervisor_redispatches = 0 ∨
      ((f r).supervisor_redispatches + s.credit j ≤ r.supervisor_redispatches + t.credit j)) :
    KeepsCount s t id := by
  refine ⟨?_, ?_⟩
  · intro r' hr'
    rw [hdb] at hr'
    obtain ⟨r, hr, ⟨rfl, rfl⟩ | ⟨hne, rfl⟩⟩ := TicketDb.ticket?_of_update hid hr'
    · obtain hzero | hle := hrow r hr
      · exact .inl hzero
      · exact .inr ⟨r, hr, hle⟩
    · exact .inr ⟨_, hr, Nat.add_le_add_left (hcredit hne) _⟩
  · intro hh
    left
    unfold DispatchState.handling at hh ⊢
    rw [hhandlers]
    exact hh

/-- A step that leaves the table and the handlers alone and uses no credit up. -/
theorem KeepsCount.of_credit (hdb : t.db = s.db) (hhandlers : t.handlers = s.handlers)
    (hcredit : s.credit id ≤ t.credit id) : KeepsCount s t id := by
  refine ⟨?_, ?_⟩
  · intro r hr
    rw [hdb] at hr
    exact .inr ⟨r, hr, by omega⟩
  · intro hh
    left
    unfold DispatchState.handling at hh ⊢
    rw [hhandlers]
    exact hh

end Count

/-! ## The invariant -/

/-- A pass has read a ticket that is supervised. -/
def PassOk (p : Pass) : Prop :=
  match p.phase with
  | .turn t _ => t.supervised
  | .judged t _ => t.supervised
  | .due t _ _ => t.supervised
  | _ => True

structure SuperviseInv (s : DispatchState) : Prop where
  counted : ∀ id, s.Counted id
  dispatches : ∀ c ∈ s.dispatches, c.source = .supervisor → c.phase = .start →
    c.ticket.supervised
  passes : ∀ p ∈ s.passes, PassOk p
  earned : s.ParksEarned

section Steps

variable {s t : DispatchState} {id : String}

theorem DispatchState.ParksEarned.cons {e : DispatchEvent} (h : s.ParksEarned)
    (he : ∀ id, e = .parked id → maxSupervisorRedispatches ≤ emittedSince s.history id)
    (hhistory : t.history = e :: s.history) : t.ParksEarned := by
  intro after before id heq
  rw [hhistory] at heq
  cases after with
  | nil =>
    obtain ⟨rfl, rfl⟩ := List.cons.inj heq
    exact he id rfl
  | cons a after => exact h after before id (List.cons.inj heq).2

/-! ### Dispatches -/

variable {x : Ticket} {i : Nat} {p : Pass}

/-- A supervised ticket whose host takes it gets its trigger. -/
theorem dispatchCheck_delivers {o : DispatchOutside} (hx : x.supervised)
    (ho : o.delivers x) : dispatchCheck x o = .ok o.triggerId := by
  simp only [Ticket.supervised, Bool.and_eq_true, decide_eq_true_eq, Option.isNone_iff_eq_none,
    Bool.not_eq_true'] at hx
  obtain ⟨⟨⟨⟨⟨hstatus, harchived⟩, -⟩, hcanonical⟩, -⟩, hpending⟩ := hx
  simp only [DispatchOutside.delivers, Bool.and_eq_true, Bool.not_eq_true'] at ho
  obtain ⟨⟨⟨⟨⟨⟨⟨hassignee, hhost⟩, haccount⟩, hpaused⟩, hquiesced⟩, hreach⟩, hrefused⟩, hbuild⟩ :=
    ho
  unfold dispatchCheck
  rw [if_neg (by simp [harchived]), if_neg (by simp [hpending]), if_neg (by simp [hcanonical]),
    if_neg (by simp [hstatus]), if_neg (by simpa using Option.isSome_iff_ne_none.mp hassignee),
    if_neg (by simpa using hhost), if_neg (by simpa using Option.isSome_iff_ne_none.mp haccount),
    if_neg (by simp [hpaused]),
    if_neg (by simp [hquiesced]), if_neg (by simp [hreach]), if_neg (by simp [hrefused]),
    if_neg (by simp [hbuild])]

/-- Another dispatch of the supervisor, or the same one in its next phase. -/
theorem resending_set {c : DispatchCall} {phase : DispatchPhase} (hc : s.dispatches[i]? = some c)
    (hsame : ({ c with phase } : DispatchCall).resending id = c.resending id) :
    (s.dispatches.set i { c with phase }).countP (·.resending id) = s.resending id := by
  have hset := countP_set_add (b := { c with phase }) hc (·.resending id)
  rw [hsame] at hset
  exact Nat.add_right_cancel hset

theorem SuperviseInv.setDispatch (hinv : SuperviseInv s) {c : DispatchCall}
    {phase : DispatchPhase} (hstart : phase ≠ .start) (hcounted : ∀ id, t.Counted id)
    (hdispatches : t.dispatches = s.dispatches.set i { c with phase })
    (hpasses : t.passes = s.passes) (hearned : t.ParksEarned) : SuperviseInv t := by
  refine ⟨hcounted, ?_, ?_, hearned⟩
  · intro c₀ hmem hsource hphase
    rw [hdispatches] at hmem
    obtain hold | rfl := List.mem_or_eq_of_mem_set hmem
    · exact hinv.dispatches c₀ hold hsource hphase
    · exact absurd hphase hstart
  · rw [hpasses]
    exact hinv.passes

theorem SuperviseInv.dispatch {o : DispatchOutside} (hinv : SuperviseInv s)
    (hdelivered : s.Delivered (.dispatch i o)) (h : s.act (.dispatch i o) = .ok t) :
    SuperviseInv t := by
  cases DispatchState.acts_of_act h with
  | @dispatch _ _ c t' phase hc hstep =>
    unfold DispatchState.dispatchStep at hstep
    have hmem := List.mem_of_getElem? hc
    split at hstep
    · rename_i hphase
      -- the checks: a dispatch of the supervisor passes them
      have hkeep : ∀ phase', (c.source = .supervisor → ∃ triggerId, phase' = .checked triggerId) →
          phase' ≠ .start → SuperviseInv { s with
            dispatches := s.dispatches.set i { c with phase := phase' } } := by
        intro phase' hchecked hne
        refine hinv.setDispatch hne ?_ rfl rfl hinv.earned
        intro id
        refine (hinv.counted id).step (.of_credit rfl rfl ?_)
        apply Nat.add_le_add_left
        refine le_of_eq (resending_set hc ?_).symm
        unfold DispatchCall.resending
        rw [hphase]
        by_cases hsource : c.source = .supervisor
        · obtain ⟨triggerId, rfl⟩ := hchecked hsource
          rfl
        · simp [hsource]
      split at hstep
      · rename_i reason hcheck
        cases hstep
        apply hkeep
        · intro hsource
          have hok := dispatchCheck_delivers (hinv.dispatches c hmem hsource hphase)
            (hdelivered c hc hsource hphase)
          rw [hok] at hcheck
          cases hcheck
        · simp
      · cases hstep
        apply hkeep
        · exact fun _ => ⟨_, rfl⟩
        · simp
    · rename_i triggerId hphase
      cases hstep
      refine hinv.setDispatch (by simp) ?_ rfl rfl hinv.earned
      intro id
      refine (hinv.counted id).step (.of_credit rfl rfl ?_)
      apply Nat.add_le_add_left
      refine le_of_eq (resending_set hc ?_).symm
      unfold DispatchCall.resending
      rw [hphase]
    · rename_i triggerId hphase
      cases hstep
      refine hinv.setDispatch (by simp) ?_ rfl rfl hinv.earned
      intro id
      have hcredit : ∀ j, s.credit j = emittedSince s.history j +
          (s.dispatches.set i { c with phase := .stamped triggerId }).countP (·.resending j) := by
        intro j
        unfold DispatchState.credit
        rw [resending_set hc]
        unfold DispatchCall.resending
        rw [hphase]
      refine (hinv.counted id).step
        (.of_update (f := Ticket.stamp c.source s.clock) (fun _ => rfl) rfl rfl ?_ ?_)
      · exact fun _ => le_of_eq (hcredit id)
      · exact fun r _ => .inr (le_of_eq (congrArg _ (hcredit c.ticket.id)))
    · rename_i triggerId hphase
      cases hstep
      refine hinv.setDispatch (by simp) ?_ rfl rfl (hinv.earned.cons (by simp) rfl)
      intro id
      refine (hinv.counted id).step (.of_credit rfl rfl ?_)
      -- one fewer is under way, and one more is emitted
      have hset := countP_set_add (b := { c with phase := .returned none }) hc (·.resending id)
      have hnow : ({ c with phase := .returned none } : DispatchCall).resending id = false := by
        simp [DispatchCall.resending]
      have hwas : c.resending id =
          DispatchEvent.resent id (.emitted c.ticket.id triggerId c.source) := by
        unfold DispatchCall.resending DispatchEvent.resent
        rw [hphase]
        simp
      rw [hnow, hwas] at hset
      unfold DispatchState.credit DispatchState.resending
      dsimp only
      rw [emittedSince_cons (by simp)]
      simp only [Bool.false_eq_true, if_false, Nat.add_zero] at hset
      omega
    · cases hstep

/-! ### Answers, activity and changes -/

/-- A step that leaves the dispatches and the passes alone. -/
theorem SuperviseInv.of_counted (hinv : SuperviseInv s) (hcounted : ∀ id, t.Counted id)
    (hdispatches : t.dispatches = s.dispatches) (hpasses : t.passes = s.passes)
    (hearned : t.ParksEarned) : SuperviseInv t := by
  refine ⟨hcounted, ?_, ?_, hearned⟩
  · rw [hdispatches]
    exact hinv.dispatches
  · rw [hpasses]
    exact hinv.passes

/-- The credit where the dispatches stay and something other than progress happened. -/
theorem credit_le_cons {e : DispatchEvent} (hne : e ≠ .progress id)
    (hhistory : t.history = e :: s.history) (hdispatches : t.dispatches = s.dispatches) :
    s.credit id ≤ t.credit id := by
  unfold DispatchState.credit DispatchState.resending
  rw [hhistory, hdispatches]
  exact Nat.add_le_add_right (emittedSince_le_cons hne) _

theorem SuperviseInv.ackStep {a : AckArgs} {phase phase' : AckPhase} (hinv : SuperviseInv s)
    (h : s.ackStep a phase = some (t, phase')) : SuperviseInv t := by
  cases DispatchState.acks_of_ackStep h with
  | read => exact hinv
  | record =>
    refine hinv.of_counted ?_ rfl rfl (hinv.earned.cons (by simp) rfl)
    intro id
    refine (hinv.counted id).step (.of_update ?_ rfl rfl ?_ ?_)
    · exact fun _ => rfl
    · exact fun _ => credit_le_cons (by simp) rfl rfl
    · intro r _
      right
      apply Nat.add_le_add_left
      exact credit_le_cons (by simp) rfl rfl
  | clear =>
    refine hinv.of_counted ?_ rfl rfl hinv.earned
    intro id
    refine (hinv.counted id).step (.of_update ?_ rfl rfl ?_ ?_)
    · exact fun _ => rfl
    · exact fun _ => le_refl _
    · exact fun r _ => .inr (le_refl _)
  | log =>
    refine hinv.of_counted ?_ rfl rfl hinv.earned
    exact fun id => (hinv.counted id).step (.of_eq rfl rfl rfl rfl)

theorem SuperviseInv.change {j : String} {c : TicketChange} (hinv : SuperviseInv s)
    (h : s.act (.change j c) = .ok t) : SuperviseInv t := by
  cases DispatchState.acts_of_act h with
  | @change _ _ x hx =>
    have hearned : DispatchState.ParksEarned { s with
        db := s.db.update j (c.apply s.clock)
        history := if c.restarts x then .progress j :: s.history else s.history } := by
      split
      · exact hinv.earned.cons (by simp) rfl
      · exact hinv.earned
    refine hinv.of_counted ?_ rfl rfl hearned
    intro id
    refine (hinv.counted id).step (.of_update (c.apply_id s.clock) rfl rfl ?_ ?_)
    · intro hne
      split
      · exact credit_le_cons (by simpa using hne.symm) rfl rfl
      · exact le_refl _
    · intro r hr
      rw [hx] at hr
      cases hr
      obtain ⟨hkeeps, hcount, -⟩ | ⟨-, hzero, -⟩ := c.apply_record s.clock x
      · right
        rw [hkeeps, hcount]
        exact le_refl _
      · exact .inl hzero

/-- A handler in its next phase: it is still under way, or the count is 0. -/
theorem SuperviseInv.setHandler (hinv : SuperviseInv s) {c : ProgressCall}
    {phase : ProgressPhase} (hc : s.handlers[i]? = some c)
    (hhandlers : t.handlers = s.handlers.set i { c with phase })
    (hhistory : t.history = s.history) (hdispatches : t.dispatches = s.dispatches)
    (hpasses : t.passes = s.passes)
    (hrow : ∀ id r', t.db.ticket? id = some r' → r'.supervisor_redispatches = 0 ∨
      ∃ r, s.db.ticket? id = some r ∧ r'.supervisor_redispatches = r.supervisor_redispatches)
    (hend : phase = .returned →
      ∀ r', t.db.ticket? c.ticketId = some r' → r'.supervisor_redispatches = 0) :
    SuperviseInv t := by
  have hcredit : ∀ id, t.credit id = s.credit id := by
    intro id
    unfold DispatchState.credit DispatchState.resending
    rw [hhistory, hdispatches]
  have hearned : t.ParksEarned := by
    unfold DispatchState.ParksEarned
    rw [hhistory]
    exact hinv.earned
  refine hinv.of_counted ?_ hdispatches hpasses hearned
  intro id
  refine (hinv.counted id).step ⟨?_, ?_⟩
  · intro r' hr'
    obtain hzero | ⟨r, hr, heq⟩ := hrow id r' hr'
    · exact .inl hzero
    · exact .inr ⟨r, hr, by rw [heq, hcredit]⟩
  · intro hh
    obtain ⟨d, hd, hopen⟩ := List.any_eq_true.mp hh
    simp only [Bool.and_eq_true, decide_eq_true_eq] at hopen
    by_cases hret : phase = .returned ∧ c.ticketId = id
    · exact .inr (hret.2 ▸ hend hret.1)
    · left
      unfold DispatchState.handling
      rw [hhandlers]
      obtain ⟨k, hk⟩ := List.mem_iff_getElem?.mp hd
      by_cases hik : i = k
      · subst hik
        rw [hc] at hk
        cases hk
        have hlt : i < s.handlers.length := lt_of_getElem? hc
        refine List.any_eq_true.mpr ⟨{ c with phase }, List.mem_set hlt _, ?_⟩
        simp only [Bool.and_eq_true, decide_eq_true_eq]
        exact ⟨hopen.1, fun hp => hret ⟨hp, hopen.1⟩⟩
      · refine List.any_eq_true.mpr ⟨d, ?_, by simpa using hopen⟩
        exact List.mem_of_getElem? ((List.getElem?_set_ne hik).trans hk)

theorem SuperviseInv.progress (hinv : SuperviseInv s)
    (h : s.act (.progress i) = .ok t) : SuperviseInv t := by
  cases DispatchState.acts_of_act h with
  | @progress _ c t' phase hc hstep =>
    unfold DispatchState.progressStep at hstep
    split at hstep
    · split at hstep
      · cases hstep
        exact hinv.setHandler hc rfl rfl rfl rfl (fun id r hr => .inr ⟨r, hr, rfl⟩) (by simp)
      · rename_i hnone
        cases hstep
        refine hinv.setHandler hc rfl rfl rfl rfl (fun id r hr => .inr ⟨r, hr, rfl⟩) ?_
        intro _ r hr
        -- there was nothing to reset
        have hr : s.db.ticket? c.ticketId = some r := hr
        rw [hr, Option.any_some] at hnone
        simp only [gt_iff_lt, Bool.or_eq_true, decide_eq_true_eq, not_or, not_lt] at hnone
        exact Nat.le_zero.mp hnone.1
    · cases hstep
      have hid : ∀ x, (Ticket.restart x).id = x.id := fun _ => rfl
      refine hinv.setHandler hc rfl rfl rfl rfl ?_ ?_
      · intro id r' hr'
        obtain ⟨r, hr, ⟨-, rfl⟩ | ⟨-, rfl⟩⟩ := TicketDb.ticket?_of_update hid hr'
        · exact .inl rfl
        · exact .inr ⟨_, hr, rfl⟩
      · intro _ r' hr'
        obtain ⟨r, -, ⟨-, rfl⟩ | ⟨hne, -⟩⟩ := TicketDb.ticket?_of_update hid hr'
        · rfl
        · exact absurd rfl hne
    · cases hstep

/-! ### Passes of the supervisor -/

/-- What a statement of a pass leaves: the invariant of the state with its passes, and a pass that
    has read a supervised ticket. -/
def PassStepOk (s : DispatchState) (r : DispatchState × Pass) : Prop :=
  SuperviseInv r.1 ∧ r.1.passes = s.passes ∧ PassOk r.2

/-- A pass starts a dispatch that is not the supervisor's. -/
theorem SuperviseInv.addDispatch (hinv : SuperviseInv s) {source : DispatchSource}
    (hsource : source ≠ .supervisor)
    (hdispatches : t.dispatches = s.dispatches ++ [{ ticket := x, source }])
    (hdb : t.db = s.db) (hhistory : t.history = s.history) (hhandlers : t.handlers = s.handlers)
    (hpasses : t.passes = s.passes) : SuperviseInv t := by
  have hother : ∀ id, DispatchCall.resending id { ticket := x, source } = false := by
    intro id
    simp [DispatchCall.resending, hsource]
  have hcredit : ∀ id, s.credit id ≤ t.credit id := by
    intro id
    unfold DispatchState.credit DispatchState.resending
    rw [hhistory, hdispatches, List.countP_append]
    omega
  refine ⟨?_, ?_, ?_, ?_⟩
  · exact fun id => (hinv.counted id).step (.of_credit hdb hhandlers (hcredit id))
  · intro c hc hcsource hphase
    rw [hdispatches] at hc
    obtain hold | hnew := List.mem_append.mp hc
    · exact hinv.dispatches c hold hcsource hphase
    · obtain rfl := List.mem_singleton.mp hnew
      exact absurd hcsource hsource
  · rw [hpasses]
    exact hinv.passes
  · unfold DispatchState.ParksEarned
    rw [hhistory]
    exact hinv.earned

theorem SuperviseInv.passNext (hinv : SuperviseInv s) (hidle : p.phase = .idle)
    (j : String) : PassStepOk s (s.passNext p j) := by
  have hskip : PassStepOk s (s, p) := by
    refine ⟨hinv, rfl, ?_⟩
    unfold PassOk
    rw [hidle]
    trivial
  unfold DispatchState.passNext
  split
  · exact hskip
  · rename_i x hx
    have hsupervised : x.supervised := (Option.filter_eq_some_iff.mp hx).2
    split
    · exact hskip
    · split
      · exact hskip
      · split
        · exact ⟨hinv, rfl, hsupervised⟩
        · split
          · exact ⟨hinv.addDispatch (by simp) rfl rfl rfl rfl rfl, rfl, trivial⟩
          · exact hskip

theorem SuperviseInv.passOutput (hinv : SuperviseInv s)
    (hx : x.supervised) (account : Account) : PassStepOk s (s.passOutput p x account) := by
  unfold DispatchState.passOutput
  dsimp only
  split
  · split
    · exact ⟨hinv, rfl, trivial⟩
    · rename_i db hdb
      obtain ⟨rfl, -⟩ := TicketDb.updateIf_eq_some hdb
      refine ⟨?_, rfl, hx⟩
      refine hinv.of_counted ?_ rfl rfl (hinv.earned.cons (by simp) rfl)
      intro id
      refine (hinv.counted id).step (.of_update ?_ rfl rfl ?_ ?_)
      · exact fun _ => rfl
      · exact fun hne => credit_le_cons (by simpa using hne.symm) rfl rfl
      · exact fun r _ => .inl rfl
  · exact ⟨hinv, rfl, hx⟩

/-- A ticket that is parked has used its re-sends up. -/
theorem SuperviseInv.parkStalled (hinv : SuperviseInv s) (x : Ticket) (liveQuiet : Bool)
    (hearned : liveQuiet = false → maxSupervisorRedispatches ≤ x.supervisor_redispatches ∧
      s.resending x.id = 0 ∧ ¬ s.handling x.id) :
    SuperviseInv (s.parkStalled x liveQuiet) ∧
      (s.parkStalled x liveQuiet).passes = s.passes := by
  unfold DispatchState.parkStalled
  split
  · exact ⟨hinv, rfl⟩
  · split
    · exact ⟨hinv, rfl⟩
    · rename_i db hdb
      obtain ⟨rfl, row, hrow, hcond⟩ := TicketDb.updateIf_eq_some hdb
      refine ⟨?_, rfl⟩
      have hcount : ∀ id, s.credit id ≤ DispatchState.credit { s with
          db := s.db.update x.id (Ticket.park liveQuiet)
          history := if liveQuiet then s.history else .parked x.id :: s.history } id := by
        intro id
        split
        · exact le_refl _
        · exact credit_le_cons (by simp) rfl rfl
      refine hinv.of_counted ?_ rfl rfl ?_
      · intro id
        refine (hinv.counted id).step (.of_update ?_ rfl rfl ?_ ?_)
        · exact fun _ => rfl
        · exact fun _ => hcount id
        · exact fun r _ => .inl rfl
      · cases liveQuiet with
        | true => exact hinv.earned
        | false =>
          refine hinv.earned.cons (e := .parked x.id) ?_ rfl
          intro id hid
          cases hid
          -- the row still has the count that the pass has read, and nothing is under way
          obtain ⟨hmax, hresending, hhandling⟩ := hearned rfl
          have hsame : row.supervisor_redispatches = x.supervisor_redispatches := by
            simp only [Ticket.parkable, Bool.and_eq_true, decide_eq_true_eq] at hcond
            exact hcond.1.1.1.1.1.1
          obtain hcovered | hh := hinv.counted x.id row hrow
          · unfold DispatchState.credit at hcovered
            omega
          · exact absurd hh hhandling

theorem credit_addResend
    (hdispatches : t.dispatches = s.dispatches ++ [{ ticket := x, source := .supervisor }])
    (hhistory : t.history = s.history) :
    t.credit id = s.credit id + if id = x.id then 1 else 0 := by
  unfold DispatchState.credit DispatchState.resending
  rw [hhistory, hdispatches, List.countP_append, List.countP_singleton]
  by_cases hid : id = x.id
  · simp [DispatchCall.resending, hid, Nat.add_assoc]
  · simp [DispatchCall.resending, hid, Ne.symm hid]

/-- The claim of a re-send counts one more, and one more is under way. -/
theorem SuperviseInv.passDue (hinv : SuperviseInv s) (hx : x.supervised)
    (hpark : x.exhausted p.now → s.resending x.id = 0 ∧ ¬ s.handling x.id) :
    PassStepOk s (s.passDue p x) := by
  unfold DispatchState.passDue
  split
  · rename_i hexhausted
    have hmax : maxSupervisorRedispatches ≤ x.supervisor_redispatches := by
      simp only [Ticket.exhausted, Bool.and_eq_true, decide_eq_true_eq] at hexhausted
      exact hexhausted.1
    obtain ⟨hinv', hpasses⟩ := hinv.parkStalled x false
      fun _ => ⟨hmax, hpark hexhausted⟩
    exact ⟨hinv', hpasses, trivial⟩
  · split
    · exact ⟨hinv, rfl, trivial⟩
    · rename_i db hdb
      obtain ⟨rfl, row, hrow, hcond⟩ := TicketDb.updateIf_eq_some hdb
      have hsame : row.supervisor_redispatches = x.supervisor_redispatches :=
        of_decide_eq_true hcond
      refine ⟨⟨?_, ?_, hinv.passes, hinv.earned⟩, rfl, trivial⟩
      · intro id
        have hcredit : ∀ j, ({ s with
            db := s.db.update x.id (Ticket.countResend (x.supervisor_redispatches + 1))
            }.passDispatch p x .supervisor).1.credit j = s.credit j + if j = x.id then 1 else 0 :=
          fun j => credit_addResend rfl rfl
        refine (hinv.counted id).step (.of_update ?_ rfl rfl ?_ ?_)
        · exact fun _ => rfl
        · intro hne
          rw [hcredit, if_neg hne]
          exact le_refl _
        · intro r hr
          rw [hrow] at hr
          cases hr
          right
          rw [hcredit, if_pos rfl, hsame]
          show x.supervisor_redispatches + 1 + s.credit x.id ≤ _
          omega
      · intro c hc hsource hphase
        obtain hold | hnew := List.mem_append.mp hc
        · exact hinv.dispatches c hold hsource hphase
        · obtain rfl := List.mem_singleton.mp hnew
          exact hx

theorem SuperviseInv.passStep {o : PassOutside} {r : DispatchState × Pass}
    (hinv : SuperviseInv s) (hok : PassOk p)
    (hpark : ∀ x ∈ s.parking o p, s.resending x.id = 0 ∧ ¬ s.handling x.id)
    (h : s.passStep o p = some r) : PassStepOk s r := by
  unfold DispatchState.passStep at h
  unfold PassOk at hok
  cases hphase : p.phase with
  | idle =>
    rw [hphase] at h
    dsimp only at h
    split at h
    · cases h
      exact ⟨hinv, rfl, trivial⟩
    · cases h
      exact hinv.passNext rfl _
  | turn x account =>
    rw [hphase] at h hok
    cases h
    exact hinv.passOutput hok account
  | judged x account =>
    rw [hphase] at h hok
    dsimp only at h
    split at h
    · cases h
      obtain ⟨hinv', hpasses⟩ := hinv.parkStalled x true (by simp)
      exact ⟨hinv', hpasses, trivial⟩
    · cases h
      exact ⟨hinv, rfl, hok⟩
  | due x account latestComment =>
    rw [hphase] at h hok
    dsimp only at h
    split at h
    · cases h
      exact ⟨hinv, rfl, trivial⟩
    · rename_i hwaits
      cases h
      apply hinv.passDue hok
      intro hexhausted
      apply hpark
      unfold DispatchState.parking
      rw [hphase]
      dsimp only
      rw [if_pos (by simp [hwaits, hexhausted])]
      rfl
  | waiting k =>
    rw [hphase] at h
    dsimp only at h
    split at h
    · cases h
      exact ⟨hinv, rfl, trivial⟩
    · cases h
  | returned =>
    rw [hphase] at h
    cases h

theorem SuperviseInv.setPass (hinv : SuperviseInv s) (hp : PassOk p) :
    SuperviseInv { s with passes := s.passes.set i p } := by
  refine ⟨hinv.counted, hinv.dispatches, ?_, hinv.earned⟩
  intro p₀ hmem
  obtain hold | rfl := List.mem_or_eq_of_mem_set hmem
  · exact hinv.passes p₀ hold
  · exact hp

theorem SuperviseInv.act {a : DispatchAction} (hinv : SuperviseInv s)
    (hdelivered : s.Delivered a) (h : s.act a = .ok t) : SuperviseInv t := by
  cases DispatchState.acts_of_act h with
  | tick | output | startAck => exact ⟨hinv.counted, hinv.dispatches, hinv.passes, hinv.earned⟩
  | change => exact hinv.change h
  | startDispatch hsource => exact hinv.addDispatch hsource rfl rfl rfl rfl rfl
  | dispatch => exact hinv.dispatch hdelivered h
  | ack hc hstep =>
    have hinv' := hinv.ackStep hstep
    exact ⟨hinv'.counted, hinv'.dispatches, hinv'.passes, hinv'.earned⟩
  | @startProgress id =>
    refine hinv.of_counted ?_ rfl rfl (hinv.earned.cons (by simp) rfl)
    intro j
    by_cases hj : j = id
    · subst hj
      intro r _
      right
      simp [DispatchState.handling]
    · refine (hinv.counted j).step ⟨?_, ?_⟩
      · intro r hr
        refine .inr ⟨r, hr, Nat.add_le_add_left ?_ _⟩
        exact credit_le_cons (by simpa using Ne.symm hj) rfl rfl
      · intro hh
        left
        unfold DispatchState.handling at hh ⊢
        rw [List.any_append, hh]
        rfl
  | progress => exact hinv.progress h
  | supervise =>
    refine ⟨hinv.counted, hinv.dispatches, ?_, hinv.earned⟩
    intro p hp
    obtain hold | hnew := List.mem_append.mp hp
    · exact hinv.passes p hold
    · obtain rfl := List.mem_singleton.mp hnew
      trivial
  | pass hp hstep =>
    obtain ⟨hinv', -, hok'⟩ := hinv.passStep (hinv.passes _ (List.mem_of_getElem? hp))
      (fun x hx => hdelivered x (by rw [hp]; exact hx)) hstep
    exact hinv'.setPass hok'

theorem superviseInv_reachable (h : deliveredRuns.Reachable s) : SuperviseInv s := by
  refine h.invariant ?_ ?_
  · rintro s ⟨-, hfresh, -, -, hdispatches, -, -, hpasses, hhistory⟩
    refine ⟨?_, ?_, ?_, ?_⟩
    · intro id r hr
      left
      rw [(hfresh r (TicketDb.mem_of_ticket? hr).1).1]
      exact Nat.zero_le _
    · intro c hc
      rw [hdispatches] at hc
      cases hc
    · intro p hp
      rw [hpasses] at hp
      cases hp
    · intro after before id heq
      rw [hhistory] at heq
      simp at heq
  · rintro s a s' _ hinv ⟨hstep, hdelivered⟩
    exact hinv.act hdelivered hstep

end Steps

/-! ## Main result -/

/-- In every run in which every dispatch of the supervisor gets through, and a ticket is not parked
    while a re-send of it or progress on it is still being handled, a ticket is parked for
    exhausted re-sends only if `MAX_SUPERVISOR_REDISPATCHES` triggers of the supervisor were
    emitted for it since its last progress. -/
theorem parks_earned {s : DispatchState} (h : deliveredRuns.Reachable s) : s.ParksEarned :=
  (superviseInv_reachable h).earned

/-- A ticket whose agent has been silent for half an hour. -/
def silentTicket : DispatchState where
  db :=
    { tickets := [
        { id := "T", status := .in_progress, account_id := "A", assignee_key := "rt-1",
          assignee := some { manager_agent_id := "H", identityKey := "rt-1" } }]
      links := [] }
  log := []
  clock := 1800000
  nackRetryAt := []
  outputs := []
  dispatches := []
  acks := []
  handlers := []
  passes := []
  history := []

theorem silentTicket_init : dispatchSystem.init silentTicket :=
  ⟨by decide, by decide, rfl, rfl, rfl, rfl, rfl, rfl, rfl⟩

/-- Pass number `i`, up to the park of the ticket or the claim of a re-send. -/
def superviseUpToClaim (i : Nat) : List DispatchAction :=
  [.supervise [{ id := "A" }], .pass i {}, .pass i {}, .pass i {}, .pass i {}]

/-- A pass whose trigger gets through, and the wait for the next one. -/
def superviseDelivered (i : Nat) (triggerId : String) : List DispatchAction :=
  let o : DispatchOutside :=
    { host := some { account_id := "A" }, account := some { id := "A" }, triggerId }
  superviseUpToClaim i ++ [.dispatch i o, .dispatch i o, .dispatch i o, .dispatch i o, .pass i {},
    .tick (1800000 + 300000 * (i + 1))]

/-- A pass that meets a host that is offline. -/
def superviseOffline (i : Nat) : List DispatchAction :=
  superviseUpToClaim i ++ [.dispatch i
    { host := some { account_id := "A" }, account := some { id := "A" }, reachable := false },
    .pass i {}]

/-- Three re-sends reach the host without an answer of the agent, and the ticket is parked. -/
theorem parks_earned_silentTicket :
    ∃ s, deliveredRuns.Reachable s ∧
      s.history = [.parked "T", .emitted "T" "t3" .supervisor, .emitted "T" "t2" .supervisor,
        .emitted "T" "t1" .supervisor] ∧
      s.ParksEarned := by
  obtain ⟨s, hreach, hs⟩ := Transition.exists_reachable_guarded (M := deliveredRuns)
    (C := DispatchState.Delivered) (fun _ _ _ hok h => ⟨h, hok⟩) silentTicket_init
    (superviseDelivered 0 "t1" ++ superviseDelivered 1 "t2" ++ superviseDelivered 2 "t3" ++
      superviseUpToClaim 3)
    (fun s => s.history = [.parked "T", .emitted "T" "t3" .supervisor,
      .emitted "T" "t2" .supervisor, .emitted "T" "t1" .supervisor])
    (by decide +kernel)
  exact ⟨s, hreach, of_decide_eq_true hs, parks_earned hreach⟩

/-- The host is offline for three passes: the ticket is parked, and nothing was sent. -/
theorem not_always_parksEarned : ¬ ∀ s, dispatchSystem.Reachable s → s.ParksEarned := by
  intro hall
  have hrun : ∀ s a t, DispatchState.act s a = .ok t → dispatchSystem.step s a t :=
    fun _ _ _ h => h
  obtain ⟨s, hpath, hs⟩ := Transition.exists_path_of_run hrun silentTicket
    (superviseOffline 0 ++ superviseOffline 1 ++ superviseOffline 2 ++ superviseUpToClaim 3)
    (fun s => s.history = [.parked "T"]) (by decide +kernel)
  have hearned := hall s (.path (.init silentTicket_init) hpath) [] [] "T" (of_decide_eq_true hs)
  exact absurd hearned (by decide)

end WorkflowBoard.Tickets
