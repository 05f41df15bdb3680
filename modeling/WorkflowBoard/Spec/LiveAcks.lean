import WorkflowBoard.ForStd.List
import WorkflowBoard.Native.Dispatch

/-!
# Answers of a manager and the live state of a ticket

A manager that suppresses a trigger because the process of the last one is alive says so, and
`applyManagerAck` records a live process on the ticket. Answers come late, twice and out of order.

The live state follows the last trigger of a ticket, whatever its source: the answer to a human
comment counts as much as the answer to a re-send of the supervisor (`not_only_supervisor_acks`).

`live_acks`, for answers to one ticket that are handled one after the other, and dispatches of a
ticket that are not stamped in the same millisecond: an answer changes a ticket only if it is about
the last trigger sent to its assignee; a trigger is recorded as live once; and the start of the
quiet episode moves only to the time of later output. The last part holds of every step
(`episode_kept`), the first of answers handled at once as well (`ack_about_last`).
-/

namespace WorkflowBoard.Tickets

/-! ## What the answers may do -/

/-- The trigger is the last one of the ticket and was sent to its assignee. The rows are newest
    first; a newer trigger has not been sent yet, its dispatch is still before the stamp. -/
def DispatchState.LastTrigger (s : DispatchState) (t : Ticket) (triggerId : String) : Prop :=
  ∃ newer row older, s.log = newer ++ row :: older ∧ row.ticket_id = t.id ∧
    row.action = .trigger_emitted ∧ row.field_changed = triggerId ∧
    row.new_value = t.assignee_key ∧
    ∀ e ∈ newer, e.ticket_id = t.id → e.action = .trigger_emitted →
      ∃ d ∈ s.dispatches, d.ticket.id = t.id ∧ d.phase = .logged e.field_changed

/-- An answer that changes the ticket: it is about the last trigger, and either the first live
    answer to it, which keeps the start of the episode if there is one, or the word that the
    trigger was processed. -/
def AckChanges (s t : DispatchState) (a : AckArgs) : Prop :=
  ∃ r, s.db.ticket? a.ticketId = some r ∧ s.LastTrigger r a.triggerId ∧
    ((a.isLive ∧ .live r.id a.triggerId ∉ s.history ∧ ∃ now,
        t.db = s.db.update r.id (Ticket.recordLive (r.supervisor_live_since.getD now) now)) ∨
      (a.outcome = .processed ∧ t.db = s.db.update r.id Ticket.clearLive))

def DispatchEvent.isLive : DispatchEvent → Bool
  | .live _ _ => true
  | _ => false

/-- The start of an episode stays, or moves to the time of output that a pass has seen. -/
def EpisodeKept (s : DispatchState) (a : DispatchAction) (r r' : Ticket) : Prop :=
  ∀ x y, r.supervisor_live_since = some x → r'.supervisor_live_since = some y →
    y = x ∨ (x < y ∧ y = s.latestOutput r.id ∧ ∃ i o, a = .pass i o)

/-! ## The order of the answers -/

/-- The answer is being handled. -/
def AckCall.underWay (c : AckCall) : Bool :=
  match c.phase with
  | .start => false
  | .returned _ => false
  | _ => true

/-- The ticket that a dispatch is about to stamp. -/
def DispatchCall.stamping (c : DispatchCall) : Option String :=
  match c.phase with
  | .logged _ => some c.ticket.id
  | _ => none

/-- The handling of an answer starts when no other answer to its ticket is being handled, and a
    dispatch stamps its ticket later than the last one did. -/
def DispatchState.InTurn (s : DispatchState) : DispatchAction → Prop
  | .ack i => ∀ c ∈ s.acks[i]?, c.phase = .start →
      ∀ d ∈ s.acks, d.underWay → d.args.ticketId ≠ c.args.ticketId
  | .dispatch i _ => ∀ id ∈ s.dispatches[i]?.bind DispatchCall.stamping,
      ∀ r ∈ s.db.ticket? id, ∀ x ∈ r.last_dispatched_at, x < s.clock
  | _ => True

instance (s : DispatchState) (a : DispatchAction) : Decidable (s.InTurn a) :=
  match a with
  | .ack i => inferInstanceAs (Decidable (∀ c ∈ s.acks[i]?, c.phase = .start →
      ∀ d ∈ s.acks, d.underWay → d.args.ticketId ≠ c.args.ticketId))
  | .dispatch i _ => inferInstanceAs (Decidable (
      ∀ id ∈ s.dispatches[i]?.bind DispatchCall.stamping, ∀ r ∈ s.db.ticket? id,
        ∀ x ∈ r.last_dispatched_at, x < s.clock))
  | .pass _ _ => .isTrue trivial
  | .tick _ => .isTrue trivial
  | .output _ _ => .isTrue trivial
  | .change _ _ => .isTrue trivial
  | .startDispatch _ _ => .isTrue trivial
  | .startAck _ => .isTrue trivial
  | .startProgress _ => .isTrue trivial
  | .progress _ => .isTrue trivial
  | .supervise _ => .isTrue trivial

/-- Runs in which answers to one ticket are handled in turn. -/
def answersInTurn : Transition DispatchState DispatchAction :=
  dispatchSystem.restrict fun s a _ => s.InTurn a

/-- Only the dispatches are held to their turn: each stamps its ticket later than the last one. -/
def DispatchState.StampsLater (s : DispatchState) (a : DispatchAction) : Prop :=
  ∀ i o, a = .dispatch i o → s.InTurn a

/-- Runs in which no two dispatches stamp a ticket in the same millisecond. -/
def stampsLater : Transition DispatchState DispatchAction :=
  dispatchSystem.restrict fun s a _ => s.StampsLater a

/-! ## What a step leaves alone -/

/-- The last stamp of a ticket stays or moves on. -/
def StampKept (r r' : Ticket) : Prop :=
  r'.last_dispatched_at = r.last_dispatched_at ∨
    ∃ y, r'.last_dispatched_at = some y ∧ ∀ x ∈ r.last_dispatched_at, x < y

/-- What every step does to the rows, the log and the dispatches before their stamp. -/
structure StepFrame (s t : DispatchState) (a : DispatchAction) : Prop where
  rows : ∀ id r', t.db.ticket? id = some r' → ∃ r, s.db.ticket? id = some r ∧
    (s.StampsLater a → StampKept r r') ∧ EpisodeKept s a r r'
  log : ∃ new, t.log = new ++ s.log ∧ ∀ e ∈ new, e.action = .trigger_emitted →
    ∃ d ∈ t.dispatches, d.ticket.id = e.ticket_id ∧ d.phase = .logged e.field_changed
  dispatches : s.StampsLater a → ∀ d ∈ s.dispatches, ∀ triggerId, d.phase = .logged triggerId →
    d ∈ t.dispatches ∨ ∀ r', t.db.ticket? d.ticket.id = some r' →
      ∃ y, r'.last_dispatched_at = some y ∧
        ∀ r, s.db.ticket? d.ticket.id = some r → ∀ x ∈ r.last_dispatched_at, x < y

section Frame

variable {s t : DispatchState} {a : DispatchAction}

theorem StampKept.refl (r : Ticket) : StampKept r r := .inl rfl

theorem EpisodeKept.of_eq {r r' : Ticket}
    (h : r'.supervisor_live_since = r.supervisor_live_since ∨ r'.supervisor_live_since = none) :
    EpisodeKept s a r r' := by
  intro x y hx hy
  obtain heq | hnone := h
  · rw [heq, hx] at hy
    exact .inl (Option.some.inj hy).symm
  · rw [hnone] at hy
    cases hy

theorem rows_of_eq (hdb : t.db = s.db) : ∀ id r', t.db.ticket? id = some r' →
    ∃ r, s.db.ticket? id = some r ∧ (s.StampsLater a → StampKept r r') ∧ EpisodeKept s a r r' := by
  intro id r hr
  rw [hdb] at hr
  exact ⟨r, hr, fun _ => .refl r, .of_eq (.inl rfl)⟩

theorem rows_of_update {j : String} {f : Ticket → Ticket} (hid : ∀ x, (f x).id = x.id)
    (hdb : t.db = s.db.update j f)
    (hrow : ∀ r, s.db.ticket? j = some r →
      (s.StampsLater a → StampKept r (f r)) ∧ EpisodeKept s a r (f r)) :
    ∀ id r', t.db.ticket? id = some r' → ∃ r, s.db.ticket? id = some r ∧
      (s.StampsLater a → StampKept r r') ∧ EpisodeKept s a r r' := by
  intro id r' hr'
  rw [hdb] at hr'
  obtain ⟨r, hr, ⟨rfl, rfl⟩ | ⟨-, rfl⟩⟩ := TicketDb.ticket?_of_update hid hr'
  · exact ⟨r, hr, hrow r hr⟩
  · exact ⟨_, hr, fun _ => .refl _, .of_eq (.inl rfl)⟩

/-- A step that writes no log row and forgets no dispatch. -/
theorem StepFrame.of_rows (hrows : ∀ id r', t.db.ticket? id = some r' → ∃ r,
      s.db.ticket? id = some r ∧ (s.StampsLater a → StampKept r r') ∧ EpisodeKept s a r r')
    (hlog : t.log = s.log) (hdispatches : ∀ d ∈ s.dispatches, d ∈ t.dispatches) :
    StepFrame s t a := by
  refine ⟨hrows, ⟨[], hlog, ?_⟩, ?_⟩
  · intro e he
    cases he
  · exact fun _ d hd _ _ => .inl (hdispatches d hd)

theorem ackStep_frame {i : Nat} {args : AckArgs} {phase phase' : AckPhase}
    (h : s.ackStep args phase = some (t, phase')) : StepFrame s t (.ack i) := by
  cases DispatchState.acks_of_ackStep h with
  | read => exact .of_rows (rows_of_eq rfl) rfl fun _ hd => hd
  | @record x row now hrow hcond =>
    refine .of_rows (rows_of_update ?_ rfl ?_) rfl fun _ hd => hd
    · exact fun _ => rfl
    · intro r hr
      rw [hrow] at hr
      cases hr
      refine ⟨fun _ => .inl rfl, ?_⟩
      intro since since' hsince hsince'
      simp only [Ticket.sameEpisode, Bool.and_eq_true, decide_eq_true_eq] at hcond
      -- the start of the episode is the one that was read
      have hread : x.supervisor_live_since = some since := hcond.1.2.symm.trans hsince
      rw [Ticket.recordLive, hread] at hsince'
      exact .inl (Option.some.inj hsince').symm
  | clear =>
    refine .of_rows (rows_of_update ?_ rfl ?_) rfl fun _ hd => hd
    · exact fun _ => rfl
    · exact fun r _ => ⟨fun _ => .inl rfl, .of_eq (.inr rfl)⟩
  | log hrow =>
    refine ⟨rows_of_eq rfl, ⟨[_], rfl, ?_⟩, fun _ d hd _ _ => .inl hd⟩
    intro e he haction
    obtain rfl := List.mem_singleton.mp he
    rw [hrow] at haction
    cases haction

theorem dispatchStep_frame {i : Nat} {o : DispatchOutside} {c : DispatchCall}
    {phase : DispatchPhase} (hc : s.dispatches[i]? = some c)
    (h : s.dispatchStep o c = some (t, phase)) :
    StepFrame s { t with dispatches := t.dispatches.set i { c with phase } } (.dispatch i o) := by
  have hlt : i < s.dispatches.length := lt_of_getElem? hc
  -- the other dispatches are where they were
  have hother : ∀ d ∈ s.dispatches, d ≠ c → d ∈ s.dispatches.set i { c with phase } := by
    intro d hd hne
    obtain ⟨k, hk⟩ := List.mem_iff_getElem?.mp hd
    have hik : i ≠ k := by
      rintro rfl
      rw [hc] at hk
      exact hne (Option.some.inj hk).symm
    exact List.mem_of_getElem? ((List.getElem?_set_ne hik).trans hk)
  have hkept : (∀ triggerId, c.phase ≠ .logged triggerId) → ∀ d ∈ s.dispatches, ∀ triggerId,
      d.phase = .logged triggerId → d ∈ s.dispatches.set i { c with phase } := by
    intro hnot d hd triggerId hlogged
    apply hother d hd
    rintro rfl
    exact hnot triggerId hlogged
  unfold DispatchState.dispatchStep at h
  cases hphase : c.phase with
  | start =>
    rw [hphase] at h
    have ht : t = s := by
      dsimp only at h
      split at h <;> cases h <;> rfl
    subst ht
    refine ⟨rows_of_eq rfl, ⟨[], rfl, nofun⟩, ?_⟩
    exact fun _ d hd tr htr => .inl (hkept (by simp [hphase]) d hd tr htr)
  | checked triggerId =>
    rw [hphase] at h
    cases h
    refine ⟨rows_of_eq rfl, ⟨[_], rfl, ?_⟩, ?_⟩
    · intro e he _
      obtain rfl := List.mem_singleton.mp he
      exact ⟨_, List.mem_set hlt _, rfl, rfl⟩
    · exact fun _ d hd tr htr => .inl (hkept (by simp [hphase]) d hd tr htr)
  | logged triggerId =>
    rw [hphase] at h
    cases h
    have hlater : s.StampsLater (.dispatch i o) → ∀ r, s.db.ticket? c.ticket.id = some r →
        ∀ x ∈ r.last_dispatched_at, x < s.clock := by
      intro hturn
      apply hturn i o rfl
      rw [hc]
      show _ ∈ c.stamping
      unfold DispatchCall.stamping
      rw [hphase]
      rfl
    have hid : ∀ x, (Ticket.stamp c.source s.clock x).id = x.id := fun _ => rfl
    refine ⟨rows_of_update hid rfl ?_, ⟨[], rfl, nofun⟩, ?_⟩
    · intro r hr
      refine ⟨fun hturn => .inr ⟨s.clock, rfl, hlater hturn r hr⟩, .of_eq ?_⟩
      unfold Ticket.stamp
      dsimp only
      split
      · exact .inl rfl
      · exact .inr rfl
    · intro hturn d hd tr htr
      by_cases hdc : d = c
      · -- this dispatch stamps its ticket
        subst hdc
        right
        intro r' hr'
        obtain ⟨r, hr, ⟨-, rfl⟩ | ⟨hne, -⟩⟩ := TicketDb.ticket?_of_update hid hr'
        · exact ⟨s.clock, rfl, hlater hturn⟩
        · exact absurd rfl hne
      · exact .inl (hother d hd hdc)
  | stamped triggerId =>
    rw [hphase] at h
    cases h
    refine ⟨rows_of_eq rfl, ⟨[], rfl, nofun⟩, ?_⟩
    exact fun _ d hd tr htr => .inl (hkept (by simp [hphase]) d hd tr htr)
  | returned reason =>
    rw [hphase] at h
    cases h

theorem change_frame {j : String} (c : TicketChange) (now : Date) (r : Ticket) :
    (s.StampsLater (.change j c) → StampKept r (c.apply now r)) ∧
      EpisodeKept s (.change j c) r (c.apply now r) := by
  refine ⟨fun _ => .inl (c.apply_kept now r).2.2, .of_eq ?_⟩
  obtain ⟨-, -, hsame⟩ | ⟨-, -, hnone⟩ := c.apply_record now r
  · exact .inl hsame
  · exact .inr hnone

theorem passStep_frame {i : Nat} {o : PassOutside} {p p' : Pass}
    (h : s.passStep o p = some (t, p')) : StepFrame s t (.pass i o) := by
  cases DispatchState.passes_of_passStep h with
  | read => exact .of_rows (rows_of_eq rfl) rfl fun _ hd => List.mem_append_left _ hd
  | @output x row hrow hcond houtput =>
    -- output that a pass has seen moves the start of the episode
    refine .of_rows (rows_of_update ?_ rfl ?_) rfl fun _ hd => hd
    · exact fun _ => rfl
    · intro r hr
      rw [hrow] at hr
      cases hr
      refine ⟨fun _ => .inl rfl, ?_⟩
      intro since since' hsince hsince'
      cases hsince'
      simp only [Ticket.sameRecord, Bool.and_eq_true, decide_eq_true_eq] at hcond
      have hread : x.supervisor_live_since = some since := hcond.1.2.symm.trans hsince
      rw [hread, Option.any_some, decide_eq_true_eq] at houtput
      have hid : row.id = x.id := (TicketDb.mem_of_ticket? hrow).2
      exact .inr ⟨houtput, by rw [hid], i, o, rfl⟩
  | park =>
    refine .of_rows (rows_of_update ?_ rfl ?_) rfl fun _ hd => hd
    · exact fun _ => rfl
    · exact fun r _ => ⟨fun _ => .inl rfl, .of_eq (.inl rfl)⟩
  | resend =>
    refine .of_rows (rows_of_update ?_ rfl ?_) rfl fun _ hd => List.mem_append_left _ hd
    · exact fun _ => rfl
    · exact fun r _ => ⟨fun _ => .inl rfl, .of_eq (.inl rfl)⟩

/-- What a step does to the rows, whoever else is at work. -/
theorem act_frame (h : s.act a = .ok t) : StepFrame s t a := by
  cases DispatchState.acts_of_act h with
  | change hx =>
    exact .of_rows (rows_of_update (TicketChange.apply_id _ s.clock) rfl
      fun r _ => change_frame _ s.clock r) rfl fun _ hd => hd
  | startDispatch => exact .of_rows (rows_of_eq rfl) rfl fun _ hd => List.mem_append_left _ hd
  | dispatch hc hstep => exact dispatchStep_frame hc hstep
  | @ack i _ _ _ hc hstep =>
    have hframe := ackStep_frame (i := i) hstep
    exact ⟨hframe.rows, hframe.log, hframe.dispatches⟩
  | progress hc hstep =>
    unfold DispatchState.progressStep at hstep
    split at hstep
    · split at hstep <;> cases hstep <;> exact .of_rows (rows_of_eq rfl) rfl fun _ hd => hd
    · cases hstep
      refine .of_rows (rows_of_update (f := Ticket.restart) ?_ rfl ?_) rfl fun _ hd => hd
      · exact fun _ => rfl
      · exact fun r _ => ⟨fun _ => .inl rfl, .of_eq (.inr rfl)⟩
    · cases hstep
  | @pass i _ _ _ _ hp hstep =>
    have hframe := passStep_frame (i := i) hstep
    exact ⟨hframe.rows, hframe.log, hframe.dispatches⟩
  | _ => exact .of_rows (rows_of_eq rfl) rfl fun _ hd => hd

/-- No step moves the start of a quiet episode but one that has seen later output: in every order
    of the answers and of the dispatches. -/
theorem episode_kept {id : String} {r r' : Ticket} (h : dispatchSystem.step s a t)
    (hr : s.db.ticket? id = some r) (hr' : t.db.ticket? id = some r') : EpisodeKept s a r r' := by
  obtain ⟨r₀, hr₀, -, hkept⟩ := (act_frame h).rows id r' hr'
  rw [hr] at hr₀
  cases hr₀
  exact hkept

end Frame

/-! ## Steps that are not about answers -/

/-- The answers, the record of live processes and the rows of answers stay as they are. -/
structure Quiet (s t : DispatchState) : Prop where
  acks : t.acks = s.acks
  live : t.history.filter (·.isLive) = s.history.filter (·.isLive)
  log : ∃ new, t.log = new ++ s.log ∧ ∀ e ∈ new, e.action = .trigger_emitted

section Quiet

variable {s t : DispatchState}

theorem Quiet.of_eq (hacks : t.acks = s.acks)
    (hlive : t.history.filter (·.isLive) = s.history.filter (·.isLive)) (hlog : t.log = s.log) :
    Quiet s t :=
  ⟨hacks, hlive, [], hlog, nofun⟩

theorem passStep_quiet {o : PassOutside} {p p' : Pass} (h : s.passStep o p = some (t, p')) :
    Quiet s t := by
  cases DispatchState.passes_of_passStep h with
  | @park x liveQuiet =>
    refine .of_eq rfl ?_ rfl
    cases liveQuiet <;> rfl
  | _ => exact .of_eq rfl rfl rfl

/-- Everything but the start of an answer and its handling. -/
theorem act_quiet {a : DispatchAction} (hack : ∀ i, a ≠ .ack i)
    (hstart : ∀ args, a ≠ .startAck args) (h : s.act a = .ok t) : Quiet s t := by
  cases DispatchState.acts_of_act h with
  | change hx =>
    refine .of_eq rfl ?_ rfl
    dsimp only
    split <;> rfl
  | dispatch hc hstep =>
    unfold DispatchState.dispatchStep at hstep
    split at hstep
    · split at hstep <;> cases hstep <;> exact .of_eq rfl rfl rfl
    · cases hstep
      refine ⟨rfl, rfl, [_], rfl, ?_⟩
      intro e he
      obtain rfl := List.mem_singleton.mp he
      rfl
    · cases hstep
      exact .of_eq rfl rfl rfl
    · cases hstep
      exact .of_eq rfl rfl rfl
    · cases hstep
  | startAck => exact absurd rfl (hstart _)
  | ack => exact absurd rfl (hack _)
  | progress hc hstep =>
    unfold DispatchState.progressStep at hstep
    split at hstep
    · split at hstep <;> cases hstep <;> exact .of_eq rfl rfl rfl
    · cases hstep
      exact .of_eq rfl rfl rfl
    · cases hstep
  | pass hp hstep =>
    have hquiet := passStep_quiet hstep
    exact ⟨hquiet.acks, hquiet.live, hquiet.log⟩
  | _ => exact .of_eq rfl rfl rfl

end Quiet

/-! ## The invariant -/

/-- The ticket as it was read has not been stamped later than the row. -/
def DispatchState.Held (s : DispatchState) (x : Ticket) : Prop :=
  ∀ r, s.db.ticket? x.id = some r → ∀ d ∈ x.last_dispatched_at,
    ∃ d', r.last_dispatched_at = some d' ∧ d ≤ d'

/-- The row has been stamped since it was read. -/
def DispatchState.Outdated (s : DispatchState) (x : Ticket) : Prop :=
  ∀ r, s.db.ticket? x.id = some r →
    ∃ y, r.last_dispatched_at = some y ∧ ∀ d ∈ x.last_dispatched_at, d < y

/-- The answer is about the last trigger, or the ticket as it was read is outdated. -/
def DispatchState.Confirmed (s : DispatchState) (x : Ticket) (triggerId : String) : Prop :=
  s.Held x ∧ (s.LastTrigger x triggerId ∨ s.Outdated x)

section Confirmed

variable {s t : DispatchState} {a : DispatchAction} {x : Ticket} {triggerId : String}

theorem DispatchState.Held.frame (h : s.Held x) (hframe : StepFrame s t a)
    (hlater : s.StampsLater a) : t.Held x := by
  intro r' hr' d hd
  obtain ⟨r, hr, hstamp, -⟩ := hframe.rows _ r' hr'
  obtain ⟨d', hd', hle⟩ := h r hr d hd
  obtain heq | ⟨y, hy, hlt⟩ := hstamp hlater
  · exact ⟨d', heq.trans hd', hle⟩
  · exact ⟨y, hy, Int.le_of_lt (Int.lt_of_le_of_lt hle (hlt d' hd'))⟩

theorem DispatchState.Outdated.frame (h : s.Outdated x) (hframe : StepFrame s t a)
    (hlater : s.StampsLater a) : t.Outdated x := by
  intro r' hr'
  obtain ⟨r, hr, hstamp, -⟩ := hframe.rows _ r' hr'
  obtain ⟨y, hy, hlt⟩ := h r hr
  obtain heq | ⟨y', hy', hlt'⟩ := hstamp hlater
  · exact ⟨y, heq.trans hy, hlt⟩
  · exact ⟨y', hy', fun d hd => Int.lt_trans (hlt d hd) (hlt' y hy)⟩

/-- A newer trigger is before its stamp, or its stamp has outdated the answer. -/
theorem DispatchState.Confirmed.frame (h : s.Confirmed x triggerId) (hframe : StepFrame s t a)
    (hlater : s.StampsLater a) : t.Confirmed x triggerId := by
  obtain ⟨hheld, hlast | hout⟩ := h
  · refine ⟨hheld.frame hframe hlater, ?_⟩
    obtain ⟨newer, row, older, hlog, hticket, haction, hfield, hvalue, hnewer⟩ := hlast
    by_cases hgone : ∃ d ∈ s.dispatches, d.ticket.id = x.id ∧ (∃ tr, d.phase = .logged tr) ∧
        d ∉ t.dispatches
    · right
      obtain ⟨d, hd, hid, ⟨tr, htr⟩, hnot⟩ := hgone
      obtain hstill | hstamped := hframe.dispatches hlater d hd tr htr
      · exact absurd hstill hnot
      · intro r' hr'
        rw [hid] at hstamped
        obtain ⟨y, hy, hlt⟩ := hstamped r' hr'
        obtain ⟨r, hr, -⟩ := hframe.rows _ r' hr'
        refine ⟨y, hy, ?_⟩
        intro z hz
        obtain ⟨z', hz', hle⟩ := hheld r hr z hz
        exact Int.lt_of_le_of_lt hle (hlt r hr z' hz')
    · left
      obtain ⟨new, hnew, hnewlogged⟩ := hframe.log
      refine ⟨new ++ newer, row, older, ?_, hticket, haction, hfield, hvalue, ?_⟩
      · rw [hnew, hlog, List.append_assoc]
      · intro e he hetick heaction
        obtain he | he := List.mem_append.mp he
        · obtain ⟨d, hd, hdid, hdphase⟩ := hnewlogged e he heaction
          exact ⟨d, hd, hdid.trans hetick, hdphase⟩
        · obtain ⟨d, hd, hdid, hdphase⟩ := hnewer e he hetick heaction
          refine ⟨d, ?_, hdid, hdphase⟩
          by_contra hnot
          exact hgone ⟨d, hd, hdid, ⟨_, hdphase⟩, hnot⟩
  · exact ⟨hheld.frame hframe hlater, .inr (hout.frame hframe hlater)⟩

end Confirmed

/-! ## What an answer has found out -/

/-- What the handling of an answer has found out. -/
def AckOk (s : DispatchState) (c : AckCall) : Prop :=
  match c.phase with
  | .live x => x.id = c.args.ticketId ∧ c.args.isLive ∧ s.Held x
  | .unique x _ => x.id = c.args.ticketId ∧ c.args.isLive ∧ s.Confirmed x c.args.triggerId
  | .record x _ => x.id = c.args.ticketId ∧ c.args.isLive ∧ s.Confirmed x c.args.triggerId
  | .processed x => x.id = c.args.ticketId ∧ c.args.outcome = .processed ∧ s.Held x
  | .clear x => x.id = c.args.ticketId ∧ c.args.outcome = .processed ∧
      s.Confirmed x c.args.triggerId
  | _ => True

/-- What an answer does to its ticket: the ticket was sent the trigger last, and it becomes live or
    is cleared. -/
def AboutLast (s t : DispatchState) (a : AckArgs) : Prop :=
  ∃ r, s.db.ticket? a.ticketId = some r ∧ s.LastTrigger r a.triggerId ∧
    ((a.isLive ∧ t.history = .live r.id a.triggerId :: s.history ∧ ∃ now,
        t.db = s.db.update r.id (Ticket.recordLive (r.supervisor_live_since.getD now) now)) ∨
      (a.outcome = .processed ∧ t.db = s.db.update r.id Ticket.clearLive))

section Answers

variable {s t : DispatchState} {a : DispatchAction} {c : AckCall} {i : Nat} {phase : AckPhase}

theorem AckOk.frame (h : AckOk s c) (hframe : StepFrame s t a) (hlater : s.StampsLater a) :
    AckOk t c := by
  unfold AckOk at h ⊢
  split at h
  case h_6 => trivial
  all_goals exact ⟨h.1, h.2.1, h.2.2.frame hframe hlater⟩

/-- The read of the last trigger confirms the answer. -/
theorem confirmed_of_isLatest {x : Ticket} {args : AckArgs} (hheld : s.Held x)
    (h : args.isLatest s.log x) : s.Confirmed x args.triggerId := by
  refine ⟨hheld, .inl ?_⟩
  simp only [AckArgs.isLatest, Bool.and_eq_true] at h
  obtain ⟨row, hrow, hmatch⟩ := (Option.any_eq_true _ _).mp h.2
  obtain ⟨hp, newer, older, hlog, hnewer⟩ := List.find?_eq_some_iff_append.mp hrow
  simp only [Bool.and_eq_true, decide_eq_true_eq] at hp hmatch
  refine ⟨newer, row, older, hlog, hp.1, hp.2, hmatch.1, hmatch.2, ?_⟩
  intro e he hticket haction
  have := hnewer e he
  simp [hticket, haction] at this

theorem held_of_ticket? {id : String} {x : Ticket} (h : s.db.ticket? id = some x) : s.Held x := by
  intro r hr d hd
  obtain rfl := (TicketDb.mem_of_ticket? h).2
  rw [h] at hr
  cases hr
  exact ⟨d, hd, Int.le_refl d⟩

/-- Each statement of an answer finds out what the next one relies on. -/
theorem ackStep_ok (hok : AckOk s c) (h : s.ackStep c.args c.phase = some (t, phase)) :
    AckOk t { c with phase } := by
  unfold AckOk at hok
  cases hphase : c.phase <;> rw [hphase] at h hok <;> simp only [DispatchState.ackStep] at h
  case start =>
    split at h
    · cases h
      trivial
    · rename_i x hx
      have hid := (TicketDb.mem_of_ticket? hx).2
      split at h
      · rename_i hlive
        cases h
        exact ⟨hid, hlive, held_of_ticket? hx⟩
      · split at h
        · rename_i hprocessed
          cases h
          exact ⟨hid, hprocessed.1, held_of_ticket? hx⟩
        · cases h
          trivial
  case live x =>
    split at h
    · rename_i hlatest
      cases h
      exact ⟨hok.1, hok.2.1, confirmed_of_isLatest hok.2.2 hlatest.1⟩
    · cases h
      trivial
  case unique x now =>
    split at h
    · cases h
      trivial
    · cases h
      exact hok
  case record x now => split at h <;> cases h <;> trivial
  case processed x =>
    split at h
    · rename_i hlatest
      cases h
      exact ⟨hok.1, hok.2.1, confirmed_of_isLatest hok.2.2 hlatest⟩
    · cases h
      trivial
  case clear | log => cases h; trivial
  case returned => cases h

theorem acks_kept {args : AckArgs} {before : AckPhase}
    (h : s.ackStep args before = some (t, phase)) : t.acks = s.acks := by
  cases DispatchState.acks_of_ackStep h <;> rfl

/-- One step keeps what the answers have found out. -/
theorem AckOk.act (hcalls : ∀ c ∈ s.acks, AckOk s c) (hlater : s.StampsLater a)
    (h : s.act a = .ok t) : ∀ c ∈ t.acks, AckOk t c := by
  have hold : ∀ c ∈ s.acks, AckOk t c := fun c hc => (hcalls c hc).frame (act_frame h) hlater
  by_cases hack : ∃ i, a = .ack i
  · obtain ⟨i, rfl⟩ := hack
    cases DispatchState.acts_of_act h with
    | ack hc hstep =>
      intro d hd
      obtain hd | rfl := List.mem_or_eq_of_mem_set hd
      · rw [acks_kept hstep] at hd
        exact hold d hd
      · have hok := ackStep_ok (hcalls _ (List.mem_of_getElem? hc)) hstep
        exact hok
  · by_cases hstart : ∃ args, a = .startAck args
    · obtain ⟨args, rfl⟩ := hstart
      cases h
      exact List.forall_mem_append.mpr ⟨hold, List.forall_mem_singleton.mpr trivial⟩
    · rw [(act_quiet (fun i hi => hack ⟨i, hi⟩) (fun args ha => hstart ⟨args, ha⟩) h).acks]
      exact hold

theorem ackOk_reachable (h : stampsLater.Reachable s) : ∀ c ∈ s.acks, AckOk s c := by
  refine h.invariant (P := fun s => ∀ c ∈ s.acks, AckOk s c) ?_ ?_
  · rintro s ⟨-, -, -, -, -, hacks, -, -, -⟩ c hc
    rw [hacks] at hc
    cases hc
  · rintro s a s' _ hcalls ⟨hstep, hlater⟩
    exact AckOk.act hcalls hlater hstep

/-- An update that finds the stamp and the assignee that were read is about the last trigger. -/
theorem lastTrigger_of_confirmed {x r : Ticket} {triggerId : String}
    (h : s.Confirmed x triggerId) (hr : s.db.ticket? x.id = some r)
    (hstamp : r.last_dispatched_at = x.last_dispatched_at)
    (hkey : r.assignee_key = x.assignee_key) : s.LastTrigger r triggerId := by
  have hid : r.id = x.id := (TicketDb.mem_of_ticket? hr).2
  obtain ⟨-, hlast | hout⟩ := h
  · unfold DispatchState.LastTrigger at hlast ⊢
    rw [hid, hkey]
    exact hlast
  · obtain ⟨y, hy, hlt⟩ := hout r hr
    rw [hstamp] at hy
    exact absurd (hlt y hy) (Int.lt_irrefl y)

/-- What an answer that is being handled does to the tickets. -/
theorem ackStep_changes (hok : AckOk s c) (h : s.ackStep c.args c.phase = some (t, phase)) :
    t.db = s.db ∨ AboutLast s t c.args := by
  unfold AckOk at hok
  generalize hphase : c.phase = before at h hok
  cases DispatchState.acks_of_ackStep h with
  | read | log => exact .inl rfl
  | @record x r now hr hcond =>
    right
    obtain ⟨hid, hlive, hconfirmed⟩ := hok
    simp only [Ticket.sameEpisode, Bool.and_eq_true, decide_eq_true_eq] at hcond
    obtain ⟨⟨⟨⟨⟨⟨hkey, -⟩, hstamp⟩, -⟩, -⟩, hsince⟩, -⟩ := hcond
    have hrid : r.id = x.id := (TicketDb.mem_of_ticket? hr).2
    refine ⟨r, hid ▸ hr, lastTrigger_of_confirmed hconfirmed hr hstamp hkey,
      .inl ⟨hlive, ?_, now, ?_⟩⟩
    · rw [hrid]
    · rw [hrid, hsince]
  | @clear x r hr hcond =>
    right
    obtain ⟨hid, hprocessed, hconfirmed⟩ := hok
    simp only [Ticket.sameHolder, Bool.and_eq_true, decide_eq_true_eq] at hcond
    obtain ⟨⟨⟨hkey, hstamp⟩, -⟩, -⟩ := hcond
    have hrid : r.id = x.id := (TicketDb.mem_of_ticket? hr).2
    refine ⟨r, hid ▸ hr, lastTrigger_of_confirmed hconfirmed hr hstamp hkey,
      .inr ⟨hprocessed, ?_⟩⟩
    rw [hrid]

/-- However many answers to a ticket are handled at once, an answer changes only the ticket that was
    sent its trigger last. -/
theorem ack_about_last (hs : stampsLater.Reachable s) (hstep : dispatchSystem.step s (.ack i) t)
    (hc : s.acks[i]? = some c) : t.db = s.db ∨ AboutLast s t c.args := by
  have hact : s.act (.ack i) = .ok t := hstep
  cases DispatchState.acts_of_act hact with
  | ack hc' hack =>
    rw [hc] at hc'
    cases hc'
    have hchanges := ackStep_changes (ackOk_reachable hs c (List.mem_of_getElem? hc)) hack
    exact hchanges

end Answers

/-! ## Answers in turn -/

/-- A live answer to the trigger is in the log. -/
def LoggedLive (log : List ActivityRow) (id triggerId : String) : Prop :=
  ∃ row ∈ log, row.ticket_id = id ∧ row.action = .dispatch_ack .suppressed ∧
    row.field_changed = triggerId ∧ row.new_value = inflightLiveProcess

/-- One answer to a ticket is handled at a time, and a live process that was recorded is in the log,
    or the answer that recorded it is about to write it there. -/
structure AckInv (s : DispatchState) : Prop where
  turns : ∀ (i j : Nat) (c d : AckCall), s.acks[i]? = some c → s.acks[j]? = some d →
    c.underWay → d.underWay → c.args.ticketId = d.args.ticketId → i = j
  fresh : ∀ c ∈ s.acks, ∀ x now, c.phase = .record x now →
    ¬ LoggedLive s.log c.args.ticketId c.args.triggerId
  recorded : ∀ id triggerId, .live id triggerId ∈ s.history → LoggedLive s.log id triggerId ∨
    ∃ c ∈ s.acks, (∃ x, c.phase = .log x) ∧ c.args.isLive ∧ c.args.ticketId = id ∧
      c.args.triggerId = triggerId
  once : (s.history.filter (·.isLive)).Nodup

section Inv

variable {s t : DispatchState} {a : DispatchAction} {c : AckCall}

theorem isDuplicate_iff {args : AckArgs} {log : List ActivityRow} :
    args.isDuplicate log ↔ LoggedLive log args.ticketId args.triggerId := by
  simp [AckArgs.isDuplicate, LoggedLive, and_assoc]

theorem mem_live_iff {h : List DispatchEvent} {id triggerId : String} :
    .live id triggerId ∈ h ↔ .live id triggerId ∈ h.filter (·.isLive) := by
  simp [List.mem_filter, DispatchEvent.isLive]

theorem AckInv.of_quiet (hinv : AckInv s) (hquiet : Quiet s t) : AckInv t := by
  obtain ⟨new, hlog, hnew⟩ := hquiet.log
  refine ⟨?_, ?_, ?_, ?_⟩
  · rw [hquiet.acks]
    exact hinv.turns
  · rintro c hc x now hphase ⟨row, hrow, hticket, haction, hrest⟩
    rw [hquiet.acks] at hc
    rw [hlog] at hrow
    obtain hrow | hrow := List.mem_append.mp hrow
    · rw [hnew row hrow] at haction
      cases haction
    · exact hinv.fresh c hc x now hphase ⟨row, hrow, hticket, haction, hrest⟩
  · intro id triggerId hmem
    rw [mem_live_iff, hquiet.live, ← mem_live_iff] at hmem
    obtain ⟨row, hrow, hlogged⟩ | hacks := hinv.recorded id triggerId hmem
    · exact .inl ⟨row, by rw [hlog]; exact List.mem_append_right _ hrow, hlogged⟩
    · rw [hquiet.acks]
      exact .inr hacks
  · rw [hquiet.live]
    exact hinv.once

theorem AckInv.startAck (hinv : AckInv s) (args : AckArgs) :
    AckInv { s with acks := s.acks ++ [{ args }] } := by
  refine ⟨?_, List.forall_mem_append.mpr ⟨hinv.fresh, ?_⟩, ?_, hinv.once⟩
  · intro i j c d hi hj hc hd heq
    obtain hi | ⟨-, rfl⟩ := getElem?_append_cases hi
    · obtain hj | ⟨-, rfl⟩ := getElem?_append_cases hj
      · exact hinv.turns i j c d hi hj hc hd heq
      · cases hd
    · cases hc
  · simp
  · intro id triggerId hmem
    obtain hlogged | ⟨c, hc, hrest⟩ := hinv.recorded id triggerId hmem
    · exact .inl hlogged
    · exact .inr ⟨c, List.mem_append_left _ hc, hrest⟩

variable {i : Nat} {phase : AckPhase}

/-- One answer in its next phase. It logs rows of its own ticket only, while it is being
    handled. -/
theorem AckInv.advance (hinv : AckInv s) (hc : s.acks[i]? = some c) (hacks : t.acks = s.acks)
    (hlog : ∀ e ∈ t.log, e ∈ s.log ∨ (c.underWay ∧ e.ticket_id = c.args.ticketId))
    (hkeep : ∀ e ∈ s.log, e ∈ t.log)
    (hfresh : ∀ x now, phase = .record x now →
      ¬ LoggedLive t.log c.args.ticketId c.args.triggerId)
    (hturn : c.underWay ∨ ∀ d ∈ s.acks, d.underWay → d.args.ticketId ≠ c.args.ticketId)
    (hrecorded : ∀ id triggerId, .live id triggerId ∈ t.history →
      LoggedLive t.log id triggerId ∨
      ((∃ x, phase = .log x) ∧ c.args.isLive ∧ c.args.ticketId = id ∧
        c.args.triggerId = triggerId) ∨
      (.live id triggerId ∈ s.history ∧ ¬ ((∃ x, c.phase = .log x) ∧ c.args.isLive ∧
        c.args.ticketId = id ∧ c.args.triggerId = triggerId)))
    (honce : (t.history.filter (·.isLive)).Nodup) :
    AckInv { t with acks := t.acks.set i { c with phase } } := by
  have hlt : i < s.acks.length := lt_of_getElem? hc
  -- another answer that is being handled is about another ticket
  have hother : ∀ j d, i ≠ j → s.acks[j]? = some d → d.underWay →
      d.args.ticketId ≠ c.args.ticketId := by
    intro j d hij hd hway heq
    obtain hcway | hnone := hturn
    · exact hij (hinv.turns i j c d hc hd hcway hway heq.symm)
    · exact hnone d (List.mem_of_getElem? hd) hway heq
  refine ⟨?_, ?_, ?_, honce⟩
  · intro j k d d' hj hk hd hd' heq
    rw [hacks] at hj hk
    obtain ⟨rfl, rfl⟩ | ⟨hij, hj⟩ := getElem?_set_cases hj
    · obtain ⟨rfl, -⟩ | ⟨hik, hk⟩ := getElem?_set_cases hk
      · rfl
      · exact absurd heq.symm (hother k d' hik hk hd')
    · obtain ⟨rfl, rfl⟩ | ⟨-, hk⟩ := getElem?_set_cases hk
      · exact absurd heq (hother j d hij hj hd)
      · exact hinv.turns j k d d' hj hk hd hd' heq
  · intro d hd x now hphase
    obtain ⟨j, hj⟩ := List.mem_iff_getElem?.mp hd
    rw [hacks] at hj
    obtain ⟨rfl, rfl⟩ | ⟨hij, hj⟩ := getElem?_set_cases hj
    · exact hfresh x now hphase
    · rintro ⟨row, hrow, hticket, hrest⟩
      obtain hold | ⟨-, hown⟩ := hlog row hrow
      · exact hinv.fresh d (List.mem_of_getElem? hj) x now hphase ⟨row, hold, hticket, hrest⟩
      · have hway : d.underWay := by simp [AckCall.underWay, hphase]
        exact hother j d hij hj hway (hticket.symm.trans hown)
  · intro id triggerId hmem
    obtain hlogged | ⟨hphase, hrest⟩ | ⟨hold, hnot⟩ := hrecorded id triggerId hmem
    · exact .inl hlogged
    · refine .inr ⟨{ c with phase }, ?_, hphase, hrest⟩
      rw [hacks]
      exact List.mem_set hlt _
    · obtain ⟨row, hrow, hrest⟩ | ⟨d, hd, ⟨x, hx⟩, hrest⟩ := hinv.recorded id triggerId hold
      · exact .inl ⟨row, hkeep row hrow, hrest⟩
      · refine .inr ⟨d, ?_, ⟨x, hx⟩, hrest⟩
        obtain ⟨j, hj⟩ := List.mem_iff_getElem?.mp hd
        have hij : i ≠ j := by
          rintro rfl
          rw [hc] at hj
          cases hj
          exact hnot ⟨⟨x, hx⟩, hrest⟩
        rw [hacks]
        exact List.mem_of_getElem? ((List.getElem?_set_ne hij).trans hj)

/-- A live answer that is about to be recorded has not been recorded before: it would be in the
    log, or still being handled. -/
theorem not_recorded {x : Ticket} {now : Date} (hinv : AckInv s)
    (hc : s.acks[i]? = some c) (hphase : c.phase = .record x now) :
    .live c.args.ticketId c.args.triggerId ∉ s.history := by
  intro hmem
  obtain hlogged | ⟨d, hd, ⟨y, hy⟩, -, hticket, -⟩ := hinv.recorded _ _ hmem
  · exact hinv.fresh c (List.mem_of_getElem? hc) x now hphase hlogged
  · obtain ⟨j, hj⟩ := List.mem_iff_getElem?.mp hd
    have hij : i = j := by
      apply hinv.turns i j c d hc hj
      · simp [AckCall.underWay, hphase]
      · simp [AckCall.underWay, hy]
      · exact hticket.symm
    subst hij
    rw [hc] at hj
    cases hj
    rw [hphase] at hy
    cases hy

/-- Before it records, an answer has found none like it in the log. -/
theorem fresh_of_ackStep (h : s.ackStep c.args c.phase = some (t, phase)) :
    ∀ x now, phase = .record x now → ¬ LoggedLive t.log c.args.ticketId c.args.triggerId := by
  rintro x now rfl hlogged
  cases hphase : c.phase <;> rw [hphase] at h <;> simp only [DispatchState.ackStep] at h
  case unique =>
    split at h
    · cases h
    · rename_i hdup
      cases h
      exact hdup (isDuplicate_iff.mpr hlogged)
  case start => split at h <;> [skip; split at h <;> [skip; split at h]] <;> cases h
  case live | record | processed => split at h <;> cases h
  case clear | log | returned => cases h

/-- An answer that has recorded is about to log. -/
theorem logs_of_record {args : AckArgs} {x : Ticket} {now : Date}
    (h : s.ackStep args (.record x now) = some (t, phase)) (hlive : t.history ≠ s.history) :
    phase = .log x := by
  simp only [DispatchState.ackStep] at h
  split at h
  · cases h
    exact absurd rfl hlive
  · cases h
    rfl

/-- An answer that goes on is under way, or starts while no other is about its ticket. -/
theorem turn_of_ackStep (hc : s.acks[i]? = some c) (hturn : s.InTurn (.ack i))
    (h : s.ackStep c.args c.phase = some (t, phase)) :
    c.underWay ∨ ∀ d ∈ s.acks, d.underWay → d.args.ticketId ≠ c.args.ticketId := by
  by_cases hstart : c.phase = .start
  · exact .inr (hturn c hc hstart)
  · left
    unfold AckCall.underWay
    split
    · exact absurd ‹_› hstart
    · rename_i hphase
      rw [hphase] at h
      cases h
    · rfl

theorem AckInv.ack (hinv : AckInv s) (hcalls : ∀ c ∈ s.acks, AckOk s c)
    (hturn : s.InTurn (.ack i)) (h : s.act (.ack i) = .ok t) : AckInv t := by
  cases DispatchState.acts_of_act h with
  | @ack _ c t' phase hc hstep =>
    have hfresh := fresh_of_ackStep hstep
    have hway := turn_of_ackStep hc hturn hstep
    have hok := hcalls c (List.mem_of_getElem? hc)
    unfold AckOk at hok
    generalize hphase : c.phase = before at hstep hok
    cases DispatchState.acks_of_ackStep hstep with
    | read hnot =>
      subst hphase
      exact hinv.advance hc rfl (fun _ he => .inl he) (fun _ he => he) hfresh hway
        (fun _ _ hmem => .inr (.inr ⟨hmem, fun hlog => hlog.1.elim hnot⟩)) hinv.once
    | @record x r now hr hcond =>
      refine hinv.advance hc rfl (fun _ he => .inl he) (fun _ he => he) hfresh hway ?_ ?_
      · intro id triggerId hmem
        obtain heq | hold := List.mem_cons.mp hmem
        · cases heq
          obtain ⟨hid, hlive, -⟩ := hok
          have hnext := logs_of_record hstep (List.cons_ne_self _ _)
          exact .inr (.inl ⟨⟨x, hnext⟩, hlive, hid.symm, rfl⟩)
        · exact .inr (.inr ⟨hold, by simp [hphase]⟩)
      · have hnew := not_recorded hinv hc hphase
        rw [← hok.1, mem_live_iff] at hnew
        exact List.nodup_cons.mpr ⟨hnew, hinv.once⟩
    | clear =>
      exact hinv.advance hc rfl (fun _ he => .inl he) (fun _ he => he) hfresh hway
        (fun _ _ hmem => .inr (.inr ⟨hmem, by simp [hphase]⟩)) hinv.once
    | @log x row action haction =>
      have hunder : c.underWay := by simp [AckCall.underWay, hphase]
      simp only [DispatchState.ackStep] at hstep
      cases hstep
      refine hinv.advance hc rfl ?_ (fun _ he => List.mem_cons_of_mem _ he) hfresh hway ?_ hinv.once
      · intro e he
        obtain rfl | hold := List.mem_cons.mp he
        · exact .inr ⟨hunder, rfl⟩
        · exact .inl hold
      · intro id triggerId hmem
        by_cases hmine : c.args.isLive ∧ c.args.ticketId = id ∧ c.args.triggerId = triggerId
        · left
          obtain ⟨hlive, hticket, htrigger⟩ := hmine
          simp only [AckArgs.isLive, Bool.and_eq_true, decide_eq_true_eq] at hlive
          refine ⟨_, List.mem_cons_self, hticket, by rw [hlive.1], htrigger, ?_⟩
          rw [hlive.2]
          show sliceText 500 inflightLiveProcess = inflightLiveProcess
          decide
        · exact .inr (.inr ⟨hmem, fun hlog => hmine hlog.2⟩)

theorem AckInv.act (hinv : AckInv s) (hcalls : ∀ c ∈ s.acks, AckOk s c) (hturn : s.InTurn a)
    (h : s.act a = .ok t) : AckInv t := by
  by_cases hack : ∃ i, a = .ack i
  · obtain ⟨i, rfl⟩ := hack
    exact hinv.ack hcalls hturn h
  · by_cases hstart : ∃ args, a = .startAck args
    · obtain ⟨args, rfl⟩ := hstart
      cases h
      exact hinv.startAck args
    · exact hinv.of_quiet
        (act_quiet (fun i hi => hack ⟨i, hi⟩) (fun args ha => hstart ⟨args, ha⟩) h)

/-- Where the answers are handled in turn, the stamps are later as well. -/
theorem stampsLater_of_inTurn (h : answersInTurn.Reachable s) : stampsLater.Reachable s := by
  induction h with
  | init h0 => exact .init h0
  | step _ hs ih => exact ih.step ⟨hs.1, fun _ _ _ => hs.2⟩

theorem ackInv_reachable (h : answersInTurn.Reachable s) : AckInv s := by
  refine h.invariant ?_ ?_
  · rintro s ⟨-, -, -, -, -, hacks, -, -, hhistory⟩
    refine ⟨?_, ?_, ?_, ?_⟩
    · intro i j c d hc
      rw [hacks] at hc
      cases hc
    · intro c hc
      rw [hacks] at hc
      cases hc
    · intro id triggerId hmem
      rw [hhistory] at hmem
      cases hmem
    · rw [hhistory]
      exact List.nodup_nil
  · rintro s a s' hreach hinv ⟨hstep, hturn⟩
    exact hinv.act (ackOk_reachable (stampsLater_of_inTurn hreach)) hturn hstep

end Inv

/-! ## Main result -/

/-- In every run in which the answers to one ticket are handled one after the other, in whatever
    order they come, and a dispatch stamps its ticket later than the last one did: an answer leaves
    all tickets unchanged, or it is about the last trigger sent to the current assignee of its
    ticket and is the first live answer to it or says that it was processed; no trigger is recorded
    as live twice; and no step moves the start of a quiet episode but one that has seen later
    output, which it moves to. -/
theorem live_acks {s t : DispatchState} {a : DispatchAction} (hs : answersInTurn.Reachable s)
    (hstep : answersInTurn.step s a t) :
    (∀ i c, a = .ack i → s.acks[i]? = some c → t.db = s.db ∨ AckChanges s t c.args) ∧
    (t.history.filter (·.isLive)).Nodup ∧
    (∀ id r r', s.db.ticket? id = some r → t.db.ticket? id = some r' → EpisodeKept s a r r') := by
  obtain ⟨hact, hturn⟩ := hstep
  have hlater := stampsLater_of_inTurn hs
  have honce := ((ackInv_reachable hs).act (ackOk_reachable hlater) hturn hact).once
  refine ⟨?_, honce, fun id r r' hr hr' => episode_kept hact hr hr'⟩
  rintro i c rfl hc
  obtain hsame | ⟨r, hr, hlast, ⟨hlive, hhistory, hnow⟩ | hprocessed⟩ :=
    ack_about_last hlater hact hc
  · exact .inl hsame
  · refine .inr ⟨r, hr, hlast, .inl ⟨hlive, ?_, hnow⟩⟩
    rw [hhistory] at honce
    rw [mem_live_iff]
    exact (List.nodup_cons.mp honce).1
  · exact .inr ⟨r, hr, hlast, .inr hprocessed⟩

/-- A ticket that somebody has commented on. -/
def commentedTicket : DispatchState where
  db :=
    { tickets := [
        { id := "T", status := .in_progress, account_id := "A", assignee_key := "rt-1",
          assignee := some { manager_agent_id := "H", identityKey := "rt-1" } }]
      links := [] }
  log := []
  clock := 0
  nackRetryAt := []
  outputs := []
  dispatches := []
  acks := []
  handlers := []
  passes := []
  history := []

theorem commentedTicket_init : dispatchSystem.init commentedTicket :=
  ⟨by decide, by decide, rfl, rfl, rfl, rfl, rfl, rfl, rfl⟩

/-- The trigger of the comment reaches the host, which answers that the process is alive; the
    answer is handled up to its update. -/
def answerToComment : List DispatchAction :=
  let o : DispatchOutside :=
    { host := some { account_id := "A" }, account := some { id := "A" }, triggerId := "t1" }
  [.startDispatch "T" .comment, .dispatch 0 o, .dispatch 0 o, .dispatch 0 o, .dispatch 0 o,
    .startAck
      { ticketId := "T", triggerId := "t1", outcome := .suppressed, reason := inflightLiveProcess,
        managerAgentId := "H" },
    .ack 0, .ack 0, .ack 0]

/-- The live state of a ticket. -/
def DispatchState.liveState (s : DispatchState) (id : String) :
    Option (Option Date × Option Date) :=
  (s.db.ticket? id).map fun t => (t.supervisor_live_since, t.supervisor_live_at)

/-- The answer to the trigger of a comment is the first one, and the ticket is live. -/
theorem live_acks_commentedTicket :
    ∃ s t, answersInTurn.Reachable s ∧ answersInTurn.step s (.ack 0) t ∧
      t.liveState "T" = some (some 0, some 0) ∧
      (∀ i c, DispatchAction.ack 0 = .ack i → s.acks[i]? = some c →
        t.db = s.db ∨ AckChanges s t c.args) ∧
      (t.history.filter (·.isLive)).Nodup ∧
      (∀ id r r', s.db.ticket? id = some r → t.db.ticket? id = some r' →
        EpisodeKept s (.ack 0) r r') := by
  obtain ⟨s, hreach, hs⟩ := Transition.exists_reachable_guarded (M := answersInTurn)
    (C := DispatchState.InTurn) (fun _ _ _ hok h => ⟨h, hok⟩) commentedTicket_init answerToComment
    (fun s => s.InTurn (.ack 0) ∧
      (s.act (.ack 0)).toOption.any (·.liveState "T" = some (some 0, some 0))) (by decide +kernel)
  obtain ⟨hturn, hnext⟩ := of_decide_eq_true hs
  cases hact : s.act (.ack 0) with
  | error e =>
    rw [hact] at hnext
    cases hnext
  | ok t =>
    rw [hact] at hnext
    have hstep : answersInTurn.step s (.ack 0) t := ⟨hact, hturn⟩
    exact ⟨s, t, hreach, hstep, of_decide_eq_true hnext, live_acks hreach hstep⟩

/-- The last trigger of the supervisor for the ticket. -/
def lastSupervisorTrigger (history : List DispatchEvent) (id : String) : Option String :=
  history.findSome? fun
    | .emitted ticketId triggerId .supervisor => if ticketId = id then some triggerId else none
    | _ => none

/-- The answer to a comment changes the live state although the supervisor has sent nothing. -/
theorem not_only_supervisor_acks :
    ¬ ∀ s t i c, dispatchSystem.Reachable s → dispatchSystem.step s (.ack i) t →
      s.acks[i]? = some c → t.liveState c.args.ticketId ≠ s.liveState c.args.ticketId →
      lastSupervisorTrigger s.history c.args.ticketId = some c.args.triggerId := by
  intro hall
  have hrun : ∀ s a t, DispatchState.act s a = .ok t → dispatchSystem.step s a t :=
    fun _ _ _ h => h
  obtain ⟨s, hpath, hs⟩ := Transition.exists_path_of_run hrun commentedTicket answerToComment
    (fun s => (s.act (.ack 0)).toOption.any (fun t => s.acks[0]?.any fun c =>
      t.liveState c.args.ticketId ≠ s.liveState c.args.ticketId &&
      lastSupervisorTrigger s.history c.args.ticketId = none)) (by decide +kernel)
  have hreach : dispatchSystem.Reachable s := .path (.init commentedTicket_init) hpath
  obtain ⟨t, ht, hs⟩ := (Option.any_eq_true _ _).mp hs
  obtain ⟨c, hc, hs⟩ := (Option.any_eq_true _ _).mp hs
  simp only [Bool.and_eq_true, decide_eq_true_eq] at hs
  have hstep : dispatchSystem.step s (.ack 0) t := by
    cases hact : s.act (.ack 0) with
    | error e =>
      rw [hact] at ht
      cases ht
    | ok t' =>
      rw [hact] at ht
      cases ht
      exact hact
  have hlast := hall s t 0 c hreach hstep hc hs.1
  rw [hs.2] at hlast
  cases hlast

end WorkflowBoard.Tickets
