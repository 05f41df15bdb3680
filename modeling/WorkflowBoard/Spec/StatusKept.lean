import WorkflowBoard.ForStd.List
import WorkflowBoard.Native.TicketEdit

/-!
# An update without a status

`update` loads the ticket, awaits its checks and saves the whole entity. A status that was
changed meanwhile differs from the loaded one, so the save writes the loaded one back
(`not_always_statusKept`: an edited title puts a ticket the pump has claimed back to todo).

`status_kept`: as long as an update that goes to save finds the status it loaded, every ticket
has in every reachable state the status that the last status-changing step gave it.
-/

namespace WorkflowBoard.Tickets

/-- Every ticket has the status that was last set. -/
def EditState.StatusKept (s : EditState) : Prop :=
  s.wrote = s.db.tickets.map fun t => (t.id, t.status)

/-- The entity an update is about to save, as it loaded it. -/
def EditCall.saving (o : EditOutside) : EditCall → Option Ticket
  | .update _ patch (.loaded t) =>
    if o.error.isSome ∨ t.applyPatch patch = t then none else some t
  | _ => none

/-- The condition on a statement: an update that goes to save its ticket finds the status it
    loaded. -/
def EditState.SavesCurrent (s : EditState) : EditAction → Prop
  | .advance i o => ∀ t ∈ s.calls[i]?.bind (EditCall.saving o), (s.db.reread t).status = t.status
  | _ => True

instance (s : EditState) (a : EditAction) : Decidable (s.SavesCurrent a) :=
  match a with
  | .advance i o => inferInstanceAs (Decidable
      (∀ t ∈ s.calls[i]?.bind (EditCall.saving o), (s.db.reread t).status = t.status))
  | .tick _ => .isTrue trivial
  | .startUpdate _ _ => .isTrue trivial
  | .startMove _ _ _ => .isTrue trivial
  | .claim _ => .isTrue trivial
  | .promoteNext _ => .isTrue trivial
  | .resolveDuplicate _ _ => .isTrue trivial

/-- Runs in which no update saves a stale status. -/
def currentEdits : Transition EditState EditAction :=
  editSystem.restrict fun s a _ => s.SavesCurrent a

/-! ## The patch -/

section Patch

variable {t : Ticket} {patch : TicketPatch}

theorem setAssignee_frame (assignee : Option RuntimeSpec) :
    (t.setAssignee assignee).id = t.id ∧ (t.setAssignee assignee).status = t.status := by
  unfold Ticket.setAssignee
  split <;> exact ⟨rfl, rfl⟩

/-- A patch changes neither the ticket nor its status. -/
theorem applyPatch_frame : (t.applyPatch patch).id = t.id ∧
    (t.applyPatch patch).status = t.status := by
  unfold Ticket.applyPatch
  dsimp only
  split
  · exact setAssignee_frame _
  · exact ⟨rfl, rfl⟩

end Patch

/-! ## Each statement -/

section Steps

variable {s t : EditState} {e r : Ticket}

/-- The record follows a rewrite of the rows of one ticket. -/
theorem statusKept_update (h : s.StatusKept) {id : String} {f : Ticket → Ticket}
    {g : TicketStatus → TicketStatus} (hid : ∀ t, (f t).id = t.id)
    (hstatus : ∀ t, (f t).status = g t.status) :
    EditState.StatusKept ({ s with db := s.db.update id f }.record id g) := by
  unfold EditState.StatusKept EditState.record TicketDb.update
  rw [h]
  exact (map_view_rewrite (fun t _ _ => hid t) (fun t _ _ => hstatus t)).symm

theorem statusKept_changeStatus (h : s.StatusKept) (id : String) (prev next : TicketStatus)
    {set : Ticket → Ticket} (hset : ∀ t, (set t).id = t.id) :
    (s.changeStatus id prev next set).StatusKept := by
  apply statusKept_update h
  · intro t
    split
    · exact hset t
    · rfl
  · intro t
    split <;> rfl

/-- The save of a move writes its status on purpose. -/
theorem statusKept_move (h : s.StatusKept) :
    ((s.saveTicket e r).record e.id (saveColumn e.status r.status)).StatusKept :=
  statusKept_update h (fun _ => rfl) (fun _ => rfl)

/-- The save of an update whose status was current leaves the status alone. -/
theorem statusKept_saveTicket (h : s.StatusKept) (hstatus : e.status = r.status) :
    (s.saveTicket e r).StatusKept := by
  have hrecord : (s.saveTicket e r).record e.id (fun status => status) = s.saveTicket e r := by
    unfold EditState.record
    simp
  rw [← hrecord]
  exact statusKept_update h (fun _ => rfl) fun _ => saveColumn_of_eq hstatus

end Steps

/-! ## The invariant -/

/-- An update that is about to write has the status of its second read. -/
def EditOk : EditCall → Prop
  | .update _ _ (.write e r) => e.status = r.status
  | _ => True

structure EditInv (s : EditState) : Prop where
  kept : s.StatusKept
  calls : ∀ c ∈ s.calls, EditOk c

section Inv

variable {s t : EditState} {o : EditOutside} {c c' : EditCall}

/-- The second read of an update finds the row of the ticket it loaded. -/
theorem reread_applyPatch (db : TicketDb) (t : Ticket) (patch : TicketPatch)
    (h : (db.reread t).status = t.status) :
    (t.applyPatch patch).status = (db.reread (t.applyPatch patch)).status := by
  obtain ⟨hid, hstatus⟩ : (t.applyPatch patch).id = t.id ∧
      (t.applyPatch patch).status = t.status := applyPatch_frame
  unfold TicketDb.reread at h ⊢
  rw [hid]
  cases hrow : db.ticket? t.id with
  | none => rfl
  | some row =>
    rw [hrow] at h
    exact hstatus.trans h.symm

theorem loadTicket_ok (db : TicketDb) (id : String) (patch : TicketPatch) :
    EditOk (.update id patch (loadTicket db id)) := by
  unfold loadTicket
  split
  · trivial
  · split <;> trivial

theorem EditInv.updateStep {id : String} {patch : TicketPatch} {phase phase' : EditPhase}
    (hinv : EditInv s) (hok : EditOk (.update id patch phase))
    (hcurrent : ∀ t ∈ EditCall.saving o (.update id patch phase),
      (s.db.reread t).status = t.status)
    (h : updateStep s id patch o phase = some (t, phase')) :
    t.StatusKept ∧ t.calls = s.calls ∧ EditOk (.update id patch phase') := by
  cases phase with
  | start =>
    cases h
    exact ⟨hinv.kept, rfl, loadTicket_ok _ _ _⟩
  | loaded ticket =>
    simp only [Tickets.updateStep] at h
    split at h
    · cases h
      exact ⟨hinv.kept, rfl, trivial⟩
    · rename_i herror
      split at h
      · cases h
        exact ⟨hinv.kept, rfl, trivial⟩
      · rename_i hchanged
        cases h
        have hmem : ticket ∈ EditCall.saving o (.update id patch (.loaded ticket)) := by
          simp only [EditCall.saving]
          rw [if_neg (not_or.mpr ⟨herror, hchanged⟩)]
          rfl
        exact ⟨hinv.kept, rfl, reread_applyPatch _ _ _ (hcurrent ticket hmem)⟩
  | write e r =>
    cases h
    exact ⟨statusKept_saveTicket hinv.kept hok, rfl, trivial⟩
  | returned error => cases h

theorem EditInv.moveStep {id : String} {status : TicketStatus} {position : Option Int}
    {phase phase' : EditPhase} (hinv : EditInv s)
    (h : moveStep s id status position o phase = some (t, phase')) :
    t.StatusKept ∧ t.calls = s.calls := by
  cases phase with
  | start =>
    cases h
    exact ⟨hinv.kept, rfl⟩
  | loaded ticket =>
    simp only [Tickets.moveStep] at h
    split at h <;> cases h <;> exact ⟨hinv.kept, rfl⟩
  | write e r =>
    cases h
    exact ⟨statusKept_move hinv.kept, rfl⟩
  | returned error => cases h

theorem EditInv.editStep (hinv : EditInv s) (hok : EditOk c)
    (hcurrent : ∀ t ∈ EditCall.saving o c, (s.db.reread t).status = t.status)
    (h : editStep s o c = some (t, c')) : t.StatusKept ∧ t.calls = s.calls ∧ EditOk c' := by
  cases c with
  | update id patch phase =>
    obtain ⟨r, hr, heq⟩ := Option.map_eq_some_iff.mp h
    cases heq
    exact hinv.updateStep hok hcurrent hr
  | move id status position phase =>
    obtain ⟨r, hr, heq⟩ := Option.map_eq_some_iff.mp h
    cases heq
    obtain ⟨hkept, hcalls⟩ := hinv.moveStep hr
    exact ⟨hkept, hcalls, trivial⟩

theorem EditInv.start (hinv : EditInv s) (hok : EditOk c) :
    EditInv { s with calls := s.calls ++ [c] } := by
  refine ⟨hinv.kept, ?_⟩
  intro c₀ hc
  obtain hc | hc := List.mem_append.mp hc
  · exact hinv.calls c₀ hc
  · obtain rfl := List.mem_singleton.mp hc
    exact hok

theorem EditInv.act {a : EditAction} (hinv : EditInv s) (hcurrent : s.SavesCurrent a)
    (h : s.act a = .ok t) : EditInv t := by
  cases a with
  | tick now =>
    cases h
    exact ⟨hinv.kept, hinv.calls⟩
  | startUpdate id patch =>
    cases h
    exact hinv.start trivial
  | startMove id status position =>
    cases h
    exact hinv.start trivial
  | advance i o =>
    simp only [EditState.act] at h
    split at h
    · rename_i t' c' hstep
      cases h
      obtain ⟨c, hcall, hstep⟩ := Option.bind_eq_some_iff.mp hstep
      have hok := hinv.calls c (List.mem_of_getElem? hcall)
      obtain ⟨hkept, hcalls, hok'⟩ := hinv.editStep hok
        (by simpa [EditState.SavesCurrent, hcall] using hcurrent) hstep
      refine ⟨hkept, ?_⟩
      intro c₀ hc
      have hc : c₀ ∈ t'.calls.set i c' := hc
      rw [hcalls] at hc
      obtain hc | rfl := List.mem_or_eq_of_mem_set hc
      · exact hinv.calls c₀ hc
      · exact hok'
    · cases h
  | claim id =>
    cases h
    exact ⟨statusKept_changeStatus hinv.kept _ _ _ fun _ => rfl, hinv.calls⟩
  | promoteNext id =>
    cases h
    exact ⟨statusKept_changeStatus hinv.kept _ _ _ fun _ => rfl, hinv.calls⟩
  | resolveDuplicate id prev =>
    cases h
    exact ⟨statusKept_changeStatus hinv.kept _ _ _ fun _ => rfl, hinv.calls⟩

theorem editInv_reachable (h : currentEdits.Reachable s) : EditInv s := by
  refine h.invariant ?_ ?_
  · rintro s ⟨-, hcalls, hwrote⟩
    refine ⟨hwrote, ?_⟩
    intro c hc
    rw [hcalls] at hc
    cases hc
  · rintro s a s' _ hinv ⟨hstep, hcurrent⟩
    exact hinv.act hcurrent hstep

end Inv

/-! ## Main result -/

/-- In every run of updates without a status, moves and status changes of the dispatcher in which
    an update that goes to save finds the status it loaded, every ticket has in every reachable
    state the status that the last status-changing step gave it. -/
theorem status_kept {s : EditState} (h : currentEdits.Reachable s) : s.StatusKept :=
  (editInv_reachable h).kept

/-- One queued ticket, and no call. -/
def oneQueued : EditState where
  db := { tickets := [{ id := "T", title := "old" }], links := [] }
  clock := 0
  calls := []
  wrote := [("T", .todo)]

theorem oneQueued_init : editSystem.init oneQueued := ⟨by decide, rfl, rfl⟩

/-- The pump claims the ticket, and then its title is edited. -/
theorem status_kept_oneQueued :
    ∃ s, currentEdits.Reachable s ∧
      s.db.tickets = [{ id := "T", title := "new", status := .in_progress }] ∧ s.StatusKept := by
  obtain ⟨s, hreach, hs⟩ := Transition.exists_reachable_guarded (M := currentEdits)
    (C := EditState.SavesCurrent) (fun _ _ _ hok h => ⟨h, hok⟩) oneQueued_init
    [.claim "T", .startUpdate "T" { title := some "new" }, .advance 0 {}, .advance 0 {},
      .advance 0 {}]
    (fun s => s.db.tickets = [{ id := "T", title := "new", status := .in_progress }])
    (by decide +kernel)
  exact ⟨s, hreach, of_decide_eq_true hs, status_kept hreach⟩

/-- The title is edited while the pump claims the ticket: the save of the edit puts it back to
    todo. -/
theorem not_always_statusKept : ¬ ∀ s, editSystem.Reachable s → s.StatusKept := by
  intro hall
  have hrun : ∀ s a t, EditState.act s a = .ok t → editSystem.step s a t := fun _ _ _ h => h
  obtain ⟨s, hpath, hs⟩ := Transition.exists_path_of_run hrun oneQueued
    [.startUpdate "T" { title := some "new" }, .advance 0 {}, .claim "T", .advance 0 {},
      .advance 0 {}]
    (fun s => s.db.tickets = [{ id := "T", title := "new", status := .todo }] ∧
      s.wrote = [("T", .in_progress)]) (by decide +kernel)
  have hkept := hall s (.path (.init oneQueued_init) hpath)
  obtain ⟨hdb, hwrote⟩ := of_decide_eq_true hs
  unfold EditState.StatusKept at hkept
  rw [hdb, hwrote] at hkept
  exact absurd hkept (by decide)

end WorkflowBoard.Tickets
