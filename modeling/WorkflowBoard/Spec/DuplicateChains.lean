import WorkflowBoard.ForStd.List
import WorkflowBoard.Native.TicketDuplicate

/-!
# Links to a canonical do not chain

A report is linked to a canonical when it is created or when its duplicate decision is
confirmed. Both look for a canonical that is not linked itself, but `confirm` does not ask
whether other reports are linked to the ticket it links: a parked report that has collected a
duplicate can be confirmed as a duplicate, and since the dispatcher closes the duplicates of a
finished ticket only if that is no duplicate itself, the report behind it stays open
(`not_always_unchained`).

`duplicates_unchained`: as long as no ticket with duplicates is confirmed as a duplicate, the
reads behind a link are current when it is written, and nobody reopens or restarts a duplicate
between its read and its close, no link chains and every finished canonical closes its
duplicates.
-/

namespace WorkflowBoard.Tickets

/-- Some ticket is linked to `id`. -/
def TicketDb.isCanonical (db : TicketDb) (id : String) : Bool :=
  db.tickets.any (·.canonical_ticket_id = some id)

/-- The ticket is linked to a canonical. -/
def TicketDb.isDuplicate (db : TicketDb) (id : String) : Bool :=
  db.tickets.any fun t => t.id = id && t.canonical_ticket_id.isSome

/-- No canonical is linked itself. -/
def TicketDb.NoChain (db : TicketDb) : Prop :=
  ∀ x ∈ db.tickets, ∀ y ∈ db.tickets, x.canonical_ticket_id = some y.id →
    y.canonical_ticket_id = none

/-- Where the work on a finished ticket has ended, its duplicates are closed. -/
def DuplicateState.DuplicatesClosed (s : DuplicateState) : Prop :=
  ∀ c ∈ s.completions, c.phase = .returned → ∀ id ∈ c.owed, id ∈ c.closed

/-! ## The condition -/

def EditCall.phase : EditCall → EditPhase
  | .update _ _ phase => phase
  | .move _ _ _ phase => phase

/-- The entity a call is about to write, and the row as it was read again. -/
def EditCall.writing (c : EditCall) : Option (Ticket × Ticket) :=
  match c.phase with
  | .write e r => some (e, r)
  | _ => none

/-- The canonical a new report is about to be linked to. -/
def ReportCall.linking (c : ReportCall) : Option String :=
  match c.phase with
  | .assessed a => a.canonical_ticket_id
  | _ => none

/-- The report a confirmation is about to link, and its canonical. -/
def ConfirmCall.linking (c : ConfirmCall) : Option (Ticket × Ticket) :=
  match c.phase with
  | .checked report canonical => canonical.map fun t => (report, t)
  | _ => none

/-- The duplicate whose turn it is. -/
def Completion.next (c : Completion) : Option Ticket :=
  match c.phase with
  | .closing _ (d :: _) => some d
  | _ => none

/-- A save does not restore a link that was removed meanwhile; the canonical of a new link is
    still no duplicate; a ticket that is confirmed as a duplicate has no duplicates; a duplicate
    has its turn with the status that was read, or is done. -/
def DuplicateState.LinksCurrent (s : DuplicateState) : DuplicateAction → Prop
  | .edit (.advance i _) => ∀ p ∈ s.edits.calls[i]?.bind EditCall.writing,
      p.1.canonical_ticket_id = p.2.canonical_ticket_id ∨ p.1.canonical_ticket_id = none
  | .report i _ => ∀ id ∈ s.reports[i]?.bind ReportCall.linking, ¬ s.db.isDuplicate id
  | .confirm i => ∀ p ∈ s.confirms[i]?.bind ConfirmCall.linking,
      ¬ s.db.isDuplicate p.2.id ∧ ¬ s.db.isCanonical p.1.id
  | .complete i => ∀ d ∈ s.completions[i]?.bind Completion.next,
      (s.db.ticket? d.id).any fun row => row.status = d.status || row.status = .done
  | _ => True

instance (s : DuplicateState) (a : DuplicateAction) : Decidable (s.LinksCurrent a) :=
  match a with
  | .edit (.advance i _) => inferInstanceAs (Decidable
      (∀ p ∈ s.edits.calls[i]?.bind EditCall.writing,
        p.1.canonical_ticket_id = p.2.canonical_ticket_id ∨ p.1.canonical_ticket_id = none))
  | .report i _ => inferInstanceAs (Decidable
      (∀ id ∈ s.reports[i]?.bind ReportCall.linking, ¬ s.db.isDuplicate id))
  | .confirm i => inferInstanceAs (Decidable (∀ p ∈ s.confirms[i]?.bind ConfirmCall.linking,
      ¬ s.db.isDuplicate p.2.id ∧ ¬ s.db.isCanonical p.1.id))
  | .complete i => inferInstanceAs (Decidable (∀ d ∈ s.completions[i]?.bind Completion.next,
      (s.db.ticket? d.id).any fun row => row.status = d.status || row.status = .done))
  | .edit (.tick _) => .isTrue trivial
  | .edit (.startUpdate _ _) => .isTrue trivial
  | .edit (.startMove _ _ _) => .isTrue trivial
  | .edit (.claim _) => .isTrue trivial
  | .edit (.promoteNext _) => .isTrue trivial
  | .edit (.resolveDuplicate _ _) => .isTrue trivial
  | .startReport _ _ => .isTrue trivial
  | .startConfirm _ _ => .isTrue trivial
  | .correct _ => .isTrue trivial

/-- Runs whose steps meet the condition. -/
def currentLinks (u : Unicode) : Transition DuplicateState DuplicateAction :=
  (duplicateSystem u).restrict fun s a _ => s.LinksCurrent a

/-! ## The table -/

/-- What every reachable table satisfies: no chains, a row for every canonical, no children. -/
structure LinkInv (db : TicketDb) : Prop where
  noChain : db.NoChain
  known : ∀ x ∈ db.tickets, ∀ id ∈ x.canonical_ticket_id, id ∈ db.tickets.map (·.id)
  roots : ∀ x ∈ db.tickets, x.parent_id = none

/-- A new link that may be written. -/
structure NewLink (db : TicketDb) (id canonicalId : String) : Prop where
  other : canonicalId ≠ id
  known : canonicalId ∈ db.tickets.map (·.id)
  notDuplicate : ¬ db.isDuplicate canonicalId
  notCanonical : ¬ db.isCanonical id

section Table

variable {db : TicketDb} {id : String} {f : Ticket → Ticket} {x y : Ticket}

theorem TicketDb.link_of_not_isDuplicate (h : ¬ db.isDuplicate id) (hx : x ∈ db.tickets)
    (hid : x.id = id) : x.canonical_ticket_id = none := by
  cases hlink : x.canonical_ticket_id with
  | none => rfl
  | some c =>
    refine absurd ?_ h
    exact List.any_eq_true.mpr ⟨x, hx, by simp [hid, hlink]⟩

theorem TicketDb.link_ne_of_not_isCanonical (h : ¬ db.isCanonical id) (hx : x ∈ db.tickets) :
    x.canonical_ticket_id ≠ some id := by
  intro hlink
  exact h (List.any_eq_true.mpr ⟨x, hx, by simp [hlink]⟩)

/-- A rewritten row keeps its link, loses it, or gets a new one that may be written. -/
theorem LinkInv.update (hinv : LinkInv db) (hid : ∀ t, (f t).id = t.id)
    (hroot : ∀ t ∈ db.tickets, t.id = id → (f t).parent_id = none)
    (hlink : ∀ t ∈ db.tickets, t.id = id →
      (f t).canonical_ticket_id = t.canonical_ticket_id ∨ (f t).canonical_ticket_id = none ∨
        ∃ c, (f t).canonical_ticket_id = some c ∧ NewLink db id c) :
    LinkInv (db.update id f) := by
  -- where a link of the new table comes from
  have hcases : ∀ x' ∈ (db.update id f).tickets, ∀ c, x'.canonical_ticket_id = some c →
      (∃ x ∈ db.tickets, x.canonical_ticket_id = some c) ∨ NewLink db id c := by
    intro x' hx' c hc
    obtain ⟨x, hx, ⟨hxid, rfl⟩ | ⟨-, rfl⟩⟩ := TicketDb.mem_update hx'
    · obtain hsame | hnone | ⟨c', hc', hnew⟩ := hlink x hx hxid
      · exact .inl ⟨x, hx, hsame.symm.trans hc⟩
      · rw [hnone] at hc
        cases hc
      · rw [hc'] at hc
        cases hc
        exact .inr hnew
    · exact .inl ⟨_, hx, hc⟩
  refine ⟨?_, ?_, ?_⟩
  · intro x' hx' y' hy' hxy
    obtain ⟨y, hy, hrow⟩ := TicketDb.mem_update hy'
    have hyid : y'.id = y.id := by
      obtain ⟨-, rfl⟩ | ⟨-, rfl⟩ := hrow
      · exact hid y
      · rfl
    rw [hyid] at hxy
    -- the canonical had no link before the step
    have hold : y.canonical_ticket_id = none := by
      obtain ⟨x, hx, hxc⟩ | hnew := hcases x' hx' y.id hxy
      · exact hinv.noChain x hx y hy hxc
      · exact TicketDb.link_of_not_isDuplicate hnew.notDuplicate hy rfl
    obtain ⟨hyid', rfl⟩ | ⟨-, rfl⟩ := hrow
    · obtain hsame | hnone | ⟨c, -, hnew⟩ := hlink y hy hyid'
      · exact hsame.trans hold
      · exact hnone
      · rw [hyid'] at hxy
        obtain ⟨x, hx, hxc⟩ | hself := hcases x' hx' id hxy
        · exact absurd hxc (TicketDb.link_ne_of_not_isCanonical hnew.notCanonical hx)
        · exact absurd rfl hself.other
    · exact hold
  · intro x' hx' c hc
    rw [TicketDb.ids_update hid]
    obtain ⟨x, hx, hxc⟩ | hnew := hcases x' hx' c hc
    · exact hinv.known x hx c hxc
    · exact hnew.known
  · intro x' hx'
    obtain ⟨x, hx, ⟨hxid, rfl⟩ | ⟨-, rfl⟩⟩ := TicketDb.mem_update hx'
    · exact hroot x hx hxid
    · exact hinv.roots _ hx

theorem LinkInv.update_keep (hinv : LinkInv db) (hid : ∀ t, (f t).id = t.id)
    (hparent : ∀ t, (f t).parent_id = t.parent_id)
    (hlink : ∀ t, (f t).canonical_ticket_id = t.canonical_ticket_id) :
    LinkInv (db.update id f) :=
  hinv.update hid (fun t ht _ => (hparent t).trans (hinv.roots t ht))
    fun t _ _ => .inl (hlink t)

/-- A new root ticket may link one that is no duplicate. -/
theorem LinkInv.insert (hinv : LinkInv db) (hfresh : x.id ∉ db.tickets.map (·.id))
    (hroot : x.parent_id = none)
    (hlink : ∀ c ∈ x.canonical_ticket_id, c ∈ db.tickets.map (·.id) ∧ ¬ db.isDuplicate c) :
    LinkInv { db with tickets := db.tickets ++ [x] } := by
  refine ⟨?_, ?_, ?_⟩
  · intro y hy z hz hyz
    obtain hzold | hznew := List.mem_append.mp hz
    · obtain hyold | hynew := List.mem_append.mp hy
      · exact hinv.noChain y hyold z hzold hyz
      · obtain rfl := List.mem_singleton.mp hynew
        exact TicketDb.link_of_not_isDuplicate (hlink _ hyz).2 hzold rfl
    · -- nobody knew the id of the new row
      obtain rfl := List.mem_singleton.mp hznew
      obtain hyold | hynew := List.mem_append.mp hy
      · exact absurd (hinv.known y hyold _ hyz) hfresh
      · obtain rfl := List.mem_singleton.mp hynew
        exact absurd (hlink _ hyz).1 hfresh
  · intro y hy c hc
    rw [List.map_append]
    apply List.mem_append_left
    obtain hy | hy := List.mem_append.mp hy
    · exact hinv.known y hy c hc
    · obtain rfl := List.mem_singleton.mp hy
      exact (hlink c hc).1
  · intro y hy
    obtain hy | hy := List.mem_append.mp hy
    · exact hinv.roots y hy
    · obtain rfl := List.mem_singleton.mp hy
      exact hroot

end Table

/-! ## Updates and moves -/

/-- The entity of a call has no parent. -/
def EditRoot (c : EditCall) : Prop :=
  match c.phase with
  | .loaded t => t.parent_id = none
  | .write e _ => e.parent_id = none
  | _ => True

section Edits

variable {s t : EditState} {o : EditOutside} {c c' : EditCall}

theorem parent_setAssignee (x : Ticket) (assignee : Option RuntimeSpec) :
    (x.setAssignee assignee).parent_id = x.parent_id := by
  unfold Ticket.setAssignee
  split <;> rfl

theorem parent_applyPatch (x : Ticket) (patch : TicketPatch) :
    (x.applyPatch patch).parent_id = x.parent_id := by
  unfold Ticket.applyPatch
  dsimp only
  split
  · exact parent_setAssignee _ _
  · rfl

theorem parent_move? {x e : Ticket} {status : TicketStatus} {position : Option Int} {next : Int}
    {now : Date} (h : x.move? status position next now = some e) : e.parent_id = x.parent_id := by
  unfold Ticket.move? at h
  split at h
  · split at h
    · cases h
    · cases h
      rfl
  · split at h
    · cases h
    · cases h
      rfl

theorem loadTicket_cases (db : TicketDb) (id : String) :
    (∃ error, loadTicket db id = .returned error) ∨
      ∃ x ∈ db.tickets, loadTicket db id = .loaded x := by
  unfold loadTicket
  split
  · exact .inl ⟨_, rfl⟩
  · rename_i x hx
    split
    · exact .inl ⟨_, rfl⟩
    · exact .inr ⟨x, (TicketDb.mem_of_ticket? hx).1, rfl⟩

/-- What a statement of an update or a move does: it loads a ticket, goes to save the entity
    without a new parent, or writes it. -/
theorem editStep_cases (h : editStep s o c = some (t, c')) :
    (t = s ∧ ∃ id, c'.phase = loadTicket s.db id) ∨
    (t = s ∧ ∃ error, c'.phase = .returned error) ∨
    (t = s ∧ ∃ x e, c.phase = .loaded x ∧ e.parent_id = x.parent_id ∧
      c'.phase = .write e (s.db.reread e)) ∨
    (∃ e r, c.phase = .write e r ∧ t.db = s.db.update e.id (e.save r) ∧ t.calls = s.calls ∧
      c'.phase = .returned none) := by
  cases c with
  | update id patch phase =>
    obtain ⟨⟨t₁, phase'⟩, hr, heq⟩ := Option.map_eq_some_iff.mp h
    cases heq
    cases phase with
    | start =>
      cases hr
      exact .inl ⟨rfl, id, rfl⟩
    | loaded x =>
      simp only [updateStep] at hr
      split at hr
      · cases hr
        exact .inr (.inl ⟨rfl, _, rfl⟩)
      · split at hr
        · cases hr
          exact .inr (.inl ⟨rfl, _, rfl⟩)
        · cases hr
          exact .inr (.inr (.inl ⟨rfl, x, _, rfl, parent_applyPatch x patch, rfl⟩))
    | write e r =>
      cases hr
      exact .inr (.inr (.inr ⟨e, r, rfl, rfl, rfl, rfl⟩))
    | returned error => cases hr
  | move id status position phase =>
    obtain ⟨⟨t₁, phase'⟩, hr, heq⟩ := Option.map_eq_some_iff.mp h
    cases heq
    cases phase with
    | start =>
      cases hr
      exact .inl ⟨rfl, id, rfl⟩
    | loaded x =>
      simp only [moveStep] at hr
      split at hr
      · cases hr
        exact .inr (.inl ⟨rfl, _, rfl⟩)
      · rename_i e he
        cases hr
        exact .inr (.inr (.inl ⟨rfl, x, e, rfl, parent_move? he, rfl⟩))
    | write e r =>
      cases hr
      exact .inr (.inr (.inr ⟨e, r, rfl, rfl, rfl, rfl⟩))
    | returned error => cases hr

theorem LinkInv.save {db : TicketDb} {e r : Ticket} (hinv : LinkInv db) (hroot : e.parent_id = none)
    (hlink : e.canonical_ticket_id = r.canonical_ticket_id ∨ e.canonical_ticket_id = none) :
    LinkInv (db.update e.id (e.save r)) := by
  apply hinv.update
  · intro row
    rfl
  · intro row hrow _
    obtain hkeep | hwrite := saveColumn_cases e.parent_id r.parent_id row.parent_id
    · exact hkeep.trans (hinv.roots row hrow)
    · exact hwrite.trans hroot
  · intro row _ _
    obtain heq | hnone := hlink
    · exact .inl (saveColumn_of_eq heq)
    · obtain hkeep | hwrite := saveColumn_cases e.canonical_ticket_id r.canonical_ticket_id
        row.canonical_ticket_id
      · exact .inl hkeep
      · exact .inr (.inl (hwrite.trans hnone))

/-- A change of the status changes no link. -/
theorem LinkInv.changeStatus (hinv : LinkInv s.db) (id : String) (prev next : TicketStatus)
    {set : Ticket → Ticket} (hid : ∀ x, (set x).id = x.id)
    (hparent : ∀ x, (set x).parent_id = x.parent_id)
    (hlink : ∀ x, (set x).canonical_ticket_id = x.canonical_ticket_id) :
    LinkInv (s.changeStatus id prev next set).db := by
  apply hinv.update_keep
  · intro x
    split
    · exact hid x
    · rfl
  · intro x
    split
    · exact hparent x
    · rfl
  · intro x
    split
    · exact hlink x
    · rfl

/-- The tickets and the calls on them. -/
structure EditsOk (s : EditState) : Prop where
  table : LinkInv s.db
  calls : ∀ c ∈ s.calls, EditRoot c

theorem EditsOk.start (hok : EditsOk s) (hroot : EditRoot c) :
    EditsOk { s with calls := s.calls ++ [c] } := by
  refine ⟨hok.table, ?_⟩
  intro c₀ hc
  obtain hold | hnew := List.mem_append.mp hc
  · exact hok.calls c₀ hold
  · obtain rfl := List.mem_singleton.mp hnew
    exact hroot

theorem EditsOk.editStep (hok : EditsOk s) (hroot : EditRoot c) (hlink : ∀ p ∈ c.writing,
      p.1.canonical_ticket_id = p.2.canonical_ticket_id ∨ p.1.canonical_ticket_id = none)
    (h : editStep s o c = some (t, c')) :
    LinkInv t.db ∧ t.calls = s.calls ∧ EditRoot c' ∧
      t.db.tickets.map (·.id) = s.db.tickets.map (·.id) := by
  obtain ⟨rfl, id, hload⟩ | ⟨rfl, error, hret⟩ | ⟨rfl, x, e, hx, hparent, hwrite⟩ |
    ⟨e, r, hwrite, hdb, hcalls, hret⟩ := editStep_cases h
  · refine ⟨hok.table, rfl, ?_, rfl⟩
    unfold EditRoot
    rw [hload]
    obtain ⟨error, herror⟩ | ⟨x, hx, hloaded⟩ := loadTicket_cases t.db id
    · rw [herror]
      trivial
    · rw [hloaded]
      exact hok.table.roots x hx
  · refine ⟨hok.table, rfl, ?_, rfl⟩
    unfold EditRoot
    rw [hret]
    trivial
  · refine ⟨hok.table, rfl, ?_, rfl⟩
    unfold EditRoot at hroot ⊢
    rw [hx] at hroot
    rw [hwrite]
    exact hparent.trans hroot
  · unfold EditRoot at hroot
    rw [hwrite] at hroot
    have hcurrent := hlink (e, r) (by unfold EditCall.writing; rw [hwrite]; rfl)
    refine ⟨?_, hcalls, ?_, ?_⟩
    · rw [hdb]
      exact hok.table.save hroot hcurrent
    · unfold EditRoot
      rw [hret]
      trivial
    · rw [hdb]
      exact TicketDb.ids_update fun _ => rfl

theorem ids_changeStatus (s : EditState) (id : String) (prev next : TicketStatus)
    {set : Ticket → Ticket} (hid : ∀ x, (set x).id = x.id) :
    (s.changeStatus id prev next set).db.tickets.map (·.id) = s.db.tickets.map (·.id) := by
  apply TicketDb.ids_update
  intro x
  split
  · exact hid x
  · rfl

/-- The updates and moves, the claims of the pump and the promotions keep the links. -/
theorem EditsOk.act {a : EditAction} (hok : EditsOk s)
    (hlink : ∀ i o, a = .advance i o → ∀ p ∈ s.calls[i]?.bind EditCall.writing,
      p.1.canonical_ticket_id = p.2.canonical_ticket_id ∨ p.1.canonical_ticket_id = none)
    (h : s.act a = .ok t) :
    EditsOk t ∧ t.db.tickets.map (·.id) = s.db.tickets.map (·.id) := by
  cases a with
  | tick now =>
    cases h
    exact ⟨⟨hok.table, hok.calls⟩, rfl⟩
  | startUpdate id patch =>
    cases h
    exact ⟨hok.start trivial, rfl⟩
  | startMove id status position =>
    cases h
    exact ⟨hok.start trivial, rfl⟩
  | advance i o =>
    simp only [EditState.act] at h
    split at h
    · rename_i t' c' hstep
      cases h
      obtain ⟨c, hcall, hstep⟩ := Option.bind_eq_some_iff.mp hstep
      have hroot := hok.calls c (List.mem_of_getElem? hcall)
      have hcurrent := hlink i o rfl
      rw [hcall] at hcurrent
      obtain ⟨htable, hcalls, hroot', hids⟩ := hok.editStep hroot hcurrent hstep
      refine ⟨⟨htable, ?_⟩, hids⟩
      intro c₀ hc
      have hc : c₀ ∈ t'.calls.set i c' := hc
      rw [hcalls] at hc
      obtain hold | rfl := List.mem_or_eq_of_mem_set hc
      · exact hok.calls c₀ hold
      · exact hroot'
    · cases h
  | claim id =>
    cases h
    exact ⟨⟨hok.table.changeStatus _ _ _ (fun _ => rfl) (fun _ => rfl) (fun _ => rfl), hok.calls⟩,
      ids_changeStatus s _ _ _ fun _ => rfl⟩
  | promoteNext id =>
    cases h
    exact ⟨⟨hok.table.changeStatus _ _ _ (fun _ => rfl) (fun _ => rfl) (fun _ => rfl), hok.calls⟩,
      ids_changeStatus s _ _ _ fun _ => rfl⟩
  | resolveDuplicate id prev =>
    cases h
    exact ⟨⟨hok.table.changeStatus _ _ _ (fun _ => rfl) (fun _ => rfl) (fun _ => rfl), hok.calls⟩,
      ids_changeStatus s _ _ _ fun _ => rfl⟩

end Edits

/-! ## The invariant -/

/-- What a confirmation has checked. -/
def ConfirmOk (db : TicketDb) (c : ConfirmCall) : Prop :=
  match c.phase with
  | .checked report canonical => report.parent_id = none ∧
      ∀ t ∈ canonical, t.id ≠ report.id ∧ t.id ∈ db.tickets.map (·.id)
  | _ => True

/-- A ticket with duplicates is not turned away, and each of them has its turn. -/
def CompletionOk (c : Completion) : Prop :=
  match c.phase with
  | .start => c.owed = []
  | .loaded t => t.parent_id = none ∧
      (t.status ≠ .done ∨ t.canonical_ticket_id.isSome → c.owed = [])
  | .closing _ rest => ∀ id ∈ c.owed, id ∈ c.closed ∨ id ∈ rest.map (·.id)
  | .returned => ∀ id ∈ c.owed, id ∈ c.closed

structure DuplicateInv (s : DuplicateState) : Prop where
  edits : EditsOk s.edits
  reports : ∀ c ∈ s.reports, ∀ id ∈ c.linking, id ∈ s.db.tickets.map (·.id)
  confirms : ∀ c ∈ s.confirms, ConfirmOk s.db c
  completions : ∀ c ∈ s.completions, CompletionOk c

section Inv

variable {u : Unicode} {s t : DuplicateState}

variable {c : ConfirmCall} {decisions : List TicketDuplicateDecision} {x : Ticket} {db : TicketDb}
  {i : Nat}

theorem ConfirmOk.mono {db db' : TicketDb} (h : ConfirmOk db c)
    (hids : ∀ id ∈ db.tickets.map (·.id), id ∈ db'.tickets.map (·.id)) : ConfirmOk db' c := by
  unfold ConfirmOk at h ⊢
  cases hphase : c.phase with
  | checked report canonical =>
    rw [hphase] at h
    exact ⟨h.1, fun t ht => ⟨(h.2 t ht).1, hids _ (h.2 t ht).2⟩⟩
  | start => trivial
  | returned error => trivial

/-- A step of the table that forgets no ticket keeps what the calls have read. -/
theorem DuplicateInv.of_edits (hinv : DuplicateInv s) {edits : EditState} (hedits : EditsOk edits)
    (hids : ∀ id ∈ s.db.tickets.map (·.id), id ∈ edits.db.tickets.map (·.id)) :
    DuplicateInv { s with edits, decisions } where
  edits := hedits
  reports c hc id hid := hids id (hinv.reports c hc id hid)
  confirms c hc := (hinv.confirms c hc).mono hids
  completions := hinv.completions

/-! ### Reports -/

theorem matchCandidate_ticket_id {input : DuplicateIntake} {m : DuplicateMatch}
    (h : matchCandidate u input x = some m) : m.ticket_id = x.id := by
  unfold matchCandidate at h
  obtain ⟨-, h⟩ := Option.ite_none_left_eq_some.mp h
  obtain ⟨-, h⟩ := Option.ite_none_left_eq_some.mp h
  cases h
  rfl

theorem assess_canonical {accountId id : String} {input : DuplicateIntake}
    (h : (assess u db accountId input).canonical_ticket_id = some id) :
    id ∈ db.tickets.map (·.id) := by
  unfold assess at h
  split at h
  · cases h
  · dsimp only at h
    unfold onlyHigh at h
    split at h
    · rename_i m hhigh
      cases h
      have hm : m ∈ ((duplicateCandidates db accountId).filterMap
          (matchCandidate u input)).filter (·.confidence ≥ 100) := by
        rw [hhigh]
        exact List.mem_singleton_self m
      obtain ⟨x, hx, hmatch⟩ := List.mem_filterMap.mp (List.mem_of_mem_filter hm)
      rw [matchCandidate_ticket_id hmatch]
      exact List.mem_map_of_mem (List.mem_of_mem_filter hx)
    · cases h

theorem assess_linking {c : ReportCall} {id : String}
    (h : id ∈ ReportCall.linking { c with phase := c.assess u db }) :
    id ∈ db.tickets.map (·.id) := by
  unfold ReportCall.linking ReportCall.assess at h
  dsimp only at h
  split at h
  · rename_i a ha
    split at ha
    · cases ha
    · cases ha
      exact assess_canonical h
  · cases h

/-- The invariant with one report call in its next phase. -/
theorem DuplicateInv.setReport (hinv : DuplicateInv s) {c : ReportCall}
    (hc : ∀ id ∈ c.linking, id ∈ s.db.tickets.map (·.id)) :
    DuplicateInv { s with reports := s.reports.set i c } := by
  refine ⟨hinv.edits, ?_, hinv.confirms, hinv.completions⟩
  intro c₀ hmem
  obtain hold | rfl := List.mem_or_eq_of_mem_set hmem
  · exact hinv.reports c₀ hold
  · exact hc

theorem DuplicateInv.insertTicket (hinv : DuplicateInv s) (hfresh : x.id ∉ s.db.tickets.map (·.id))
    (hroot : x.parent_id = none)
    (hlink : ∀ c ∈ x.canonical_ticket_id, c ∈ s.db.tickets.map (·.id) ∧ ¬ s.db.isDuplicate c) :
    DuplicateInv { s.insertTicket x with decisions } := by
  apply hinv.of_edits
  · exact ⟨hinv.edits.table.insert hfresh hroot hlink, hinv.edits.calls⟩
  · intro id hid
    have hmap : (s.db.tickets ++ [x]).map (·.id) = s.db.tickets.map (·.id) ++ [x.id] :=
      List.map_append
    exact hmap ▸ List.mem_append_left _ hid

theorem DuplicateInv.report {id : String} (hinv : DuplicateInv s)
    (hcurrent : s.LinksCurrent (.report i id)) (h : s.act u (.report i id) = .ok t) :
    DuplicateInv t := by
  simp only [DuplicateState.act] at h
  split at h
  · cases h
  · rename_i c hcall
    split at h
    · rename_i t' phase hstep
      cases h
      unfold DuplicateState.reportStep at hstep
      split at hstep
      · cases hstep
        exact hinv.setReport fun id hid => assess_linking hid
      · rename_i a hphase
        split at hstep
        · cases hstep
        · rename_i hfresh
          cases hstep
          have hlinking : c.linking = a.canonical_ticket_id := by
            unfold ReportCall.linking
            rw [hphase]
          refine DuplicateInv.setReport (hinv.insertTicket hfresh rfl ?_) ?_
          · intro id hid
            have hid : id ∈ c.linking := hlinking ▸ hid
            refine ⟨hinv.reports c (List.mem_of_getElem? hcall) id hid, ?_⟩
            apply hcurrent id
            rw [hcall]
            exact hid
          · intro id hid
            cases hid
      · cases hstep
    · cases h

/-! ### Decisions -/

theorem confirmCheck_ok (hinv : DuplicateInv s) :
    ConfirmOk s.db { c with phase := confirmCheck s.db s.decisions c.reportId c.candidateId } := by
  unfold ConfirmOk confirmCheck
  dsimp only
  cases hreport : s.db.ticket? c.reportId with
  | none => trivial
  | some report =>
    have hroot := hinv.edits.table.roots report (TicketDb.mem_of_ticket? hreport).1
    dsimp only
    split
    · rename_i report' canonical hphase
      split at hphase
      · cases hphase
      · split at hphase
        · cases hphase
          refine ⟨hroot, ?_⟩
          intro t ht
          cases ht
        · split at hphase
          · cases hphase
          · rename_i x hx
            cases hphase
            refine ⟨hroot, ?_⟩
            intro t ht
            cases ht
            unfold confirmCanonical at hx
            split at hx
            · cases hx
            · split at hx
              · cases hx
              · rename_i hfound
                split at hx
                · cases hx
                · rename_i hne
                  cases hx
                  exact ⟨hne, List.mem_map_of_mem (List.mem_of_find?_eq_some hfound)⟩
    · trivial

theorem DuplicateInv.setConfirm (hinv : DuplicateInv s)
    (hc : ConfirmOk s.db c) : DuplicateInv { s with confirms := s.confirms.set i c } := by
  refine ⟨hinv.edits, hinv.reports, ?_, hinv.completions⟩
  intro c₀ hmem
  obtain hold | rfl := List.mem_or_eq_of_mem_set hmem
  · exact hinv.confirms c₀ hold
  · exact hc

/-- The save of a decided report: its link is a new one or none. -/
theorem LinkInv.decide {report : Ticket} {canonical : Option Ticket}
    (hinv : LinkInv db) (hroot : report.parent_id = none)
    (hlink : ∀ x ∈ canonical, NewLink db report.id x.id) {r : Ticket} :
    LinkInv (db.update report.id ((report.decided canonical).save r)) := by
  apply hinv.update
  · intro row
    rfl
  · intro row hrow _
    obtain hkeep | hwrite := saveColumn_cases report.parent_id r.parent_id row.parent_id
    · exact hkeep.trans (hinv.roots row hrow)
    · exact hwrite.trans hroot
  · intro row _ _
    obtain hkeep | hwrite := saveColumn_cases (canonical.map (·.id)) r.canonical_ticket_id
      row.canonical_ticket_id
    · exact .inl hkeep
    · cases canonical with
      | none => exact .inr (.inl hwrite)
      | some x => exact .inr (.inr ⟨x.id, hwrite, hlink x rfl⟩)

section

variable (hinv : DuplicateInv s)
include hinv

theorem DuplicateInv.confirm
    (hcurrent : s.LinksCurrent (.confirm i)) (h : s.act u (.confirm i) = .ok t) :
    DuplicateInv t := by
  simp only [DuplicateState.act] at h
  split at h
  · cases h
  · rename_i c hcall
    split at h
    · rename_i t' phase hstep
      cases h
      unfold DuplicateState.confirmStep at hstep
      split at hstep
      · cases hstep
        exact hinv.setConfirm (confirmCheck_ok hinv)
      · rename_i report canonical hphase
        cases hstep
        have hok := hinv.confirms c (List.mem_of_getElem? hcall)
        unfold ConfirmOk at hok
        rw [hphase] at hok
        obtain ⟨hroot, hcanonical⟩ := hok
        apply DuplicateInv.setConfirm
        · apply hinv.of_edits
          · refine ⟨hinv.edits.table.decide hroot ?_, hinv.edits.calls⟩
            intro x hx
            obtain ⟨hdup, hcan⟩ := hcurrent (report, x) (by
              rw [hcall]
              show _ ∈ c.linking
              unfold ConfirmCall.linking
              rw [hphase, hx]
              rfl)
            exact ⟨(hcanonical x hx).1, (hcanonical x hx).2, hdup, hcan⟩
          · intro id hid
            apply TicketDb.mem_ids_update
            · exact fun _ => rfl
            · exact hid
        · trivial
      · cases hstep
    · cases h

theorem DuplicateInv.correct {reportId : String}
    (h : s.correct reportId = .ok t) : DuplicateInv t := by
  unfold DuplicateState.correct at h
  split at h
  · cases h
  · split at h
    · cases h
    · rename_i previous _
      split at h
      · cases h
      · split at h
        · cases h
        · cases h
          have hid : ∀ x, (Ticket.unlink previous x).id = x.id := by
            intro x
            unfold Ticket.unlink
            split <;> rfl
          apply hinv.of_edits
          · refine ⟨hinv.edits.table.update hid ?_ ?_, hinv.edits.calls⟩
            · intro x hx _
              unfold Ticket.unlink
              split <;> exact hinv.edits.table.roots x hx
            · intro x _ _
              unfold Ticket.unlink
              split
              · exact .inr (.inl rfl)
              · exact .inl rfl
          · exact fun id hmem => TicketDb.mem_ids_update hid hmem

/-! ### Finished tickets -/

/-- The invariant with further completions, and one of them in its next phase. -/
theorem DuplicateInv.setCompletion {c : Completion}
    (hc : CompletionOk c) : DuplicateInv { s with completions := s.completions.set i c } := by
  refine ⟨hinv.edits, hinv.reports, hinv.confirms, ?_⟩
  intro c₀ hmem
  obtain hold | rfl := List.mem_or_eq_of_mem_set hmem
  · exact hinv.completions c₀ hold
  · exact hc

theorem DuplicateInv.addCompletions (ids : List String) :
    DuplicateInv { s with
      completions := s.completions ++ ids.map fun id => ({ ticketId := id } : Completion) } := by
  refine ⟨hinv.edits, hinv.reports, hinv.confirms, ?_⟩
  intro c hmem
  obtain hold | hnew := List.mem_append.mp hmem
  · exact hinv.completions c hold
  · obtain ⟨id, -, rfl⟩ := List.mem_map.mp hnew
    exact rfl

theorem DuplicateInv.closeDuplicate (canonical duplicate : Ticket) :
    DuplicateInv (s.closeDuplicate canonical duplicate) := by
  unfold DuplicateState.closeDuplicate
  dsimp only
  split
  · have hedits : DuplicateInv { s with
        edits := s.edits.resolveDuplicate duplicate.id duplicate.status
          (canonical.terminal_entered_at.getD s.edits.clock)
        decisions := s.decisions ++ [
          { report_ticket_id := duplicate.id, candidate_ticket_id := canonical.id,
            outcome := .resolved_from_canonical, confidence := 100,
            matched_signals := ["canonical_done"] }] } := by
      apply hinv.of_edits
      · exact ⟨hinv.edits.table.changeStatus _ _ _ (fun _ => rfl) (fun _ => rfl) (fun _ => rfl),
          hinv.edits.calls⟩
      · intro id hid
        rw [show (s.edits.resolveDuplicate _ _ _).db.tickets.map (·.id) =
          s.edits.db.tickets.map (·.id) from ids_changeStatus _ _ _ _ fun _ => rfl]
        exact hid
    exact hedits.addCompletions [duplicate.id]
  · exact hinv

/-- A ticket that some open ticket is linked to is no duplicate. -/
theorem link_of_openDuplicates (hx : x ∈ s.db.tickets)
    (hopen : s.db.openDuplicates x.id ≠ []) : x.canonical_ticket_id = none := by
  obtain ⟨y, hy⟩ := List.exists_mem_of_ne_nil _ hopen
  obtain ⟨hy, hlink⟩ := List.mem_filter.mp hy
  have hlink : y.canonical_ticket_id = some x.id := by
    simp only [Bool.and_eq_true, decide_eq_true_eq] at hlink
    exact hlink.1
  exact hinv.edits.table.noChain y hy x hx hlink

end

/-- After its turn a duplicate that was current is done. -/
theorem ticket?_closeDuplicate (canonical : Ticket) {d : Ticket}
    (h : (s.db.ticket? d.id).any fun row => row.status = d.status || row.status = .done) :
    ((s.closeDuplicate canonical d).db.ticket? d.id).any (·.status = .done) := by
  obtain ⟨row, hrow, hstatus⟩ := Option.any_eq_true _ _ |>.mp h
  simp only [Bool.or_eq_true, decide_eq_true_eq] at hstatus
  have hid : row.id = d.id := (TicketDb.mem_of_ticket? hrow).2
  have hread : s.edits.db.ticket? d.id = some row := hrow
  unfold DuplicateState.closeDuplicate
  rw [hrow]
  dsimp only [Option.any_some]
  split
  · rename_i hsame
    have hclosed : ((s.edits.resolveDuplicate d.id d.status
        (canonical.terminal_entered_at.getD s.edits.clock)).db.ticket? d.id) = _ :=
      TicketDb.ticket?_update (fun x => by split <;> rfl) d.id
    rw [hread, Option.map_some, if_pos hid, if_pos (of_decide_eq_true hsame)] at hclosed
    show ((s.edits.resolveDuplicate d.id d.status _).db.ticket? d.id).any _ = true
    rw [hclosed]
    rfl
  · rename_i hother
    have hdone : row.status = .done := by
      obtain hsame | hdone := hstatus
      · exact absurd (decide_eq_true hsame) hother
      · exact hdone
    rw [hrow]
    exact decide_eq_true hdone

theorem CompletionOk.loaded {c : Completion} (hinv : DuplicateInv s) (hx : x ∈ s.db.tickets) :
    CompletionOk { c with
      phase := .loaded x
      owed := if x.status = .done then (s.db.openDuplicates x.id).map (·.id) else [] } := by
  refine ⟨hinv.edits.table.roots x hx, ?_⟩
  intro hskip
  dsimp only
  split
  · rename_i hdone
    obtain hopen | hlinked := hskip
    · exact absurd hdone hopen
    · -- a linked ticket has no duplicates
      by_contra hne
      have hnone := link_of_openDuplicates hinv hx fun h => hne (by rw [h]; rfl)
      rw [hnone] at hlinked
      cases hlinked
  · rfl

theorem DuplicateInv.completeStep {c c' : Completion} (hinv : DuplicateInv s) (hok : CompletionOk c)
    (hcurrent : ∀ d ∈ c.next,
      (s.db.ticket? d.id).any fun row => row.status = d.status || row.status = .done)
    (h : s.completeStep c = some (t, c')) : DuplicateInv t ∧ CompletionOk c' := by
  unfold DuplicateState.completeStep at h
  unfold CompletionOk at hok
  cases hphase : c.phase with
  | start =>
    rw [hphase] at h hok
    dsimp only at h hok
    split at h
    · cases h
      refine ⟨hinv, ?_⟩
      intro id hid
      have hid : id ∈ c.owed := hid
      rw [hok] at hid
      cases hid
    · rename_i x hx
      cases h
      exact ⟨hinv, CompletionOk.loaded hinv (TicketDb.mem_of_ticket? hx).1⟩
  | loaded x =>
    rw [hphase] at h hok
    dsimp only at h hok
    split at h
    · rename_i hskip
      cases h
      refine ⟨hinv, ?_⟩
      have howed : c.owed = [] := by
        obtain hchild | hskip := hskip
        · rw [hok.1] at hchild
          cases hchild
        · exact hok.2 hskip
      intro id hid
      have hid : id ∈ c.owed := hid
      rw [howed] at hid
      cases hid
    · cases h
      refine ⟨hinv, ?_⟩
      intro id hid
      exact .inr (of_decide_eq_true (List.mem_filter.mp hid).2)
  | closing x rest =>
    rw [hphase] at h hok
    cases rest with
    | nil =>
      cases h
      refine ⟨hinv, ?_⟩
      intro id hid
      obtain hclosed | hrest := hok id hid
      · exact hclosed
      · cases hrest
    | cons d rest =>
      have hturn := ticket?_closeDuplicate x (hcurrent d (by
        unfold Completion.next
        rw [hphase]
        rfl))
      dsimp only at h
      rw [if_pos hturn] at h
      cases h
      refine ⟨hinv.closeDuplicate x d, ?_⟩
      intro id hid
      dsimp only
      obtain hclosed | hrest := hok id hid
      · exact .inl (List.mem_append_left _ hclosed)
      · obtain rfl | hrest := List.mem_cons.mp hrest
        · exact .inl (List.mem_append_right _ (List.mem_singleton_self _))
        · exact .inr hrest
  | returned =>
    rw [hphase] at h
    cases h

/-- A step of the edits: the dispatcher starts on a ticket that was moved. -/
theorem act_edit {a : EditAction} (h : s.act u (.edit a) = .ok t) :
    ∃ edits, s.edits.act a = .ok edits ∧ t = { s with
      edits
      completions := s.completions ++
        (s.movedTicket a).toList.map fun id => ({ ticketId := id } : Completion) } := by
  cases a
  case resolveDuplicate => cases h
  all_goals
    simp only [DuplicateState.act] at h
    split at h
    · cases h
    · rename_i edits hact
      cases h
      exact ⟨edits, hact, rfl⟩

theorem DuplicateInv.act {a : DuplicateAction} (hinv : DuplicateInv s)
    (hcurrent : s.LinksCurrent a) (h : s.act u a = .ok t) : DuplicateInv t := by
  cases a with
  | edit a =>
    obtain ⟨edits, hact, rfl⟩ := act_edit h
    obtain ⟨hok, hids⟩ := hinv.edits.act (fun i o ha => by
      subst ha
      exact hcurrent) hact
    have hinv' : DuplicateInv { s with edits } := hinv.of_edits hok fun id hid => hids ▸ hid
    exact hinv'.addCompletions _
  | startReport accountId body =>
    cases h
    refine ⟨hinv.edits, ?_, hinv.confirms, hinv.completions⟩
    intro c hc
    obtain hold | hnew := List.mem_append.mp hc
    · exact hinv.reports c hold
    · obtain rfl := List.mem_singleton.mp hnew
      intro id hid
      cases hid
  | report i id => exact hinv.report hcurrent h
  | startConfirm reportId candidateId =>
    cases h
    refine ⟨hinv.edits, hinv.reports, ?_, hinv.completions⟩
    intro c hc
    obtain hold | hnew := List.mem_append.mp hc
    · exact hinv.confirms c hold
    · obtain rfl := List.mem_singleton.mp hnew
      trivial
  | confirm i => exact hinv.confirm hcurrent h
  | correct reportId => exact hinv.correct h
  | complete i =>
    simp only [DuplicateState.act] at h
    split at h
    · rename_i t' c' hstep
      cases h
      obtain ⟨c, hcall, hstep⟩ := Option.bind_eq_some_iff.mp hstep
      have hok := hinv.completions c (List.mem_of_getElem? hcall)
      obtain ⟨hinv', hok'⟩ := hinv.completeStep hok (fun d hd => hcurrent d (by
        rw [hcall]
        exact hd)) hstep
      exact hinv'.setCompletion hok'
    · cases h

/-- The invariant holds where the links that are saved are current. -/
theorem duplicateInv_reachable (h : (currentLinks u).Reachable s) : DuplicateInv s := by
  refine h.invariant ?_ ?_
  · rintro s ⟨htickets, hcalls, -, -, hreports, hconfirms, hcompletions⟩
    refine ⟨⟨⟨?_, ?_, ?_⟩, ?_⟩, ?_, ?_, ?_⟩
    · intro x hx
      rw [htickets] at hx
      cases hx
    · intro x hx
      rw [htickets] at hx
      cases hx
    · intro x hx
      rw [htickets] at hx
      cases hx
    · intro c hc
      rw [hcalls] at hc
      cases hc
    · intro c hc
      rw [hreports] at hc
      cases hc
    · intro c hc
      rw [hconfirms] at hc
      cases hc
    · intro c hc
      rw [hcompletions] at hc
      cases hc
  · rintro s a s' _ hinv ⟨hstep, hcurrent⟩
    exact hinv.act hcurrent hstep

end Inv

/-! ## The work on a finished ticket ends -/

section Termination

variable {u : Unicode} {s t : DuplicateState} {c c' : Completion} {i : Nat}

/-- Running its statements alone ends a completion. -/
def DuplicateState.Returns (u : Unicode) (s : DuplicateState) (i : Nat) : Prop :=
  ∃ n t c, Transition.runList (DuplicateState.act u) s (List.replicate n (.complete i)) = .ok t ∧
    t.completions[i]? = some c ∧ c.phase = .returned

theorem completions_closeDuplicate (s : DuplicateState) (canonical d : Ticket) :
    s.completions.length ≤ (s.closeDuplicate canonical d).completions.length := by
  unfold DuplicateState.closeDuplicate
  dsimp only
  split
  · rw [List.length_append]
    omega
  · exact le_refl _

section

variable (hc : s.completions[i]? = some c)
include hc

theorem DuplicateState.Returns.step
    (hstep : s.completeStep c = some (t, c')) (hlen : s.completions.length ≤ t.completions.length)
    (hret : ∀ s' : DuplicateState, s'.completions[i]? = some c' → s'.Returns u i) :
    s.Returns u i := by
  have hact : s.act u (.complete i) = .ok { t with completions := t.completions.set i c' } := by
    simp only [DuplicateState.act, hc, Option.bind_some, hstep]
  have hi : i < t.completions.length := by
    have := lt_of_getElem? hc
    omega
  obtain ⟨n, t', c'', hrun, hend⟩ := hret { t with completions := t.completions.set i c' }
    (List.getElem?_set_self hi)
  refine ⟨n + 1, t', c'', ?_, hend⟩
  rw [List.replicate_succ]
  simp only [Transition.runList, hact]
  exact hrun

theorem returns_of_returned (hphase : c.phase = .returned) :
    s.Returns u i :=
  ⟨0, s, c, rfl, hc, hphase⟩

/-- A completion that closes duplicates has one less to close. -/
theorem returns_of_closing {x : Ticket} {rest : List Ticket}
    (hphase : c.phase = .closing x rest) : s.Returns u i := by
  induction rest generalizing s c with
  | nil =>
    have hstep : s.completeStep c = some (s, { c with phase := .returned }) := by
      unfold DuplicateState.completeStep
      rw [hphase]
    exact .step hc hstep (le_refl _) fun s' hs' => returns_of_returned hs' rfl
  | cons d rest ih =>
    obtain ⟨c', hstep, hphase'⟩ : ∃ c', s.completeStep c = some (s.closeDuplicate x d, c') ∧
        c'.phase = .closing x rest := by
      unfold DuplicateState.completeStep
      rw [hphase]
      exact ⟨_, rfl, rfl⟩
    exact .step hc hstep (completions_closeDuplicate s x d) fun s' hs' => ih hs' hphase'

theorem returns_of_loaded {x : Ticket} (hphase : c.phase = .loaded x) : s.Returns u i := by
  by_cases hskip : x.parent_id.isSome ∨ x.status ≠ .done ∨ x.canonical_ticket_id.isSome
  · have hstep : s.completeStep c = some (s, { c with phase := .returned }) := by
      unfold DuplicateState.completeStep
      rw [hphase]
      exact if_pos hskip
    exact .step hc hstep (le_refl _) fun s' hs' => returns_of_returned hs' rfl
  · obtain ⟨c', hstep, hphase'⟩ : ∃ c', s.completeStep c = some (s, c') ∧
        c'.phase = .closing x (s.db.openDuplicates x.id) := by
      unfold DuplicateState.completeStep
      rw [hphase]
      exact ⟨_, if_neg hskip, rfl⟩
    exact .step hc hstep (le_refl _) fun s' hs' => returns_of_closing hs' hphase'

/-- Each completion can return. -/
theorem completion_returns : s.Returns u i := by
  cases hphase : c.phase with
  | start =>
    cases hread : s.db.ticket? c.ticketId with
    | none =>
      have hstep : s.completeStep c = some (s, { c with phase := .returned }) := by
        unfold DuplicateState.completeStep
        rw [hphase]
        dsimp only
        rw [hread]
      exact .step hc hstep (le_refl _) fun s' hs' => returns_of_returned hs' rfl
    | some x =>
      obtain ⟨c', hstep, hphase'⟩ : ∃ c', s.completeStep c = some (s, c') ∧
          c'.phase = .loaded x := by
        unfold DuplicateState.completeStep
        rw [hphase]
        dsimp only
        rw [hread]
        exact ⟨_, rfl, rfl⟩
      exact .step hc hstep (le_refl _) fun s' hs' => returns_of_loaded hs' hphase'
  | loaded x => exact returns_of_loaded hc hphase
  | closing x rest => exact returns_of_closing hc hphase
  | returned => exact returns_of_returned hc hphase

end

end Termination

/-! ## Main result -/

/-- In every run in which no ticket with duplicates is confirmed as a duplicate, the reads behind a
    link are current when it is written, and a duplicate has its turn with the status that was
    read or done: no canonical is linked itself, the work on every ticket that was moved ends, and
    where it has ended every open ticket that was linked to a finished one is closed. -/
theorem duplicates_unchained {u : Unicode} {s : DuplicateState} (h : (currentLinks u).Reachable s) :
    s.db.NoChain ∧ s.DuplicatesClosed ∧
      ∀ i c, s.completions[i]? = some c → s.Returns u i := by
  have hinv := duplicateInv_reachable h
  refine ⟨hinv.edits.table.noChain, ?_, fun i c hc => completion_returns hc⟩
  intro c hc hphase
  have hok := hinv.completions c hc
  unfold CompletionOk at hok
  rw [hphase] at hok
  exact hok

/-- Texts without marks or capitals, which the tables of the runtime leave as they are. -/
def plainUnicode : Unicode where
  nfkc value := value
  lower value := value
  isLetterOrNumber := Char.isAlphanum

/-- A board without tickets. -/
def emptyBoard : DuplicateState where
  edits := { db := { tickets := [], links := [] }, clock := 0, calls := [], wrote := [] }
  decisions := []
  reports := []
  confirms := []
  completions := []

theorem emptyBoard_init (u : Unicode) : (duplicateSystem u).init emptyBoard :=
  ⟨rfl, rfl, rfl, rfl, rfl, rfl, rfl⟩

/-- A report from the chat room `"1"`. -/
def chatReport (title : String) : TicketBody where
  intake := { title, source_kind := "chat", source_chat_room_id := "1" }

/-- Report C, and report R with another title, which is parked; then report D with the title of
    R, which is linked to R. -/
def threeReports : List DuplicateAction :=
  [.startReport "acme" (chatReport "crash"), .report 0 "C", .report 0 "C",
    .startReport "acme" (chatReport "login fails"), .report 1 "R", .report 1 "R",
    .startReport "acme" (chatReport "login fails"), .report 2 "D", .report 2 "D"]

/-- Move the ticket to done, with the call that is number `i`. -/
def finish (i : Nat) (id : String) : List DuplicateAction :=
  [.edit (.startMove id .done none), .edit (.advance i {}), .edit (.advance i {}),
    .edit (.advance i {})]

/-- What a reader sees of the tickets: their links and their status. -/
def TicketDb.linkView (db : TicketDb) : List (String × Option String × TicketStatus) :=
  db.tickets.map fun t => (t.id, t.canonical_ticket_id, t.status)

/-- The parked report is kept independent; finishing it closes the report that was linked to
    it. -/
theorem duplicates_unchained_threeReports :
    ∃ s, (currentLinks plainUnicode).Reachable s ∧
      s.db.linkView = [("C", none, .todo), ("R", none, .done), ("D", some "R", .done)] ∧
      s.db.NoChain ∧ s.DuplicatesClosed ∧
        ∀ i c, s.completions[i]? = some c → s.Returns plainUnicode i := by
  obtain ⟨s, hreach, hs⟩ := Transition.exists_reachable_guarded (M := currentLinks plainUnicode)
    (C := DuplicateState.LinksCurrent) (fun _ _ _ hok h => ⟨h, hok⟩) (emptyBoard_init plainUnicode)
    (threeReports ++ [.startConfirm "R" none, .confirm 0, .confirm 0] ++ finish 0 "R" ++
      [.complete 0, .complete 0, .complete 0, .complete 0])
    (fun s => s.db.linkView = [("C", none, .todo), ("R", none, .done), ("D", some "R", .done)])
    (by decide +kernel)
  exact ⟨s, hreach, of_decide_eq_true hs, duplicates_unchained hreach⟩

/-- The parked report is confirmed as a duplicate while D is linked to it: the links chain, and
    when C is finished, R is closed with it and D stays open. -/
theorem not_always_unchained :
    ¬ ∀ s, (duplicateSystem plainUnicode).Reachable s → s.db.NoChain ∧ s.DuplicatesClosed := by
  intro hall
  have hrun : ∀ s a t, DuplicateState.act plainUnicode s a = .ok t →
      (duplicateSystem plainUnicode).step s a t := fun _ _ _ h => h
  obtain ⟨s, hpath, hs⟩ := Transition.exists_path_of_run hrun emptyBoard
    (threeReports ++ [.startConfirm "R" (some "C"), .confirm 0, .confirm 0] ++ finish 0 "C" ++
      [.complete 0, .complete 0, .complete 0, .complete 0, .complete 1, .complete 1])
    (fun s => s.db.linkView = [("C", none, .done), ("R", some "C", .done), ("D", some "R", .todo)] ∧
      s.completions = [
        { ticketId := "C", phase := .returned, owed := ["R"], closed := ["R"] },
        { ticketId := "R", phase := .returned, owed := ["D"] }]) (by decide +kernel)
  obtain ⟨-, hcompletions⟩ := of_decide_eq_true hs
  have hclosed := (hall s (.path (.init (emptyBoard_init plainUnicode)) hpath)).2
  unfold DuplicateState.DuplicatesClosed at hclosed
  rw [hcompletions] at hclosed
  have hmem : "D" ∈ ([] : List String) :=
    hclosed _ (List.mem_cons_of_mem _ List.mem_cons_self) rfl "D" List.mem_cons_self
  cases hmem

end WorkflowBoard.Tickets
