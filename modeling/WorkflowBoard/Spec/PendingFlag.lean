import WorkflowBoard.Native.Board
import WorkflowBoard.Spec.PrerequisiteCycles

/-!
# The pending flag follows the prerequisites (`pending_on_tickets`)

The flag of a ticket is a copy of what its prerequisites say. The invariant is kept except for a
set of tickets: an operation that changes a prerequisite puts the tickets that wait for it into
the set, and evaluating a flag takes the ticket out again. What is changed without an evaluation
is on record with the ticket, and breaks one direction only.
-/

namespace WorkflowBoard.Tickets

/-- A prerequisite that others still wait for. -/
def Ticket.isOpen (t : Ticket) : Bool :=
  t.archived_at.isNone && t.status ≠ .done

/-- The ticket has a link to a ticket that is neither archived nor done. -/
def TicketDb.HasOpenPrerequisite (db : TicketDb) (id : String) : Prop :=
  ∃ l ∈ db.links, l.ticket_id = id ∧
    ∃ p, db.ticket? l.prerequisite_ticket_id = some p ∧ p.archived_at = none ∧ p.status ≠ .done

/-- Every flag says whether the ticket has an open prerequisite. -/
def BoardState.FlagsRight (s : BoardState) : Prop :=
  ∀ t ∈ s.db.tickets, t.pending_on_tickets = true ↔ s.db.HasOpenPrerequisite t.id

/-- One of these has happened to the ticket since its flag was evaluated. -/
def BoardState.Bypassed (s : BoardState) (bs : List Bypass) (id : String) : Prop :=
  ∃ b ∈ bs, (id, b) ∈ s.bypassed

/-- What can leave a ticket with an open prerequisite without the flag. -/
def unlocking : List Bypass := [.closed, .reopened, .child]

/-- What can leave the flag on a ticket without an open prerequisite. -/
def holding : List Bypass := [.duplicate, .archived, .child, .deleted]

/-! ## Open prerequisites -/

section Open

variable {db : TicketDb} {id : String} {l : TicketPrerequisite} {set : Ticket → Ticket}

theorem prereqOpen_eq :
    prereqOpen db l = (db.ticket? l.prerequisite_ticket_id).any Ticket.isOpen := by
  unfold prereqOpen
  cases db.ticket? l.prerequisite_ticket_id with
  | none => rfl
  | some p => rfl

theorem prereqOpen_iff : prereqOpen db l = true ↔
    ∃ p, db.ticket? l.prerequisite_ticket_id = some p ∧ p.isOpen = true := by
  rw [prereqOpen_eq, Option.any_eq_true]

theorem hasOpenPrerequisite_iff : db.HasOpenPrerequisite id ↔
    ∃ l ∈ db.links, l.ticket_id = id ∧ prereqOpen db l = true := by
  unfold TicketDb.HasOpenPrerequisite
  simp only [prereqOpen_iff, Ticket.isOpen, Bool.and_eq_true, Option.isNone_iff_eq_none,
    decide_eq_true_eq]

theorem anyPrereqOpen_iff : anyPrereqOpen db (db.linksOf id) = true ↔
    ∃ l ∈ db.links, l.ticket_id = id ∧ prereqOpen db l = true := by
  unfold anyPrereqOpen TicketDb.linksOf
  simp only [List.any_eq_true, List.mem_filter, decide_eq_true_eq, and_assoc]

theorem mem_dependents {t : String} : t ∈ db.dependents id ↔
    ∃ l ∈ db.links, l.prerequisite_ticket_id = id ∧ l.ticket_id = t := by
  unfold TicketDb.dependents
  simp only [List.mem_eraseDups, List.mem_map, List.mem_filter, decide_eq_true_eq, and_assoc]

/-- An update of a ticket that nobody looks at keeps what is open. -/
theorem prereqOpen_update_other (hid : ∀ t, (set t).id = t.id)
    (hl : l.prerequisite_ticket_id ≠ id) :
    prereqOpen (db.update id set) l = prereqOpen db l := by
  rw [prereqOpen_eq, prereqOpen_eq, TicketDb.ticket?_update hid]
  cases hread : db.ticket? l.prerequisite_ticket_id with
  | none => rfl
  | some p =>
    have hp : p.id ≠ id := by
      rw [(TicketDb.mem_of_ticket? hread).2]
      exact hl
    rw [Option.map_some, if_neg hp]

theorem ticket?_update_self (hid : ∀ t, (set t).id = t.id) {t : Ticket}
    (ht : db.ticket? id = some t) : (db.update id set).ticket? id = some (set t) := by
  rw [TicketDb.ticket?_update hid, ht, Option.map_some, if_pos (TicketDb.mem_of_ticket? ht).2]

end Open

/-! ## The invariant -/

/-- The ticket is open, or its end is announced to those that wait for it. -/
def Ticket.Awaited (moved : List String) (t : Ticket) : Prop :=
  t.isOpen = true ∨
    (t.status = .done ∧ t.parent_id = none ∧ t.canonical_ticket_id = none ∧ t.id ∈ moved)

/-- A link to such a ticket. -/
def BoardState.Live (s : BoardState) (l : TicketPrerequisite) : Prop :=
  ∃ p, s.db.ticket? l.prerequisite_ticket_id = some p ∧ p.Awaited s.moved

/-- The flags of the tickets outside `X` agree with their prerequisites, as far as nothing has
    bypassed their evaluation. -/
structure FlagsExcept (s : BoardState) (X : String → Prop) : Prop where
  ids : (s.db.tickets.map (·.id)).Nodup
  links : ∀ l ∈ s.db.links, l.ticket_id ∈ s.db.tickets.map (·.id) ∧
    l.prerequisite_ticket_id ∈ s.db.tickets.map (·.id)
  closed : ∀ t ∈ s.db.tickets, ¬ X t.id → (t.id, .closed) ∈ s.bypassed →
    t.pending_on_tickets = false
  blocked : ∀ t ∈ s.db.tickets, ¬ X t.id → ¬ s.Bypassed unlocking t.id →
    ∀ l ∈ s.db.links, l.ticket_id = t.id → prereqOpen s.db l = true → t.pending_on_tickets = true
  awaited : ∀ t ∈ s.db.tickets, ¬ X t.id → ¬ s.Bypassed holding t.id →
    t.pending_on_tickets = true → ∃ l ∈ s.db.links, l.ticket_id = t.id ∧ s.Live l

section Rules

variable {s s' : BoardState} {X Y : String → Prop}

theorem FlagsExcept.weaken (h : FlagsExcept s X) (hsub : ∀ id, X id → Y id) : FlagsExcept s Y where
  ids := h.ids
  links := h.links
  closed t ht hY := h.closed t ht fun hX => hY (hsub _ hX)
  blocked t ht hY := h.blocked t ht fun hX => hY (hsub _ hX)
  awaited t ht hY := h.awaited t ht fun hX => hY (hsub _ hX)

/-- A row is as before, or it is without the flag: it has just been closed, or is new. -/
def RowKept (s s' : BoardState) (X : String → Prop) (t : Ticket) : Prop :=
  (t.pending_on_tickets = false ∧
    ((t.id, .closed) ∈ s'.bypassed ∨ ∀ l ∈ s'.db.links, l.ticket_id ≠ t.id)) ∨
  (¬ X t.id ∧ ((t.id, .closed) ∈ s'.bypassed → (t.id, .closed) ∈ s.bypassed) ∧
    ∃ r ∈ s.db.tickets, r.id = t.id ∧ t.pending_on_tickets = r.pending_on_tickets)

variable {id : String} {set : Ticket → Ticket} {t : Ticket} {db : TicketDb} {now : Date}

theorem BoardState.Bypassed.mono {bs : List Bypass}
    (hmarks : ∀ b, (id, b) ∈ s.bypassed → (id, b) ∈ s'.bypassed) (h : s.Bypassed bs id) :
    s'.Bypassed bs id := by
  obtain ⟨b, hb, hmem⟩ := h
  exact ⟨b, hb, hmarks b hmem⟩

/-- The rule for a step that evaluates nothing: a prerequisite may only become open, or stop being
    awaited, where that is on record. -/
theorem FlagsExcept.step (h : FlagsExcept s X) (hids : (s'.db.tickets.map (·.id)).Nodup)
    (hfk : ∀ l ∈ s'.db.links, l.ticket_id ∈ s'.db.tickets.map (·.id) ∧
      l.prerequisite_ticket_id ∈ s'.db.tickets.map (·.id))
    (hrows : ∀ t ∈ s'.db.tickets, ¬ Y t.id → RowKept s s' X t)
    (hmarks : ∀ id b, ¬ Y id → (id, b) ∈ s.bypassed → (id, b) ∈ s'.bypassed)
    (hopen : ∀ l ∈ s'.db.links, ¬ Y l.ticket_id → prereqOpen s'.db l = true →
      (l ∈ s.db.links ∧ prereqOpen s.db l = true) ∨ s'.Bypassed unlocking l.ticket_id)
    (hlive : ∀ l ∈ s.db.links, ¬ Y l.ticket_id → l.ticket_id ∈ s'.db.tickets.map (·.id) →
      s.Live l → (l ∈ s'.db.links ∧ s'.Live l) ∨ s'.Bypassed holding l.ticket_id) :
    FlagsExcept s' Y where
  ids := hids
  links := hfk
  closed t ht hY hclosed := by
    obtain ⟨hfalse, -⟩ | ⟨hX, hold, r, hr, hid, hflag⟩ := hrows t ht hY
    · exact hfalse
    · rw [hflag]
      exact h.closed r hr (hid ▸ hX) (hid ▸ hold hclosed)
  blocked t ht hY hnot l hl hlt hprereq := by
    obtain ⟨-, hclosed | hnone⟩ | ⟨hX, -, r, hr, hid, hflag⟩ := hrows t ht hY
    · exact absurd ⟨.closed, by simp [unlocking], hclosed⟩ hnot
    · exact absurd hlt (hnone l hl)
    · rw [hflag]
      obtain ⟨hl', hopen'⟩ | hbypassed := hopen l hl (hlt ▸ hY) hprereq
      · apply h.blocked r hr (hid ▸ hX) _ l hl' (hlt.trans hid.symm) hopen'
        intro hold
        exact hnot ((hid ▸ hold).mono fun b => hmarks t.id b hY)
      · exact absurd (hlt ▸ hbypassed) hnot
  awaited t ht hY hnot hpending := by
    obtain ⟨hfalse, -⟩ | ⟨hX, -, r, hr, hid, hflag⟩ := hrows t ht hY
    · rw [hfalse] at hpending
      cases hpending
    · have hold : ¬ s.Bypassed holding r.id := by
        rw [hid]
        intro hold
        exact hnot (hold.mono fun b => hmarks t.id b hY)
      obtain ⟨l, hl, hlr, hlive'⟩ := h.awaited r hr (hid ▸ hX) hold (hflag ▸ hpending)
      have hlt : l.ticket_id = t.id := hlr.trans hid
      obtain ⟨hl', hlive''⟩ | hbypassed :=
        hlive l hl (hlt ▸ hY) (hlt ▸ List.mem_map_of_mem ht) hlive'
      · exact ⟨l, hl', hlt, hlive''⟩
      · exact absurd (hlt ▸ hbypassed) hnot

/-- Evaluating a flag takes the ticket out of the exceptions. -/
theorem FlagsExcept.evaluated (h : FlagsExcept s X) (hY : ∀ j, ¬ Y j → ¬ X j ∨ j = id)
    (hflag : ∀ t ∈ s.db.tickets, t.id = id →
      t.pending_on_tickets = anyPrereqOpen s.db (s.db.linksOf id))
    (hclosed : (id, .closed) ∉ s.bypassed) : FlagsExcept s Y where
  ids := h.ids
  links := h.links
  closed t ht hYt hmem := by
    obtain hX | hid := hY t.id hYt
    · exact h.closed t ht hX hmem
    · exact absurd (hid ▸ hmem) hclosed
  blocked t ht hYt hnot l hl hlt hopen := by
    obtain hX | hid := hY t.id hYt
    · exact h.blocked t ht hX hnot l hl hlt hopen
    · rw [hflag t ht hid]
      exact anyPrereqOpen_iff.mpr ⟨l, hl, hlt.trans hid, hopen⟩
  awaited t ht hYt hnot hpending := by
    obtain hX | hid := hY t.id hYt
    · exact h.awaited t ht hX hnot hpending
    · rw [hflag t ht hid] at hpending
      obtain ⟨l, hl, hlt, hopen⟩ := anyPrereqOpen_iff.mp hpending
      obtain ⟨p, hp, hopen'⟩ := prereqOpen_iff.mp hopen
      exact ⟨l, hl, hlt.trans hid.symm, p, hp, .inl hopen'⟩

/-- The rule for an update of one row that evaluates nothing. -/
theorem FlagsExcept.update
    (h : FlagsExcept s X) (ht : s.db.ticket? id = some t) (hid : ∀ x, (set x).id = x.id)
    (hdb : s'.db = s.db.update id set)
    (hflag : (∀ x, (set x).pending_on_tickets = x.pending_on_tickets) ∨
      ((∀ x, (set x).pending_on_tickets = false) ∧ (id, .closed) ∈ s'.bypassed))
    (hclosed : ∀ j, (j, .closed) ∈ s'.bypassed → (j, .closed) ∈ s.bypassed ∨
      (j = id ∧ ∀ x, (set x).pending_on_tickets = false))
    (hmarks : ∀ m ∈ s.bypassed, m ∈ s'.bypassed) (hmoved : ∀ j ∈ s.moved, j ∈ s'.moved)
    (hopen : (set t).isOpen = true →
      t.isOpen = true ∨ ∀ j ∈ s.db.dependents id, s'.Bypassed unlocking j)
    (hlive : t.Awaited s.moved →
      (set t).Awaited s'.moved ∨ ∀ j ∈ s.db.dependents id, s'.Bypassed holding j) :
    FlagsExcept s' X := by
  have hlinks : s'.db.links = s.db.links := by
    rw [hdb]
    rfl
  have hids : s'.db.tickets.map (·.id) = s.db.tickets.map (·.id) := by
    rw [hdb]
    exact TicketDb.ids_update hid
  have hdependent : ∀ l ∈ s.db.links, l.prerequisite_ticket_id = id →
      l.ticket_id ∈ s.db.dependents id := fun l hl hp => mem_dependents.mpr ⟨l, hl, hp, rfl⟩
  apply h.step
  · rw [hids]
    exact h.ids
  · rw [hlinks, hids]
    exact h.links
  · intro x hx hX
    rw [hdb] at hx
    obtain ⟨r, hr, ⟨hrid, rfl⟩ | ⟨hrid, rfl⟩⟩ := TicketDb.mem_update hx
    · have hxid : (set r).id = id := (hid r).trans hrid
      by_cases hmem : (id, Bypass.closed) ∈ s'.bypassed
      · obtain hold | ⟨-, hfalse⟩ := hclosed id hmem
        · obtain hsame | ⟨hfalse, -⟩ := hflag
          · exact .inr ⟨hX, fun _ => hxid ▸ hold, r, hr, (hid r).symm, hsame r⟩
          · exact .inl ⟨hfalse r, .inl (hxid ▸ hmem)⟩
        · exact .inl ⟨hfalse r, .inl (hxid ▸ hmem)⟩
      · obtain hsame | ⟨-, hmem'⟩ := hflag
        · exact .inr ⟨hX, fun hc => absurd (hxid ▸ hc) hmem, r, hr, (hid r).symm, hsame r⟩
        · exact absurd hmem' hmem
    · refine .inr ⟨hX, ?_, x, hr, rfl, rfl⟩
      intro hc
      obtain hold | ⟨heq, -⟩ := hclosed _ hc
      · exact hold
      · exact absurd heq hrid
  · intro j b _ hm
    exact hmarks _ hm
  · intro l hl _ hprereq
    rw [hlinks] at hl
    by_cases hp : l.prerequisite_ticket_id = id
    · obtain ⟨p, hp', hpopen⟩ := prereqOpen_iff.mp hprereq
      rw [hdb, hp, ticket?_update_self hid ht] at hp'
      cases hp'
      obtain hold | hall := hopen hpopen
      · exact .inl ⟨hl, prereqOpen_iff.mpr ⟨t, hp ▸ ht, hold⟩⟩
      · exact .inr (hall _ (hdependent l hl hp))
    · rw [hdb, prereqOpen_update_other hid hp] at hprereq
      exact .inl ⟨hl, hprereq⟩
  · rintro l hl _ - ⟨p, hp, hawaited⟩
    rw [hlinks]
    by_cases hpid : l.prerequisite_ticket_id = id
    · rw [hpid] at hp
      cases ht.symm.trans hp
      obtain hawaited' | hall := hlive hawaited
      · refine .inl ⟨hl, set t, ?_, hawaited'⟩
        rw [hdb, hpid]
        exact ticket?_update_self hid ht
      · exact .inr (hall _ (hdependent l hl hpid))
    · refine .inl ⟨hl, p, ?_, ?_⟩
      · rw [hdb, TicketDb.ticket?_update hid, hp, Option.map_some, if_neg]
        rw [(TicketDb.mem_of_ticket? hp).2]
        exact hpid
      · obtain hpopen | ⟨hdone, hroot, hcanonical, hmem⟩ := hawaited
        · exact .inl hpopen
        · exact .inr ⟨hdone, hroot, hcanonical, hmoved _ hmem⟩

/-! ## Evaluating -/

theorem evaluatePending_cases (db : TicketDb) (id : String) :
    (db.evaluatePending id = db ∧ ∀ t, db.ticket? id = some t →
      t.pending_on_tickets = anyPrereqOpen db (db.linksOf id)) ∨
    db.evaluatePending id =
      db.update id (Ticket.setPendingOnTickets (anyPrereqOpen db (db.linksOf id))) := by
  unfold TicketDb.evaluatePending
  split
  · rename_i hnone
    refine .inl ⟨rfl, ?_⟩
    intro t ht
    rw [hnone] at ht
    cases ht
  · rename_i t ht
    dsimp only
    split
    · exact .inr rfl
    · rename_i hsame
      refine .inl ⟨rfl, ?_⟩
      intro t' ht'
      cases ht.symm.trans ht'
      simpa using Eq.symm (Classical.not_not.mp hsame)

@[simp] theorem Ticket.setPendingOnTickets_id (value : Bool) (t : Ticket) :
    (t.setPendingOnTickets value).id = t.id := rfl

theorem Ticket.Awaited.setPending {value : Bool} {moved : List String}
    (h : t.Awaited moved) : (t.setPendingOnTickets value).Awaited moved := h

theorem prereqOpen_setPending {value : Bool} {l : TicketPrerequisite} :
    prereqOpen (db.update id (Ticket.setPendingOnTickets value)) l = prereqOpen db l := by
  rw [prereqOpen_eq, prereqOpen_eq, TicketDb.ticket?_update (Ticket.setPendingOnTickets_id value)]
  cases db.ticket? l.prerequisite_ticket_id with
  | none => rfl
  | some p =>
    simp only [Option.map_some, Option.any_some]
    split
    · rfl
    · rfl

/-- What an evaluation does to a table: the flag of the ticket is right, and the rest as it was. -/
structure Evaluated (db db' : TicketDb) (id : String) : Prop where
  links : db'.links = db.links
  ids : db'.tickets.map (·.id) = db.tickets.map (·.id)
  others : ∀ t ∈ db'.tickets, t.id ≠ id → t ∈ db.tickets
  flag : ∀ t ∈ db'.tickets, t.id = id →
    t.pending_on_tickets = anyPrereqOpen db' (db'.linksOf id)
  isOpen : ∀ l, prereqOpen db' l = prereqOpen db l
  awaited : ∀ j p moved, db.ticket? j = some p → p.Awaited moved →
    ∃ p', db'.ticket? j = some p' ∧ p'.Awaited moved

theorem evaluated_evaluatePending (hids : (db.tickets.map (·.id)).Nodup)
    (id : String) : Evaluated db (db.evaluatePending id) id := by
  obtain ⟨hdb, hsame⟩ | hdb := evaluatePending_cases db id
  · rw [hdb]
    refine ⟨rfl, rfl, fun t ht _ => ht, ?_, fun _ => rfl, fun j p m hp ha => ⟨p, hp, ha⟩⟩
    intro t ht hid
    exact hsame t (find?_key_eq_some hids ht hid)
  · rw [hdb]
    have hset := Ticket.setPendingOnTickets_id (anyPrereqOpen db (db.linksOf id))
    refine ⟨rfl, TicketDb.ids_update hset, ?_, ?_, fun _ => prereqOpen_setPending, ?_⟩
    · intro t ht hid
      obtain ⟨r, hr, ⟨hrid, rfl⟩ | ⟨-, rfl⟩⟩ := TicketDb.mem_update ht
      · exact absurd hrid hid
      · exact hr
    · intro t ht hid
      have hany : anyPrereqOpen (db.update id (Ticket.setPendingOnTickets
          (anyPrereqOpen db (db.linksOf id)))) (db.linksOf id) =
          anyPrereqOpen db (db.linksOf id) := by
        unfold anyPrereqOpen
        congr 1
        funext l
        exact prereqOpen_setPending
      rw [TicketDb.linksOf_update, hany]
      obtain ⟨r, -, ⟨-, rfl⟩ | ⟨hrid, rfl⟩⟩ := TicketDb.mem_update ht
      · rfl
      · exact absurd hid hrid
    · intro j p moved hp ha
      rw [TicketDb.ticket?_update hset, hp, Option.map_some]
      refine ⟨_, rfl, ?_⟩
      split
      · exact ha.setPending
      · exact ha

/-- Evaluating a flag takes its ticket out of the exceptions. -/
theorem FlagsExcept.evaluate (h : FlagsExcept s X)
    (hdb : Evaluated s.db s'.db id) (hmoved : s'.moved = s.moved)
    (hbypassed : s'.bypassed = s.bypassed.filter (·.1 ≠ id)) :
    FlagsExcept s' fun j => X j ∧ j ≠ id := by
  have hmem : ∀ j b, (j, b) ∈ s'.bypassed ↔ (j, b) ∈ s.bypassed ∧ j ≠ id := by
    intro j b
    rw [hbypassed, List.mem_filter, decide_eq_true_eq]
  have hstep : FlagsExcept s' fun j => X j ∨ j = id := by
    apply h.step
    · rw [hdb.ids]
      exact h.ids
    · rw [hdb.links, hdb.ids]
      exact h.links
    · intro t ht hX
      have hother := hdb.others t ht fun heq => hX (.inr heq)
      exact .inr ⟨fun hXt => hX (.inl hXt), fun hm => ((hmem _ _).mp hm).1, t, hother, rfl, rfl⟩
    · intro j b hj hm
      exact (hmem j b).mpr ⟨hm, fun heq => hj (.inr heq)⟩
    · intro l hl _ hopen
      rw [hdb.links] at hl
      rw [hdb.isOpen] at hopen
      exact .inl ⟨hl, hopen⟩
    · rintro l hl _ - ⟨p, hp, hawaited⟩
      obtain ⟨p', hp', hawaited'⟩ := hdb.awaited _ p _ hp hawaited
      rw [hdb.links]
      exact .inl ⟨hl, p', hp', hmoved ▸ hawaited'⟩
  apply hstep.evaluated
  · intro j hj
    by_cases hid : j = id
    · exact .inr hid
    · refine .inl fun hor => ?_
      obtain hX | heq := hor
      · exact hj ⟨hX, hid⟩
      · exact hid heq
  · exact hdb.flag
  · intro hm
    exact ((hmem _ _).mp hm).2 rfl

/-- What is evaluated again is no exception any more. -/
theorem FlagsExcept.reevaluate (h : FlagsExcept s X) (ids : List String) :
    FlagsExcept (s.reevaluate ids) fun j => X j ∧ j ∉ ids := by
  induction ids generalizing s X with
  | nil =>
    have hnil : s.reevaluate [] = s := by
      unfold BoardState.reevaluate TicketDb.reevaluate
      simp
    rw [hnil]
    exact h.weaken fun j hX => ⟨hX, List.not_mem_nil⟩
  | cons id ids ih =>
    let s₁ : BoardState := { s with
      db := s.db.evaluatePending id
      bypassed := s.bypassed.filter (·.1 ≠ id) }
    have hone : FlagsExcept s₁ fun j => X j ∧ j ≠ id :=
      h.evaluate (evaluated_evaluatePending h.ids id) rfl rfl
    have heq : s.reevaluate (id :: ids) = s₁.reevaluate ids := by
      unfold BoardState.reevaluate TicketDb.reevaluate
      rw [List.foldl_cons, List.filter_filter]
      congr 1
      apply List.filter_congr
      intro m _
      by_cases hm : m.1 = id
      · simp [hm]
      · simp [hm]
    rw [heq]
    apply (ih hone).weaken
    rintro j ⟨⟨hX, hj⟩, hids⟩
    refine ⟨hX, fun hmem => ?_⟩
    obtain rfl | hmem := List.mem_cons.mp hmem
    · exact hj rfl
    · exact hids hmem

/-! ## Moves, archives and confirmations -/

theorem mem_mark {b b' : Bypass} {ids : List String} {j : String} :
    (j, b') ∈ (s.mark b ids).bypassed ↔ (b' = b ∧ j ∈ ids) ∨ (j, b') ∈ s.bypassed := by
  unfold BoardState.mark
  simp only [List.mem_append, List.mem_map, Prod.mk.injEq]
  constructor
  · rintro (⟨i, hi, rfl, rfl⟩ | hm)
    · exact .inl ⟨rfl, hi⟩
    · exact .inr hm
  · rintro (⟨rfl, hi⟩ | hm)
    · exact .inl ⟨j, hi, rfl, rfl⟩
    · exact .inr hm

/-- The rule for an update of one row after which at most one thing is on record with the tickets
    that wait for it. -/
theorem FlagsExcept.recorded {b : Option Bypass}
    (h : FlagsExcept s X) (ht : s.db.ticket? id = some t) (hid : ∀ x, (set x).id = x.id)
    (hdb : s'.db = s.db.update id set)
    (hpending : ∀ x, (set x).pending_on_tickets = x.pending_on_tickets)
    (hmoved : ∀ j ∈ s.moved, j ∈ s'.moved) (hb : b ≠ some .closed)
    (hbypassed : ∀ j b', (j, b') ∈ s'.bypassed ↔
      (b = some b' ∧ j ∈ s.db.dependents id) ∨ (j, b') ∈ s.bypassed)
    (hopen : (set t).isOpen = true → t.isOpen = true ∨ ∃ b' ∈ unlocking, b = some b')
    (hlive : t.Awaited s.moved → (set t).Awaited s'.moved ∨ ∃ b' ∈ holding, b = some b') :
    FlagsExcept s' X := by
  apply h.update ht hid hdb (.inl hpending)
  · intro j hj
    obtain ⟨heq, -⟩ | hold := (hbypassed j .closed).mp hj
    · exact absurd heq hb
    · exact .inl hold
  · rintro ⟨j, b'⟩ hm
    exact (hbypassed j b').mpr (.inr hm)
  · exact hmoved
  · intro hset
    obtain hold | ⟨b', hb', heq⟩ := hopen hset
    · exact .inl hold
    · exact .inr fun j hj => ⟨b', hb', (hbypassed j b').mpr (.inl ⟨heq, hj⟩)⟩
  · intro hawaited
    obtain hkept | ⟨b', hb', heq⟩ := hlive hawaited
    · exact .inl hkept
    · exact .inr fun j hj => ⟨b', hb', (hbypassed j b').mpr (.inl ⟨heq, hj⟩)⟩

theorem move?_frame {t e : Ticket} {status : TicketStatus} {position : Option Int} {next : Int}
    (h : t.move? status position next now = some e) :
    e.id = t.id ∧ e.pending_on_tickets = t.pending_on_tickets ∧ e.archived_at = t.archived_at ∧
      e.parent_id = t.parent_id ∧ e.canonical_ticket_id = t.canonical_ticket_id ∧
      e.status ≠ t.status := by
  unfold Ticket.move? at h
  split at h
  · split at h
    · cases h
    · rename_i hne
      cases h
      exact ⟨rfl, rfl, rfl, rfl, rfl, fun heq => hne heq.symm⟩
  · split at h
    · cases h
    · rename_i hne
      cases h
      exact ⟨rfl, rfl, rfl, rfl, rfl, fun heq => hne heq.symm⟩

theorem moved_frame (status : TicketStatus) (position : Option Int) (next : Int) (now : Date)
    (t : Ticket) : (t.moved status position next now).id = t.id ∧
      (t.moved status position next now).pending_on_tickets = t.pending_on_tickets := by
  unfold Ticket.moved
  cases h : t.move? status position next now with
  | none => exact ⟨rfl, rfl⟩
  | some e =>
    obtain ⟨hid, hpending, -⟩ := move?_frame h
    exact ⟨hid, hpending⟩

theorem isOpen_iff : t.isOpen = true ↔ t.archived_at = none ∧ t.status ≠ .done := by
  simp [Ticket.isOpen]

section Move

variable {t e : Ticket}

/-- A ticket that becomes open was reopened, or is a child. -/
theorem moveBypass_open (harchived : t.archived_at = none) (hopen : e.isOpen = true) :
    t.isOpen = true ∨ ∃ b ∈ unlocking, BoardState.moveBypass t e = some b := by
  have hopen' := (isOpen_iff.mp hopen).2
  by_cases hdone : t.status = .done
  · right
    unfold BoardState.moveBypass
    rw [if_neg (by simp [hdone, hopen'])]
    by_cases hchild : t.parent_id.isSome
    · exact ⟨.child, by simp [unlocking], if_pos hchild⟩
    · refine ⟨.reopened, by simp [unlocking], ?_⟩
      rw [if_neg hchild, if_pos hdone]
  · exact .inl (isOpen_iff.mpr ⟨harchived, hdone⟩)

/-- A ticket that is finished is announced, or it is a child or a duplicate. -/
theorem moveBypass_awaited {status : TicketStatus} {position : Option Int} {next : Int}
    {now : Date} {moved : List String} (harchived : t.archived_at = none)
    (hmove : t.move? status position next now = some e)
    (hmoved : t.parent_id = none → t.id ∈ moved) :
    e.Awaited moved ∨ ∃ b ∈ holding, BoardState.moveBypass t e = some b := by
  obtain ⟨hid, -, harchived', hparent, hcanonical, hstatus⟩ := move?_frame hmove
  by_cases hdone : e.status = .done
  · have hdone' : t.status ≠ .done := by
      intro heq
      exact hstatus (hdone.trans heq.symm)
    have hbypass : BoardState.moveBypass t e =
        if t.parent_id.isSome then some .child
        else if t.canonical_ticket_id.isSome then some .duplicate else none := by
      unfold BoardState.moveBypass
      rw [if_neg (by simp [hdone, hdone']), if_neg hdone']
    by_cases hchild : t.parent_id.isSome
    · exact .inr ⟨.child, by simp [holding], hbypass.trans (if_pos hchild)⟩
    · rw [if_neg hchild] at hbypass
      by_cases hduplicate : t.canonical_ticket_id.isSome
      · exact .inr ⟨.duplicate, by simp [holding], hbypass.trans (if_pos hduplicate)⟩
      · have hroot : t.parent_id = none := by simpa using hchild
        refine .inl (.inr ⟨hdone, hparent.trans hroot, ?_, hid ▸ hmoved hroot⟩)
        rw [hcanonical]
        simpa using hduplicate
  · exact .inl (.inl (isOpen_iff.mpr ⟨harchived'.trans harchived, hdone⟩))

theorem moveBypass_ne_closed : BoardState.moveBypass t e ≠ some .closed := by
  unfold BoardState.moveBypass
  split
  · simp
  · split
    · simp
    · split
      · simp
      · split
        · simp
        · simp

end Move

section

variable (h : FlagsExcept s X)
include h

/-- A move leaves the dependents it evaluates right. -/
theorem FlagsExcept.move {status : TicketStatus} {position : Option Int} {next : Int}
    (hmove : s.move id status position next now = .ok s') : FlagsExcept s' X := by
  unfold BoardState.move at hmove
  split at hmove
  · cases hmove
  · rename_i t ht
    split at hmove
    · cases hmove
    · rename_i harchived
      have harchived : t.archived_at = none := by simpa using harchived
      split at hmove
      · cases hmove
        exact h
      · rename_i e he
        have hset : t.moved status position next now = e := by
          unfold Ticket.moved
          rw [he]
          rfl
        have hid := fun x => (moved_frame status position next now x).1
        have hpending := fun x => (moved_frame status position next now x).2
        have hopen : (t.moved status position next now).isOpen = true → t.isOpen = true ∨
            ∃ b ∈ unlocking, BoardState.moveBypass t e = some b := by
          rw [hset]
          exact moveBypass_open harchived
        have hannounced : t.parent_id = none →
            t.id ∈ if t.parent_id.isSome then s.moved else s.moved ++ [id] := by
          intro hroot
          rw [hroot, (TicketDb.mem_of_ticket? ht).2]
          simp
        have hawaited := moveBypass_awaited harchived he hannounced
        rw [← hset] at hawaited
        have hmoved : ∀ j ∈ s.moved,
            j ∈ if t.parent_id.isSome then s.moved else s.moved ++ [id] := by
          intro j hj
          split
          · exact hj
          · exact List.mem_append_left _ hj
        rw [hset] at hopen hawaited
        cases hbypass : BoardState.moveBypass t e with
        | none =>
          rw [hbypass] at hmove hopen hawaited
          cases hmove
          refine h.recorded (b := none) ht hid rfl hpending hmoved (by simp) ?_ ?_ ?_
          · simp
          · rw [hset]
            exact hopen
          · rw [hset]
            exact fun _ => hawaited
        | some b =>
          rw [hbypass] at hmove hopen hawaited
          cases hmove
          refine h.recorded (b := some b) ht hid rfl hpending hmoved
            (hbypass ▸ moveBypass_ne_closed) ?_ ?_ ?_
          · intro j b'
            rw [mem_mark]
            simp [eq_comm]
          · rw [hset]
            exact hopen
          · rw [hset]
            exact fun _ => hawaited

/-- An archived ticket is not awaited, unless it was done before. -/
theorem FlagsExcept.archive (harchive : s.archive id now = .ok s') : FlagsExcept s' X := by
  unfold BoardState.archive at harchive
  split at harchive
  · cases harchive
  · rename_i t ht
    split at harchive
    · cases harchive
      exact h
    · split at harchive
      · cases harchive
      · cases harchive
        by_cases hdone : t.status = .done
        · rw [if_pos hdone]
          refine h.recorded (b := none) ht (Ticket.archive_id now) rfl (fun _ => rfl)
            (fun _ hj => hj) (by simp) ?_ ?_ ?_
          · simp
          · simp [Ticket.isOpen, Ticket.archive]
          · rintro (hopen | hawaited)
            · exact absurd hdone (isOpen_iff.mp hopen).2
            · exact .inl (.inr hawaited)
        · rw [if_neg hdone]
          refine h.recorded (b := some .archived) ht (Ticket.archive_id now) rfl (fun _ => rfl)
            (fun _ hj => hj) (by simp) ?_ ?_ ?_
          · intro j b'
            rw [mem_mark]
            simp [eq_comm]
          · simp [Ticket.isOpen, Ticket.archive]
          · exact fun _ => .inr ⟨.archived, by simp [holding], rfl⟩

/-- The rule for a change between two statuses before done. -/
theorem FlagsExcept.unfinished (ht : s.db.ticket? id = some t) (hid : ∀ x, (set x).id = x.id)
    (hdb : s'.db = s.db.update id set)
    (hpending : ∀ x, (set x).pending_on_tickets = x.pending_on_tickets)
    (hmoved : ∀ j ∈ s.moved, j ∈ s'.moved) (hbypassed : s'.bypassed = s.bypassed)
    (harchived : (set t).archived_at = t.archived_at) (hbefore : t.status ≠ .done)
    (hafter : (set t).status ≠ .done) : FlagsExcept s' X := by
  refine h.recorded (b := none) ht hid hdb hpending hmoved (by simp) ?_ ?_ ?_
  · intro j b
    rw [hbypassed]
    simp
  · intro hopen
    exact .inl (isOpen_iff.mpr ⟨harchived.symm.trans (isOpen_iff.mp hopen).1, hbefore⟩)
  · rintro (hopen | ⟨hdone, -⟩)
    · exact .inl (.inl (isOpen_iff.mpr ⟨harchived.trans (isOpen_iff.mp hopen).1, hafter⟩))
    · exact absurd hdone hbefore

theorem FlagsExcept.start (hstart : s.start id = .ok s') :
    FlagsExcept s' X := by
  unfold BoardState.start at hstart
  split at hstart
  · cases hstart
  · rename_i t ht
    split at hstart
    · rename_i htodo
      cases hstart
      exact h.unfinished ht Ticket.start_id rfl (fun _ => rfl)
        (fun j hj => List.mem_append_left _ hj) rfl rfl (by simp [htodo]) (by simp [Ticket.start])
    · cases hstart

/-! ## The dispatcher -/

/-- A duplicate is closed: it waits for nobody, and nobody who waits for it is told. -/
theorem FlagsExcept.closeDuplicate (canonical : Ticket) (now : Date)
    (duplicate : Ticket) : FlagsExcept (s.closeDuplicate canonical now duplicate) X := by
  unfold BoardState.closeDuplicate
  split
  · rename_i hany
    obtain ⟨t, ht, -⟩ := (Option.any_eq_true _ _).mp hany
    refine h.update ht (Ticket.resolve_id _) rfl ?_ ?_ ?_ ?_ ?_ ?_
    · exact .inr ⟨fun _ => rfl, mem_mark.mpr (.inl ⟨rfl, List.mem_singleton_self _⟩)⟩
    · intro j hj
      obtain ⟨-, hid⟩ | hj := mem_mark.mp hj
      · exact .inr ⟨List.mem_singleton.mp hid, fun _ => rfl⟩
      · obtain ⟨hne, -⟩ | hold := mem_mark.mp hj
        · cases hne
        · exact .inl hold
    · rintro ⟨j, b⟩ hm
      exact mem_mark.mpr (.inr (mem_mark.mpr (.inr hm)))
    · exact fun j hj => List.mem_append_left _ hj
    · intro hopen
      exact absurd rfl (isOpen_iff.mp hopen).2
    · intro _
      refine .inr fun j hj => ⟨.duplicate, by simp [holding], ?_⟩
      exact mem_mark.mpr (.inr (mem_mark.mpr (.inl ⟨rfl, hj⟩)))
  · exact h

end

theorem closeDuplicate_links {canonical duplicate : Ticket}:
    (s.closeDuplicate canonical now duplicate).db.links = s.db.links := by
  unfold BoardState.closeDuplicate
  split
  · rfl
  · rfl

theorem FlagsExcept.closeDuplicates (h : FlagsExcept s X) (canonical : Ticket) (now : Date)
    (duplicates : List Ticket) :
    FlagsExcept (duplicates.foldl (BoardState.closeDuplicate canonical now) s) X ∧
      (duplicates.foldl (BoardState.closeDuplicate canonical now) s).db.links = s.db.links := by
  induction duplicates generalizing s with
  | nil => exact ⟨h, rfl⟩
  | cons d duplicates ih =>
    rw [List.foldl_cons]
    obtain ⟨hflags, hlinks⟩ := ih (h.closeDuplicate canonical now d)
    exact ⟨hflags, hlinks.trans closeDuplicate_links⟩

/-- A promotion leaves the flags right. -/
theorem FlagsExcept.promoteNext (h : FlagsExcept s X) (t : Ticket) :
    FlagsExcept (s.promoteNext t) X := by
  unfold BoardState.promoteNext
  split
  · exact h
  · rename_i next hread
    split
    · rename_i hnext
      obtain ⟨id, -, hid⟩ := Option.bind_eq_some_iff.mp hread
      have hread' : s.db.ticket? next.id = some next := by
        rw [(TicketDb.mem_of_ticket? hid).2]
        exact hid
      exact h.unfinished hread' Ticket.queue_id rfl (fun _ => rfl)
        (fun j hj => List.mem_append_left _ hj) rfl rfl (by simp [hnext.2.1])
        (by simp [Ticket.queue])
    · exact h

theorem promoteNext_links (t : Ticket) : (s.promoteNext t).db.links = s.db.links := by
  unfold BoardState.promoteNext
  split
  · rfl
  · split
    · rfl
    · rfl

/-- An activity is taken up: its ticket is not announced any more. -/
theorem FlagsExcept.takeUp {i : Nat} (h : FlagsExcept s X) (hi : s.moved[i]? = some id)
    (hY : ∀ p, s.db.ticket? id = some p → p.status = .done → p.parent_id = none →
      p.canonical_ticket_id = none → ∀ j ∈ s.db.dependents id, Y j) (hsub : ∀ j, X j → Y j) :
    FlagsExcept { s with moved := s.moved.eraseIdx i } Y := by
  refine h.step h.ids h.links ?_ ?_ ?_ ?_
  · intro t ht hYt
    exact .inr ⟨fun hX => hYt (hsub _ hX), fun hm => hm, t, ht, rfl, rfl⟩
  · exact fun j b _ hm => hm
  · exact fun l hl _ hopen => .inl ⟨hl, hopen⟩
  · rintro l hl hYl - ⟨p, hp, hawaited⟩
    refine .inl ⟨hl, p, hp, ?_⟩
    obtain hopen | ⟨hdone, hroot, hcanonical, hmem⟩ := hawaited
    · exact .inl hopen
    · refine .inr ⟨hdone, hroot, hcanonical, ?_⟩
      have hpid := (TicketDb.mem_of_ticket? hp).2
      obtain ⟨k, hk⟩ := List.mem_iff_getElem?.mp hmem
      apply List.mem_eraseIdx_iff_getElem?.mpr
      refine ⟨k, ?_, hk⟩
      rintro rfl
      obtain heq := Option.some.inj (hk.symm.trans hi)
      rw [← hpid, heq] at hp
      exact hYl
        (hY p hp hdone hroot hcanonical _ (mem_dependents.mpr ⟨l, hl, by rw [← hpid, heq], rfl⟩))

theorem FlagsExcept.handle {i : Nat}
    (h : FlagsExcept s fun _ => False) (hi : s.moved[i]? = some id) :
    FlagsExcept ({ s with moved := s.moved.eraseIdx i : BoardState }.onMoved id now)
      fun _ => False := by
  unfold BoardState.onMoved
  split
  · rename_i hnone
    apply h.takeUp hi _ fun _ hX => hX
    intro p hp
    rw [hnone] at hp
    cases hp
  · rename_i t ht
    split
    · unfold BoardState.onDone
      split
      · rename_i hcanonical
        apply h.takeUp hi _ fun _ hX => hX
        intro p hp _ _ hnone
        cases hp.symm.trans ht
        rw [hnone] at hcanonical
        cases hcanonical
      · -- the tickets that wait for it are exceptions until they are evaluated
        have htaken := h.takeUp (Y := (· ∈ s.db.dependents id)) hi
          (fun _ _ _ _ _ j hj => hj) fun _ hX => hX.elim
        obtain ⟨hclosed, hlinks⟩ := htaken.closeDuplicates t now (s.db.openDuplicates t.id)
        have hpromoted := hclosed.promoteNext t
        rw [← (TicketDb.mem_of_ticket? ht).2] at hpromoted
        apply (hpromoted.reevaluate _).weaken
        rintro j ⟨hj, hnot⟩
        apply hnot
        obtain ⟨l, hl, hp, hlj⟩ := mem_dependents.mp hj
        refine mem_dependents.mpr ⟨l, ?_, hp, hlj⟩
        rw [promoteNext_links]
        exact hlinks ▸ hl
    · rename_i hnot
      apply h.takeUp hi _ fun _ hX => hX
      intro p hp hdone hroot
      cases hp.symm.trans ht
      exact absurd ⟨by simp [hroot], hdone⟩ hnot

/-! ## Creating and deleting tickets -/

theorem FlagsExcept.insert (h : FlagsExcept s X)
    (hnew : t.id ∉ s.db.tickets.map (·.id)) (hpending : t.pending_on_tickets = false)
    (hdb : s'.db = { s.db with tickets := s.db.tickets ++ [t] }) (hmoved : s'.moved = s.moved)
    (hbypassed : s'.bypassed = s.bypassed) : FlagsExcept s' X := by
  have hlinks : s'.db.links = s.db.links := by
    rw [hdb]
  have hids : s'.db.tickets.map (·.id) = s.db.tickets.map (·.id) ++ [t.id] := by
    rw [hdb, List.map_append, List.map_singleton]
  -- the links are between the tickets that were there
  have hread : ∀ j ∈ s.db.tickets.map (·.id), s'.db.ticket? j = s.db.ticket? j := by
    intro j hj
    obtain ⟨x, hx, rfl⟩ := List.mem_map.mp hj
    have hfind : s.db.ticket? x.id = some x := find?_key_eq_some h.ids hx rfl
    unfold TicketDb.ticket? at hfind ⊢
    rw [hdb, List.find?_append, hfind]
    rfl
  apply h.step
  · rw [hids]
    exact List.nodup_append.mpr ⟨h.ids, List.nodup_singleton _, by
      intro a ha b hb heq
      obtain rfl := List.mem_singleton.mp hb
      exact hnew (heq ▸ ha)⟩
  · intro l hl
    rw [hlinks] at hl
    rw [hids]
    obtain ⟨hticket, hprereq⟩ := h.links l hl
    exact ⟨List.mem_append_left _ hticket, List.mem_append_left _ hprereq⟩
  · intro x hx hX
    rw [hdb] at hx
    obtain hx | hx := List.mem_append.mp hx
    · exact .inr ⟨hX, fun hm => hbypassed ▸ hm, x, hx, rfl, rfl⟩
    · obtain rfl := List.mem_singleton.mp hx
      refine .inl ⟨hpending, .inr fun l hl heq => ?_⟩
      rw [hlinks] at hl
      exact hnew (heq ▸ (h.links l hl).1)
  · intro j b _ hm
    exact hbypassed ▸ hm
  · intro l hl _ hopen
    rw [hlinks] at hl
    rw [prereqOpen_eq, hread _ (h.links l hl).2, ← prereqOpen_eq] at hopen
    exact .inl ⟨hl, hopen⟩
  · rintro l hl _ - ⟨p, hp, hawaited⟩
    rw [hlinks]
    refine .inl ⟨hl, p, ?_, hmoved ▸ hawaited⟩
    rw [hread _ (h.links l hl).2]
    exact hp

variable {u : Unicode} {candidateId : Option String} {req : AddRequest}

theorem FlagsExcept.create {accountId id : String} {body : TicketBody}
    (h : FlagsExcept s X) (hcreate : s.create u accountId body id now = .ok s') :
    FlagsExcept s' X := by
  unfold BoardState.create at hcreate
  split at hcreate
  · cases hcreate
  · rename_i hnew
    split at hcreate
    · rename_i a hassess
      cases hcreate
      exact h.insert (t := body.row accountId a id now) hnew rfl rfl rfl rfl
    · cases hcreate
    · cases hcreate

theorem FlagsExcept.createChild {parentId id : String} {body : ChildBody} (h : FlagsExcept s X)
    (hcreate : s.createChild parentId body id = .ok s') : FlagsExcept s' X := by
  unfold BoardState.createChild at hcreate
  split at hcreate
  · cases hcreate
  · rename_i hnew
    split at hcreate
    · cases hcreate
    · rename_i parent hparent
      split at hcreate
      · cases hcreate
      · split at hcreate
        · cases hcreate
        · split at hcreate
          · cases hcreate
          · cases hcreate
            exact h.insert (t := body.row parent id) hnew rfl rfl rfl rfl

/-- The links to a ticket go; those who waited for it are exceptions. -/
theorem FlagsExcept.deleteLinksTo (h : FlagsExcept s X) (id : String) :
    FlagsExcept { s with db := s.db.deleteLinksTo id } fun j => X j ∨ j ∈ s.db.dependents id := by
  refine h.step h.ids (fun l hl => h.links l (List.mem_of_mem_filter hl)) ?_ ?_ ?_ ?_
  · intro t ht hX
    exact .inr ⟨fun hXt => hX (.inl hXt), fun hm => hm, t, ht, rfl, rfl⟩
  · exact fun j b _ hm => hm
  · intro l hl _ hopen
    exact .inl ⟨List.mem_of_mem_filter hl, hopen⟩
  · intro l hl hX _ hlive
    refine .inl ⟨List.mem_filter.mpr ⟨hl, ?_⟩, hlive⟩
    by_cases hp : l.prerequisite_ticket_id = id
    · exact absurd (.inr (mem_dependents.mpr ⟨l, hl, hp, rfl⟩)) hX
    · simpa using hp

theorem ticket?_remove {ids : List String} {j : String} (hj : j ∉ ids) :
    (db.remove ids).ticket? j = db.ticket? j := by
  unfold TicketDb.ticket? TicketDb.remove
  rw [List.find?_filter]
  congr 1
  funext x
  by_cases hx : x.id = j
  · simp [hx, hj]
  · simp [hx]

/-- Rows go, with the links to and from them: that is on record with those who waited for them. -/
theorem FlagsExcept.remove (h : FlagsExcept s X) (ids : List String) :
    FlagsExcept ({ s with db := s.db.remove ids : BoardState }.mark .deleted
      (ids.flatMap s.db.dependents)) X := by
  have hlinks : ∀ l ∈ (s.db.remove ids).links, l ∈ s.db.links ∧ l.ticket_id ∉ ids ∧
      l.prerequisite_ticket_id ∉ ids := by
    intro l hl
    simpa [TicketDb.remove] using hl
  have hmem : ∀ j ∈ s.db.tickets.map (·.id), j ∉ ids →
      j ∈ (s.db.remove ids).tickets.map (·.id) := by
    intro j hj hids
    obtain ⟨x, hx, rfl⟩ := List.mem_map.mp hj
    exact List.mem_map_of_mem (List.mem_filter.mpr ⟨hx, by simpa using hids⟩)
  refine h.step (h.ids.sublist (List.Sublist.map _ List.filter_sublist)) ?_ ?_ ?_ ?_ ?_
  · intro l hl
    obtain ⟨hold, hticket, hprereq⟩ := hlinks l hl
    obtain ⟨hticket', hprereq'⟩ := h.links l hold
    exact ⟨hmem _ hticket' hticket, hmem _ hprereq' hprereq⟩
  · intro t ht hX
    refine .inr ⟨hX, ?_, t, List.mem_of_mem_filter ht, rfl, rfl⟩
    intro hm
    obtain ⟨hne, -⟩ | hold := mem_mark.mp hm
    · cases hne
    · exact hold
  · intro j b _ hm
    exact mem_mark.mpr (.inr hm)
  · intro l hl _ hopen
    obtain ⟨hold, -, hprereq⟩ := hlinks l hl
    refine .inl ⟨hold, ?_⟩
    rw [prereqOpen_eq] at hopen ⊢
    exact ticket?_remove hprereq ▸ hopen
  · rintro l hl _ hstays ⟨p, hp, hawaited⟩
    have hticket : l.ticket_id ∉ ids := by
      obtain ⟨x, hx, hid⟩ := List.mem_map.mp hstays
      rw [← hid]
      simpa using (List.mem_filter.mp hx).2
    by_cases hprereq : l.prerequisite_ticket_id ∈ ids
    · refine .inr ⟨.deleted, by simp [holding], mem_mark.mpr (.inl ⟨rfl, ?_⟩)⟩
      exact List.mem_flatMap.mpr ⟨_, hprereq, mem_dependents.mpr ⟨l, hl, rfl, rfl⟩⟩
    · refine .inl ⟨List.mem_filter.mpr ⟨hl, by simp [hticket, hprereq]⟩, p, ?_, hawaited⟩
      exact (ticket?_remove hprereq).trans hp

/-- A delete evaluates the dependents of what goes. -/
theorem FlagsExcept.delete (h : FlagsExcept s fun _ => False)
    (hdelete : s.delete id = .ok s') : FlagsExcept s' fun _ => False := by
  unfold BoardState.delete at hdelete
  split at hdelete
  · cases hdelete
  · split at hdelete
    · cases hdelete
    · cases hdelete
      apply FlagsExcept.remove
      apply ((h.deleteLinksTo id).reevaluate _).weaken
      rintro j ⟨hfalse | hj, hnot⟩
      · exact hfalse
      · exact hnot hj

/-! ## Confirming duplicates -/

theorem confirmCheck_report {decisions : List TicketDuplicateDecision}
    {reportId : String} {report : Ticket} {canonical : Option Ticket}
    (h : confirmCheck db decisions reportId candidateId = .checked report canonical) :
    db.ticket? reportId = some report := by
  unfold confirmCheck at h
  split at h
  · cases h
  · rename_i t ht
    dsimp only at h
    split at h
    · cases h
    · split at h
      · obtain ⟨rfl, -⟩ := ConfirmPhase.checked.inj h
        exact ht
      · split at h
        · cases h
        · obtain ⟨rfl, -⟩ := ConfirmPhase.checked.inj h
          exact ht

theorem FlagsExcept.confirm {reportId : String}
    (h : FlagsExcept s X) (hconfirm : s.confirm reportId candidateId = .ok s') :
    FlagsExcept s' X := by
  unfold BoardState.confirm at hconfirm
  split at hconfirm
  · rename_i report canonical hcheck
    have hread := confirmCheck_report hcheck
    rw [← (TicketDb.mem_of_ticket? hread).2] at hread
    cases hconfirm
    have hid : ∀ x : Ticket, (x.decided canonical).id = x.id := fun _ => rfl
    by_cases hlate : report.status = .done ∧ canonical.isSome ∧ report.id ∈ s.moved
    · rw [if_pos hlate]
      refine h.recorded (b := some .duplicate) hread hid rfl (fun _ => rfl) (fun _ hj => hj)
        (by simp) ?_ ?_ ?_
      · intro j b
        rw [mem_mark]
        simp [eq_comm]
      · exact fun hopen => .inl hopen
      · exact fun _ => .inr ⟨.duplicate, by simp [holding], rfl⟩
    · rw [if_neg hlate]
      refine h.recorded (b := none) hread hid rfl (fun _ => rfl) (fun _ hj => hj) (by simp) ?_ ?_ ?_
      · simp
      · exact fun hopen => .inl hopen
      · rintro (hopen | ⟨hdone, hroot, -, hmem⟩)
        · exact .inl (.inl hopen)
        · -- a finished ticket that is still announced was not confirmed as a duplicate
          cases canonical with
          | none => exact .inl (.inr ⟨hdone, hroot, rfl, hmem⟩)
          | some c => exact absurd ⟨hdone, rfl, hmem⟩ hlate
  · cases hconfirm
  · cases hconfirm

/-! ## Adding and removing links -/

/-- A removed link is evaluated. -/
theorem FlagsExcept.removeLink {req : RemoveRequest} (h : FlagsExcept s fun _ => False)
    (hremove : s.removeLink req = .ok s') : FlagsExcept s' fun _ => False := by
  unfold BoardState.removeLink at hremove
  split at hremove
  · cases hremove
  · cases hremove
    exact h
  · rename_i db hdb
    cases hremove
    unfold removePrerequisite at hdb
    split at hdb
    · cases hdb
    · split at hdb
      · cases hdb
        have hcut : FlagsExcept
            { s with db := s.db.deleteLink req.ticketId req.prereqTicketId }
            fun j => j = req.ticketId := by
          refine h.step h.ids (fun l hl => h.links l (List.mem_of_mem_filter hl)) ?_ ?_ ?_ ?_
          · intro t ht hX
            exact .inr ⟨fun hfalse => hfalse, fun hm => hm, t, ht, rfl, rfl⟩
          · exact fun j b _ hm => hm
          · intro l hl _ hopen
            exact .inl ⟨List.mem_of_mem_filter hl, hopen⟩
          · intro l hl hX _ hlive
            exact .inl ⟨List.mem_filter.mpr ⟨hl, by simp [hX]⟩, hlive⟩
        have hevaluated : FlagsExcept { s with
            db := (s.db.deleteLink req.ticketId req.prereqTicketId).evaluatePending req.ticketId
            bypassed := s.bypassed.filter (·.1 ≠ req.ticketId) }
            fun j => j = req.ticketId ∧ j ≠ req.ticketId :=
          hcut.evaluate (evaluated_evaluatePending hcut.ids _) rfl rfl
        exact hevaluated.weaken fun j hj => hj.2 hj.1
      · cases Except.ok.inj hdb

theorem readTicket_eq_ok (h : readTicket db id = .ok t) : db.ticket? id = some t := by
  unfold readTicket at h
  split at h
  · cases h
  · rename_i ticket hread
    split at h
    · cases h
    · rw [← Except.ok.inj h]
      exact hread

theorem checkCandidate_mem {id pid : String}
    (h : checkCandidate db id t pid = .ok ()) : pid ∈ db.tickets.map (·.id) := by
  unfold checkCandidate at h
  split at h
  · cases h
  · split at h
    · cases h
    · rename_i row hread
      obtain ⟨hmem, hid⟩ := TicketDb.mem_of_ticket? hread
      exact List.mem_map.mpr ⟨row, hmem, hid⟩

/-- What a successful `addPrerequisites` has checked. -/
theorem addPrerequisites_eq_ok {db db' : TicketDb} {result : AddResult}
    (h : addPrerequisites db req = .ok (db', result)) :
    ∃ t, db.ticket? req.ticketId = some t ∧ (∀ pid ∈ req.dedup, pid ∈ db.tickets.map (·.id)) ∧
      db' = (insertTransaction db req t req.dedup).1 := by
  simp only [addPrerequisites, bind_eq_ok, pure_eq_ok] at h
  obtain ⟨_, -, t, ht, _, hchecked, _, -, heq⟩ := h
  refine ⟨t, readTicket_eq_ok ht, ?_, by rw [heq]⟩
  intro pid hpid
  exact checkCandidate_mem (except_forM_eq_ok.mp hchecked pid hpid)

/-- The reason of a link is not looked at in a prerequisite. -/
theorem Evaluated.reason {db db' : TicketDb} (h : Evaluated db db' id)
    (hid : ∀ x, (set x).id = x.id)
    (hpending : ∀ x, (set x).pending_on_tickets = x.pending_on_tickets)
    (hopen : ∀ x, (set x).isOpen = x.isOpen)
    (hawaited : ∀ x moved, x.Awaited moved → (set x).Awaited moved) :
    Evaluated db (db'.update id set) id := by
  have hisOpen : ∀ l, prereqOpen (db'.update id set) l = prereqOpen db' l := by
    intro l
    rw [prereqOpen_eq, prereqOpen_eq, TicketDb.ticket?_update hid]
    cases db'.ticket? l.prerequisite_ticket_id with
    | none => rfl
    | some p =>
      simp only [Option.map_some, Option.any_some]
      split
      · exact hopen p
      · rfl
  refine ⟨h.links, (TicketDb.ids_update hid).trans h.ids, ?_, ?_, ?_, ?_⟩
  · intro t ht hne
    obtain ⟨r, hr, ⟨hrid, rfl⟩ | ⟨-, rfl⟩⟩ := TicketDb.mem_update ht
    · exact absurd ((hid r).trans hrid) hne
    · exact h.others t hr hne
  · intro t ht htid
    have hany : anyPrereqOpen (db'.update id set) (db'.linksOf id) =
        anyPrereqOpen db' (db'.linksOf id) := by
      unfold anyPrereqOpen
      congr 1
      funext l
      exact hisOpen l
    rw [TicketDb.linksOf_update, hany]
    obtain ⟨r, hr, ⟨hrid, rfl⟩ | ⟨hrid, rfl⟩⟩ := TicketDb.mem_update ht
    · rw [hpending]
      exact h.flag r hr hrid
    · exact absurd htid hrid
  · intro l
    rw [hisOpen]
    exact h.isOpen l
  · intro j p moved hp ha
    obtain ⟨p', hp', ha'⟩ := h.awaited j p moved hp ha
    rw [TicketDb.ticket?_update hid, hp', Option.map_some]
    refine ⟨_, rfl, ?_⟩
    split
    · exact hawaited p' moved ha'
    · exact ha'

/-- The transaction adds its links and evaluates the ticket. -/
theorem evaluated_insertTransaction {validated : List String} (hids : (db.tickets.map (·.id)).Nodup)
    (ht : db.ticket? req.ticketId = some t) :
    Evaluated { db with links := db.links ++ missingLinks db req validated }
      (insertTransaction db req t validated).1 req.ticketId := by
  let db₁ : TicketDb := { db with links := db.links ++ missingLinks db req validated }
  have hids₁ : (db₁.tickets.map (·.id)).Nodup := hids
  have ht₁ : db₁.ticket? req.ticketId = some t := ht
  have htid : t.id = req.ticketId := (TicketDb.mem_of_ticket? ht).2
  have hflag : Evaluated db₁ (db₁.evaluatePending req.ticketId) req.ticketId :=
    evaluated_evaluatePending hids₁ req.ticketId
  have hreason : Evaluated db₁ ((db₁.evaluatePending req.ticketId).update req.ticketId
      fun x => { x with pending_reason := trimText req.reason }) req.ticketId :=
    hflag.reason (fun _ => rfl) (fun _ => rfl) (fun _ => rfl) fun _ _ ha => ha
  unfold TicketDb.evaluatePending at hflag hreason
  rw [ht₁] at hflag hreason
  dsimp only at hflag hreason
  unfold insertTransaction
  dsimp only
  by_cases hchanged : t.pending_on_tickets ≠ anyPrereqOpen db₁ (db₁.linksOf req.ticketId)
  · rw [if_pos (Ne.symm hchanged)] at hflag hreason
    rw [if_pos hchanged]
    dsimp only
    rw [htid]
    split
    · exact hreason
    · exact hflag
  · rw [if_neg fun hne => hchanged (Ne.symm hne)] at hflag hreason
    rw [if_neg hchanged]
    dsimp only
    rw [htid]
    split
    · exact hreason
    · exact hflag

/-- Added links are evaluated. -/
theorem FlagsExcept.add (h : FlagsExcept s fun _ => False)
    (hadd : s.add req = .ok s') : FlagsExcept s' fun _ => False := by
  unfold BoardState.add at hadd
  split at hadd
  · cases hadd
  · rename_i db result hdb
    cases hadd
    obtain ⟨t, ht, hvalidated, rfl⟩ := addPrerequisites_eq_ok hdb
    have hticket : req.ticketId ∈ s.db.tickets.map (·.id) := by
      obtain ⟨hmem, hid⟩ := TicketDb.mem_of_ticket? ht
      exact List.mem_map.mpr ⟨t, hmem, hid⟩
    -- with the new links the ticket is the only exception
    have hlinked : FlagsExcept { s with db := { s.db with
        links := s.db.links ++ missingLinks s.db req req.dedup } } fun j => j = req.ticketId := by
      refine h.step h.ids ?_ ?_ ?_ ?_ ?_
      · intro l hl
        obtain hold | hnew := List.mem_append.mp hl
        · exact h.links l hold
        · obtain ⟨hid, hpid⟩ := mem_missingLinks hnew
          exact ⟨hid ▸ hticket, hvalidated _ hpid⟩
      · intro x hx hX
        exact .inr ⟨fun hfalse => hfalse, fun hm => hm, x, hx, rfl, rfl⟩
      · exact fun j b _ hm => hm
      · intro l hl hX hopen
        obtain hold | hnew := List.mem_append.mp hl
        · exact .inl ⟨hold, hopen⟩
        · exact absurd (mem_missingLinks hnew).1 hX
      · intro l hl _ _ hlive
        exact .inl ⟨List.mem_append_left _ hl, hlive⟩
    have hevaluated : FlagsExcept { s with
        db := (insertTransaction s.db req t req.dedup).1
        bypassed := s.bypassed.filter (·.1 ≠ req.ticketId) }
        fun j => j = req.ticketId ∧ j ≠ req.ticketId :=
      hlinked.evaluate (evaluated_insertTransaction h.ids ht) rfl rfl
    exact hevaluated.weaken fun j hj => hj.2 hj.1

/-! ## Every run -/

/-- Each step keeps the flags right. -/
theorem FlagsExcept.act {a : BoardAction} (h : FlagsExcept s fun _ => False)
    (hact : s.act u a = .ok s') : FlagsExcept s' fun _ => False := by
  cases a with
  | create accountId body id now => exact h.create hact
  | createChild parentId body id => exact h.createChild hact
  | move id status position next now => exact h.move hact
  | archive id now => exact h.archive hact
  | delete id => exact h.delete hact
  | addPrerequisites req => exact h.add hact
  | removePrerequisite req => exact h.removeLink hact
  | confirm reportId candidateId => exact h.confirm hact
  | start id => exact h.start hact
  | handle i now =>
    simp only [BoardState.act] at hact
    split at hact
    · cases hact
    · rename_i id hi
      cases hact
      exact h.handle hi

theorem flags_reachable (h : (boardSystem u).Reachable s) :
    FlagsExcept s fun _ => False := by
  apply h.invariant
  · rintro s ⟨hids, hlinks, hflags, -, hbypassed⟩
    refine ⟨hids, hlinks, ?_, ?_, ?_⟩
    · intro t ht _ hm
      rw [hbypassed] at hm
      cases hm
    · intro t ht _ _ l hl hlt hopen
      rw [hflags t ht]
      exact anyPrereqOpen_iff.mpr ⟨l, hl, hlt, hopen⟩
    · intro t ht _ _ hpending
      rw [hflags t ht] at hpending
      obtain ⟨l, hl, hlt, hopen⟩ := anyPrereqOpen_iff.mp hpending
      obtain ⟨p, hp, hopen'⟩ := prereqOpen_iff.mp hopen
      exact ⟨l, hl, hlt, p, hp, .inl hopen'⟩
  · rintro s a s' - hinv hstep
    exact hinv.act hstep

end Rules

/-! ## Main result -/

/-- In every state in which no activity is left to handle, and for every ticket: one that was closed
    through its canonical is not pending; one with an open prerequisite is pending, unless that or
    a reopened prerequisite went past the evaluation of its flag; one that is pending has an open
    prerequisite, unless the end of a duplicate, an archive or a child did. -/
theorem pending_follows {u : Unicode} {s : BoardState} (h : (boardSystem u).Reachable s)
    (hquiet : s.moved = []) {t : Ticket} (ht : t ∈ s.db.tickets) :
    ((t.id, .closed) ∈ s.bypassed → t.pending_on_tickets = false) ∧
      (¬ s.Bypassed unlocking t.id → s.db.HasOpenPrerequisite t.id →
        t.pending_on_tickets = true) ∧
      (¬ s.Bypassed holding t.id → t.pending_on_tickets = true →
        s.db.HasOpenPrerequisite t.id) := by
  have hflags := flags_reachable h
  refine ⟨hflags.closed t ht fun hfalse => hfalse, ?_, ?_⟩
  · intro hnot hopen
    obtain ⟨l, hl, hlt, hprereq⟩ := hasOpenPrerequisite_iff.mp hopen
    exact hflags.blocked t ht (fun hfalse => hfalse) hnot l hl hlt hprereq
  · intro hnot hpending
    obtain ⟨l, hl, hlt, p, hp, hawaited⟩ :=
      hflags.awaited t ht (fun hfalse => hfalse) hnot hpending
    obtain hopen | ⟨-, -, -, hmem⟩ := hawaited
    · exact hasOpenPrerequisite_iff.mpr ⟨l, hl, hlt, prereqOpen_iff.mpr ⟨p, hp, hopen⟩⟩
    · -- no end of a prerequisite is still to be announced
      rw [hquiet] at hmem
      cases hmem

/-- The tables of the runtime for texts without marks or capitals. -/
def asciiUnicode : Unicode where
  nfkc value := value
  lower value := value
  isLetterOrNumber := Char.isAlphanum

/-- A board with these tickets and links. -/
def boardOf (tickets : List Ticket) (links : List TicketPrerequisite) : BoardState where
  db := { tickets, links }
  decisions := []
  moved := []
  bypassed := []

/-- What a reader sees of the flags. -/
def BoardState.flagView (s : BoardState) : List (String × TicketStatus × Bool) :=
  s.db.tickets.map fun t => (t.id, t.status, t.pending_on_tickets)

/-- B waits for two tickets; one is finished and the other deleted. B is free, and nothing has gone
    past the evaluation. -/
theorem pending_follows_threeTickets :
    ∃ s, (boardSystem asciiUnicode).Reachable s ∧ s.moved = [] ∧ s.bypassed = [] ∧
      s.flagView = [("A", .done, false), ("B", .todo, false)] ∧
      ∀ t ∈ s.db.tickets,
        ((t.id, .closed) ∈ s.bypassed → t.pending_on_tickets = false) ∧
          (¬ s.Bypassed unlocking t.id → s.db.HasOpenPrerequisite t.id →
            t.pending_on_tickets = true) ∧
          (¬ s.Bypassed holding t.id → t.pending_on_tickets = true →
            s.db.HasOpenPrerequisite t.id) := by
  have hinit : (boardSystem asciiUnicode).init
      (boardOf [{ id := "A" }, { id := "B" }, { id := "C" }] []) := by
    refine ⟨by decide, ?_, by decide, rfl, rfl⟩
    intro l hl
    cases hl
  have hrun : ∀ s a t, BoardState.act asciiUnicode s a = .ok t →
      (boardSystem asciiUnicode).step s a t := fun _ _ _ h => h
  obtain ⟨s, hpath, hs⟩ := Transition.exists_path_of_run hrun
    (boardOf [{ id := "A" }, { id := "B" }, { id := "C" }] [])
    [.addPrerequisites { ticketId := "B", prereqIds := ["A", "C"] },
      .move "A" .done none 0 10, .handle 0 11, .delete "C"]
    (fun s => s.moved = [] ∧ s.bypassed = [] ∧
      s.flagView = [("A", .done, false), ("B", .todo, false)])
    (by decide +kernel)
  obtain ⟨hquiet, hbypassed, hview⟩ := of_decide_eq_true hs
  have hreach : (boardSystem asciiUnicode).Reachable s := .path (.init hinit) hpath
  exact ⟨s, hreach, hquiet, hbypassed, hview, fun t ht => pending_follows hreach hquiet ht⟩

/-- B waits for D, a confirmed duplicate of C. C is finished, and D is closed with it: B goes on
    waiting, since the end of a duplicate is announced to nobody. -/
theorem not_always_flagsRight :
    ¬ ∀ (u : Unicode) (s : BoardState), (boardSystem u).Reachable s → s.moved = [] →
      s.FlagsRight := by
  intro hall
  let board := boardOf
    [{ id := "C" }, { id := "D", canonical_ticket_id := some "C" },
      { id := "B", pending_on_tickets := true }]
    [{ ticket_id := "B", prerequisite_ticket_id := "D" }]
  have hinit : (boardSystem asciiUnicode).init board := by
    refine ⟨by decide, ?_, by decide, rfl, rfl⟩
    intro l hl
    obtain rfl := List.mem_singleton.mp hl
    decide
  have hrun : ∀ s a t, BoardState.act asciiUnicode s a = .ok t →
      (boardSystem asciiUnicode).step s a t := fun _ _ _ h => h
  obtain ⟨s, hpath, hs⟩ := Transition.exists_path_of_run hrun board
    [.move "C" .done none 0 10, .handle 0 11, .handle 0 12]
    (fun s => s.moved = [] ∧
      s.db.tickets.any (fun t => t.id = "B" && t.pending_on_tickets) ∧
      !s.db.links.any (fun l => l.ticket_id = "B" && prereqOpen s.db l))
    (by decide +kernel)
  obtain ⟨hquiet, hwaits, hnothing⟩ := of_decide_eq_true hs
  obtain ⟨t, ht, hB⟩ := List.any_eq_true.mp hwaits
  simp only [Bool.and_eq_true, decide_eq_true_eq] at hB
  have hright := hall asciiUnicode s (.path (.init hinit) hpath) hquiet t ht
  obtain ⟨l, hl, hlt, hopen⟩ := hasOpenPrerequisite_iff.mp (hright.mp hB.2)
  have hany : s.db.links.any (fun l => l.ticket_id = "B" && prereqOpen s.db l) = true := by
    refine List.any_eq_true.mpr ⟨l, hl, ?_⟩
    simp [hlt, hB.1, hopen]
  rw [hany] at hnothing
  cases hnothing

end WorkflowBoard.Tickets
