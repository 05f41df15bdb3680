import WorkflowBoard.ForStd.List
import WorkflowBoard.Native.Prerequisites

/-!
# Prerequisite links and cycles

`addPrerequisites` refuses a link that would close a cycle, but it looks for the cycle in
reads of its own and inserts in a later transaction. Two requests that add opposite links
can both pass their check (`not_always_acyclic`).

What the check is worth is `prerequisites_acyclic`: as long as no insert runs after another
request has put a link on a way from a new prerequisite back to the ticket since the check
began, the links stay acyclic, and the first insert that runs after such a link closes a
cycle. In particular requests that do not overlap never build one.

The walk of a check reads a table that others change. Its invariant is about the links that
were not inserted since the check began: those can only have been there all the time.
-/

namespace WorkflowBoard.Tickets

open Relation (ReflTransGen)

/-- The prerequisite graph: `a` is blocked by `b`. -/
def TicketDb.Blocked (db : TicketDb) (a b : String) : Prop := (a, b) ∈ db.edges

/-- The links of the table that were not inserted since `checkedAt`. -/
def PrereqState.Old (s : PrereqState) (checkedAt : Nat) (a b : String) : Prop :=
  s.db.Blocked a b ∧ (a, b) ∉ s.inserted.drop checkedAt

/-- The cycle check a call relies on when it inserts is still good: no link inserted since the
    check began lies on a way from one of the prerequisites back to the ticket. -/
def PrereqState.InsertCurrent (s : PrereqState) : PrereqCall → Prop
  | .add req (.inserting _ validated checkedAt) =>
    ∀ p ∈ validated, ∀ link ∈ s.inserted.drop checkedAt, s.db.Blocked link.1 link.2 →
      ReflTransGen s.db.Blocked p link.1 → ¬ ReflTransGen s.db.Blocked link.2 req.ticketId
  | _ => True

/-- The condition on an action: if it is an insert, its check is current. -/
def PrereqState.CheckCurrent (s : PrereqState) : PrereqAction → Prop
  | .advance i => ∀ call ∈ s.calls[i]?, s.InsertCurrent call
  | _ => True

/-! ## The insert transaction -/

section Insert

variable {db : TicketDb} {req : AddRequest} {ticket : Ticket} {validated : List String}

theorem insertTransaction_links : (insertTransaction db req ticket validated).1.links =
    db.links ++ missingLinks db req validated := by
  unfold insertTransaction
  dsimp only
  split <;> split <;> rfl

theorem insertTransaction_added : (insertTransaction db req ticket validated).2.added =
    missingLinks db req validated := rfl

theorem mem_missingLinks {l : TicketPrerequisite} (h : l ∈ missingLinks db req validated) :
    l.ticket_id = req.ticketId ∧ l.prerequisite_ticket_id ∈ validated := by
  unfold missingLinks at h
  obtain ⟨pid, hpid, rfl⟩ := List.mem_map.mp h
  exact ⟨rfl, List.mem_of_mem_filter hpid⟩

/-- The links after the transaction: those before, and those it reports. -/
theorem insertTransaction_edges : (insertTransaction db req ticket validated).1.edges = db.edges ++
    (AddPhase.returned (.ok (insertTransaction db req ticket validated).2)).added := by
  simp only [TicketDb.edges, insertTransaction_links, AddPhase.added, insertTransaction_added,
    List.map_append]

/-- A link of the table after the transaction was there before or goes from the ticket to one
    of the prerequisites. -/
theorem blocked_insert {a b : String}
    (h : (insertTransaction db req ticket validated).1.Blocked a b) :
    db.Blocked a b ∨ (a = req.ticketId ∧ b ∈ validated) := by
  obtain ⟨l, hl, rfl, rfl⟩ := TicketDb.mem_edges.mp h
  rw [insertTransaction_links] at hl
  obtain hl | hl := List.mem_append.mp hl
  · exact .inl (TicketDb.mem_edges.mpr ⟨l, hl, rfl, rfl⟩)
  · exact .inr (mem_missingLinks hl)

theorem blocked_insert_of {a b : String} (h : db.Blocked a b) :
    (insertTransaction db req ticket validated).1.Blocked a b := by
  unfold TicketDb.Blocked
  rw [insertTransaction_edges]
  exact List.mem_append_left _ h

/-- After the transaction the ticket is blocked by every prerequisite of the request, whether
    its row is new or was there. -/
theorem blocked_insert_new {p : String} (hp : p ∈ validated) :
    (insertTransaction db req ticket validated).1.Blocked req.ticketId p := by
  by_cases hlink : db.hasLink req.ticketId p = true
  · apply blocked_insert_of
    unfold TicketDb.hasLink at hlink
    obtain ⟨l, hl, heq⟩ := List.any_eq_true.mp hlink
    simp only [Bool.and_eq_true, decide_eq_true_eq] at heq
    exact TicketDb.mem_edges.mpr ⟨l, hl, heq⟩
  · apply TicketDb.mem_edges.mpr
    rw [insertTransaction_links]
    refine ⟨_, List.mem_append_right _ (List.mem_map.mpr ⟨p, ?_, rfl⟩), rfl, rfl⟩
    exact List.mem_filter.mpr ⟨hp, by simpa using hlink⟩

end Insert

-- From here on only the lemmas above say what the transaction does.
attribute [local irreducible] insertTransaction

/-! ## One statement -/

variable {req : AddRequest} {a : PrereqAction} {s t : PrereqState}

/-- What the next statement of an `addPrerequisites` call does: it only moves the call on, or
    it is the transaction. -/
theorem addStep_cases {db db' : TicketDb} {n : Nat} {phase phase' : AddPhase}
    (h : addStep db n req phase = some (db', phase')) :
    (db' = db ∧ phase'.added = [] ∧ ∀ ticket validated k, phase ≠ .inserting ticket validated k) ∨
    ∃ ticket validated k, phase = .inserting ticket validated k ∧
      db' = (insertTransaction db req ticket validated).1 ∧
      phase' = .returned (.ok (insertTransaction db req ticket validated).2) := by
  have hnext : ∀ ticket validated k l, (checkNext req ticket validated k l).added = [] := by
    intro ticket validated k l
    unfold checkNext
    split
    · rfl
    · split <;> rfl
  unfold addStep at h
  split at h
  · -- reading the ticket
    left
    split at h
    · cases h
      exact ⟨rfl, rfl, fun _ _ _ hp => by cases hp⟩
    · split at h <;> cases h <;>
        exact ⟨rfl, rfl, fun _ _ _ hp => by cases hp⟩
  · -- validating a candidate
    left
    split at h <;> cases h <;>
      exact ⟨rfl, rfl, fun _ _ _ hp => by cases hp⟩
  · left
    cases h
    exact ⟨rfl, hnext _ _ _ _, fun _ _ _ hp => by cases hp⟩
  · -- a turn of the walk
    left
    split at h <;> cases h
    · exact ⟨rfl, rfl, fun _ _ _ hp => by cases hp⟩
    · exact ⟨rfl, hnext _ _ _ _, fun _ _ _ hp => by cases hp⟩
    · exact ⟨rfl, rfl, fun _ _ _ hp => by cases hp⟩
  · -- the transaction
    right
    cases h
    exact ⟨_, _, _, rfl, rfl, rfl⟩
  · cases h

/-- A statement of `removePrerequisite` adds no link. -/
theorem removeStep_blocked {db db' : TicketDb} {req : RemoveRequest} {phase phase' : RemovePhase}
    (h : removeStep db req phase = some (db', phase')) {a b : String}
    (hab : db'.Blocked a b) : db.Blocked a b := by
  unfold removeStep at h
  split at h
  · split at h <;> cases h <;> exact hab
  · split at h <;> cases h <;> exact hab
  · cases h
    exact TicketDb.edges_deleteLink hab
  · split at h <;> cases h <;> exact hab
  · cases h
    exact hab
  · cases h
    exact hab
  · split at h <;> cases h <;> exact hab
  · cases h
    split at hab <;> exact hab
  · cases h

/-- What an action is: a new call, or a statement of a call that was made. -/
theorem act_cases (h : s.act a = .ok t) :
    (∃ c, t = { s with calls := s.calls ++ [c] } ∧ s.CheckCurrent a ∧
      ((∃ req, c = .add req .start) ∨ ∃ req, c = .remove req .start)) ∨
    (∃ i req phase db phase', a = .advance i ∧ s.calls[i]? = some (.add req phase) ∧
      addStep s.db s.inserted.length req phase = some (db, phase') ∧
      t = ⟨db, s.calls.set i (.add req phase'), s.inserted ++ phase'.added⟩) ∨
    (∃ i req phase db phase', a = .advance i ∧ s.calls[i]? = some (.remove req phase) ∧
      removeStep s.db req phase = some (db, phase') ∧
      t = ⟨db, s.calls.set i (.remove req phase'), s.inserted⟩) := by
  cases a with
  | add req => exact .inl ⟨_, (Except.ok.inj h).symm, trivial, .inl ⟨req, rfl⟩⟩
  | remove req => exact .inl ⟨_, (Except.ok.inj h).symm, trivial, .inr ⟨req, rfl⟩⟩
  | advance i =>
    have hadv : s.advance i = some t := by
      unfold PrereqState.act at h
      dsimp only at h
      split at h
      · rename_i u hu
        rw [hu, Except.ok.inj h]
      · cases h
    unfold PrereqState.advance at hadv
    split at hadv
    · cases hadv
    · rename_i req phase hcall
      obtain ⟨⟨db, phase'⟩, hstep, ht⟩ := Option.map_eq_some_iff.mp hadv
      exact .inr (.inl ⟨i, req, phase, db, phase', rfl, hcall, hstep, ht.symm⟩)
    · rename_i req phase hcall
      obtain ⟨⟨db, phase'⟩, hstep, ht⟩ := Option.map_eq_some_iff.mp hadv
      exact .inr (.inr ⟨i, req, phase, db, phase', rfl, hcall, hstep, ht.symm⟩)

/-! ## What a check has established -/

/-- What a call in its cycle check or before its transaction knows of the links that were not
    inserted since the check began: a prerequisite that was checked does not lead back to the
    ticket, and the walk for the current one has missed nothing. -/
def AddOk (s : PrereqState) (req : AddRequest) : AddPhase → Prop
  | .checking _ validated k pid rest search =>
    k ≤ s.inserted.length ∧ search.Inv (s.Old k) pid req.ticketId ∧ ∃ checked,
      validated = checked ++ pid :: rest ∧ ∀ p ∈ checked, ¬ ReflTransGen (s.Old k) p req.ticketId
  | .inserting _ validated k =>
    k ≤ s.inserted.length ∧ ∀ p ∈ validated, ¬ ReflTransGen (s.Old k) p req.ticketId
  | _ => True

/-- The invariant of runs whose inserts rely on current checks. -/
structure PrereqInv (s : PrereqState) : Prop where
  acyclic : Acyclic s.db.Blocked
  checks : ∀ (i : Nat) (req : AddRequest) (phase : AddPhase),
    s.calls[i]? = some (.add req phase) → AddOk s req phase

/-- The links of `t` are links of `s` or were recorded as inserted on the way. -/
structure Grows (s t : PrereqState) : Prop where
  record : ∃ new, t.inserted = s.inserted ++ new ∧
    ∀ a b, t.db.Blocked a b → s.db.Blocked a b ∨ (a, b) ∈ new

theorem Grows.old (h : Grows s t) {k : Nat} (hk : k ≤ s.inserted.length)
    (a b : String) (hab : t.Old k a b) : s.Old k a b := by
  obtain ⟨new, hins, hblocked⟩ := h.record
  obtain ⟨hb, hnot⟩ := hab
  rw [hins, List.drop_append_of_le_length hk, List.mem_append, not_or] at hnot
  exact ⟨(hblocked a b hb).resolve_right hnot.2, hnot.1⟩

/-- What a call knows survives the statements of other calls. -/
theorem AddOk.mono {phase : AddPhase}
    (h : AddOk s req phase) (hg : Grows s t) : AddOk t req phase := by
  have hlen : s.inserted.length ≤ t.inserted.length := by
    obtain ⟨new, hins, -⟩ := hg.record
    rw [hins, List.length_append]
    omega
  have hreach : ∀ k p, k ≤ s.inserted.length → ¬ ReflTransGen (s.Old k) p req.ticketId →
      ¬ ReflTransGen (t.Old k) p req.ticketId := by
    intro k p hk hno hr
    exact hno (Relation.ReflTransGen.mono (hg.old hk) _ _ hr)
  cases phase with
  | checking ticket validated k pid rest search =>
    obtain ⟨hk, hinv, checked, hval, hchecked⟩ := h
    exact ⟨by omega, hinv.mono (hg.old hk), checked, hval,
      fun p hp => hreach k p hk (hchecked p hp)⟩
  | inserting ticket validated k =>
    obtain ⟨hk, hval⟩ := h
    exact ⟨by omega, fun p hp => hreach k p hk (hval p hp)⟩
  | start => trivial
  | validating => trivial
  | returned => trivial

/-- Going on to the next candidate, with those before it checked. -/
theorem AddOk.checkNext {s : PrereqState} {ticket : Ticket}
    {validated rest : List String} {k : Nat} (checked : List String)
    (hk : k ≤ s.inserted.length) (hval : validated = checked ++ rest)
    (hchecked : ∀ p ∈ checked, ¬ ReflTransGen (s.Old k) p req.ticketId) :
    AddOk s req (checkNext req ticket validated k rest) := by
  cases rest with
  | nil =>
    rw [List.append_nil] at hval
    subst hval
    exact ⟨hk, hchecked⟩
  | cons pid rest =>
    unfold Tickets.checkNext
    dsimp only
    split
    · trivial
    · exact ⟨hk, Search.Inv.start _ _ _, checked, hval, hchecked⟩

/-- The statements of a call before its transaction establish what it knows. -/
theorem AddOk.step {s : PrereqState} {phase phase' : AddPhase} {db : TicketDb}
    (h : AddOk s req phase) (hstep : addStep s.db s.inserted.length req phase = some (db, phase')) :
    AddOk s req phase' := by
  cases phase with
  | start =>
    simp only [addStep] at hstep
    split at hstep
    · cases hstep
      trivial
    · split at hstep <;> cases hstep <;> trivial
  | validating ticket validated rest =>
    cases rest with
    | nil =>
      cases hstep
      -- the check begins: nothing has been inserted since
      exact .checkNext [] (Nat.le_refl _) rfl (by simp)
    | cons pid rest =>
      simp only [addStep] at hstep
      split at hstep <;> cases hstep <;> trivial
  | checking ticket validated k pid rest search =>
    obtain ⟨hk, hinv, checked, hval, hchecked⟩ := h
    simp only [addStep] at hstep
    split at hstep <;> cases hstep
    · trivial
    · -- the walk has ended without the ticket
      rename_i hturn
      apply AddOk.checkNext (checked ++ [pid]) hk (by simp [hval])
      intro p hp
      obtain hp | hp := List.mem_append.mp hp
      · exact hchecked p hp
      · rw [List.mem_singleton.mp hp]
        exact hinv.not_reach hturn
    · rename_i hturn
      refine ⟨hk, hinv.turn ?_ hturn, checked, hval, hchecked⟩
      intro a b hab
      exact Search.mem_successors.mpr hab.1
  | inserting ticket validated k =>
    cases hstep
    trivial
  | returned => cases hstep

/-! ## The transaction and the cycle -/

/-- A transaction keeps the graph acyclic exactly if its check is current. -/
theorem acyclic_insert_iff {s : PrereqState} {ticket : Ticket}
    {validated : List String} {k : Nat} (hacyc : Acyclic s.db.Blocked)
    (hok : AddOk s req (.inserting ticket validated k)) :
    Acyclic (insertTransaction s.db req ticket validated).1.Blocked ↔
      s.InsertCurrent (.add req (.inserting ticket validated k)) := by
  constructor
  · intro hafter p hp link _ hlink hpa hbt
    -- the new link to `p` and the way back over the late link are a cycle
    have hback : ReflTransGen s.db.Blocked p req.ticketId := (hpa.tail hlink).trans hbt
    have hnew : (insertTransaction s.db req ticket validated).1.Blocked req.ticketId p :=
      blocked_insert_new hp
    apply not_acyclic_of_back hnew _ hafter
    exact Relation.ReflTransGen.mono (fun _ _ h => blocked_insert_of h) _ _ hback
  · intro hcur
    apply hacyc.add_from (C := (· ∈ validated)) (fun a b hab => blocked_insert hab)
    intro p hp
    apply not_reach_of_split (F := fun a b => (a, b) ∈ s.inserted.drop k)
    · exact hok.2 p hp
    · intro a b hab hnew hpa
      exact hcur p hp (a, b) hnew hab hpa

/-- Every action keeps the links, drops some, or records what it adds. -/
theorem grows_of_act (h : s.act a = .ok t) :
    Grows s t := by
  obtain ⟨c, rfl, -, -⟩ | ⟨i, req, phase, db, phase', rfl, -, hstep, rfl⟩ |
    ⟨i, req, phase, db, phase', rfl, -, hstep, rfl⟩ := act_cases h
  · exact ⟨[], by simp, fun a b hab => .inl hab⟩
  · obtain ⟨rfl, hadded, -⟩ | ⟨ticket, validated, k, rfl, rfl, rfl⟩ := addStep_cases hstep
    · exact ⟨phase'.added, rfl, fun a b hab => .inl hab⟩
    · refine ⟨_, rfl, fun a b hab => ?_⟩
      unfold TicketDb.Blocked at hab
      rw [insertTransaction_edges] at hab
      exact List.mem_append.mp hab
  · exact ⟨[], by simp, fun a b hab => .inl (removeStep_blocked hstep hab)⟩

theorem checkCurrent_advance {s : PrereqState} {i : Nat} {call : PrereqCall}
    (hcall : s.calls[i]? = some call) : s.CheckCurrent (.advance i) ↔ s.InsertCurrent call := by
  simp [PrereqState.CheckCurrent, hcall]

/-- One action keeps the graph acyclic exactly if the check it relies on is current. -/
theorem PrereqInv.acyclic_act (hinv : PrereqInv s)
    (h : s.act a = .ok t) : Acyclic t.db.Blocked ↔ s.CheckCurrent a := by
  obtain ⟨c, rfl, hcur, -⟩ | ⟨i, req, phase, db, phase', rfl, hcall, hstep, rfl⟩ |
    ⟨i, req, phase, db, phase', rfl, hcall, hstep, rfl⟩ := act_cases h
  · exact ⟨fun _ => hcur, fun _ => hinv.acyclic⟩
  · rw [checkCurrent_advance hcall]
    obtain ⟨rfl, -, hphase⟩ | ⟨ticket, validated, k, rfl, rfl, rfl⟩ := addStep_cases hstep
    · refine ⟨fun _ => ?_, fun _ => hinv.acyclic⟩
      cases phase with
      | inserting ticket validated k => exact absurd rfl (hphase ticket validated k)
      | start => trivial
      | validating => trivial
      | checking => trivial
      | returned => trivial
    · exact acyclic_insert_iff hinv.acyclic (hinv.checks i req _ hcall)
  · rw [checkCurrent_advance hcall]
    exact ⟨fun _ => trivial, fun _ => hinv.acyclic.mono fun a b => removeStep_blocked hstep⟩

/-- The invariant is kept by every action whose check is current. -/
theorem PrereqInv.act (hinv : PrereqInv s)
    (h : s.act a = .ok t) (hcur : s.CheckCurrent a) : PrereqInv t where
  acyclic := (hinv.acyclic_act h).mpr hcur
  checks := by
    have hg := grows_of_act h
    intro j req' phase₁ hj
    obtain ⟨c, rfl, -, hc⟩ | ⟨i, req, phase, db, phase', rfl, hcall, hstep, rfl⟩ |
      ⟨i, req, phase, db, phase', rfl, hcall, hstep, rfl⟩ := act_cases h
    · obtain hj | ⟨-, hnew⟩ := getElem?_append_cases hj
      · exact (hinv.checks j req' phase₁ hj).mono hg
      · -- a call that was just made has checked nothing
        obtain ⟨req, rfl⟩ | ⟨req, rfl⟩ := hc
        · obtain ⟨-, rfl⟩ := PrereqCall.add.inj hnew
          trivial
        · cases hnew
    · obtain ⟨rfl, hnew⟩ | ⟨-, hj⟩ := getElem?_set_cases hj
      · obtain ⟨rfl, rfl⟩ := PrereqCall.add.inj hnew
        exact ((hinv.checks i _ phase hcall).step hstep).mono hg
      · exact (hinv.checks j req' phase₁ hj).mono hg
    · obtain ⟨rfl, hnew⟩ | ⟨-, hj⟩ := getElem?_set_cases hj
      · cases hnew
      · exact (hinv.checks j req' phase₁ hj).mono hg

/-- Runs whose inserts all rely on a current check. -/
def currentRuns : Transition PrereqState PrereqAction :=
  prereqSystem.restrict fun s a _ => s.CheckCurrent a

theorem PrereqInv.of_reachable {s : PrereqState} (h : currentRuns.Reachable s) :
    PrereqInv s := by
  apply h.invariant
  · intro s hs
    obtain ⟨hlinks, hcalls, -⟩ := hs
    refine ⟨acyclic_of_empty ?_, fun i req phase hi => by simp [hcalls] at hi⟩
    intro a b hab
    simp [TicketDb.Blocked, TicketDb.edges, hlinks] at hab
  · intro s a t _ hinv hst
    exact hinv.act hst.1 hst.2

/-- In every run whose inserts all rely on a current check the prerequisite graph is acyclic,
    and the next statement keeps it so exactly if it relies on a current check too. -/
theorem prerequisites_acyclic {s : PrereqState} (h : currentRuns.Reachable s) :
    Acyclic s.db.Blocked ∧
      ∀ a t, prereqSystem.step s a t → (Acyclic t.db.Blocked ↔ s.CheckCurrent a) := by
  have hinv := PrereqInv.of_reachable h
  exact ⟨hinv.acyclic, fun a t hst => hinv.acyclic_act hst⟩

/-! ## Runs on fixed tickets -/

instance (db : TicketDb) (a b : String) : Decidable (db.Blocked a b) :=
  inferInstanceAs (Decidable (_ ∈ _))

/-- The walk of the check decides reachability. -/
instance (db : TicketDb) (a b : String) : Decidable (ReflTransGen db.Blocked a b) :=
  decidable_of_iff (Search.reaches db.edges a b = true) Search.reaches_iff

instance (s : PrereqState) : DecidablePred s.InsertCurrent
  | .add _ (.inserting _ _ _) => inferInstanceAs (Decidable (∀ p ∈ _, ∀ link ∈ _, _ → _ → ¬ _))
  | .add _ .start => .isTrue trivial
  | .add _ (.validating _ _ _) => .isTrue trivial
  | .add _ (.checking _ _ _ _ _ _) => .isTrue trivial
  | .add _ (.returned _) => .isTrue trivial
  | .remove _ _ => .isTrue trivial

instance (s : PrereqState) : DecidablePred s.CheckCurrent
  | .add _ => .isTrue trivial
  | .remove _ => .isTrue trivial
  | .advance _ => inferInstanceAs (Decidable (∀ call ∈ _, _))

/-- A run that stops at an insert whose check is not current. -/
def actCurrent (s : PrereqState) (a : PrereqAction) : Except String PrereqState :=
  if s.CheckCurrent a then s.act a else .error "the check is outdated"

/-- Three tickets that wait for nothing. -/
def threeTickets : PrereqState where
  db := { tickets := [{ id := "A" }, { id := "B" }, { id := "C" }], links := [] }
  calls := []
  inserted := []

/-- The statements of call `i` up to its transaction. -/
def upToInsert (i : Nat) : List PrereqAction := List.replicate 5 (.advance i)

/-- Two overlapping requests of which neither leads back to the other. -/
theorem prerequisites_acyclic_overlap : ∃ s, currentRuns.Reachable s ∧
    s.db.edges = [("A", "B"), ("C", "B")] ∧ Acyclic s.db.Blocked := by
  have hrun : ∀ s a t, actCurrent s a = .ok t → currentRuns.step s a t := by
    intro s a t h
    unfold actCurrent at h
    split at h
    · exact ⟨h, ‹_›⟩
    · cases h
  obtain ⟨s, hpath, hs⟩ := Transition.exists_path_of_run hrun threeTickets
    ([.add { ticketId := "A", prereqIds := ["B"] }, .add { ticketId := "C", prereqIds := ["B"] }] ++
      upToInsert 0 ++ upToInsert 1 ++ [.advance 0, .advance 1])
    (fun s => s.db.edges = [("A", "B"), ("C", "B")]) (by decide +kernel)
  have hinit : currentRuns.Reachable threeTickets := .init ⟨rfl, rfl, rfl⟩
  have hreach : currentRuns.Reachable s := hinit.path hpath
  exact ⟨s, hreach, of_decide_eq_true hs, (prerequisites_acyclic hreach).1⟩

/-- Two requests that add opposite links both pass their check before either inserts. -/
theorem not_always_acyclic :
    ¬ ∀ s, prereqSystem.Reachable s → Acyclic s.db.Blocked := by
  intro hall
  obtain ⟨s, hpath, hs⟩ := Transition.exists_path_of_run (M := prereqSystem) (fun _ _ _ h => h)
    threeTickets
    ([.add { ticketId := "A", prereqIds := ["B"] }, .add { ticketId := "B", prereqIds := ["A"] }] ++
      upToInsert 0 ++ upToInsert 1 ++ [.advance 0, .advance 1])
    (fun s => decide (s.db.Blocked "A" "B" ∧ s.db.Blocked "B" "A")) (by decide +kernel)
  have hinit : prereqSystem.Reachable threeTickets := .init ⟨rfl, rfl, rfl⟩
  have hreach : prereqSystem.Reachable s := hinit.path hpath
  obtain ⟨hab, hba⟩ := of_decide_eq_true hs
  exact not_acyclic_of_back hab (.single hba) (hall s hreach)

end WorkflowBoard.Tickets
