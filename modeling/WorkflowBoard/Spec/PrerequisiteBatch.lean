import WorkflowBoard.Native.Board
import WorkflowBoard.Spec.PrerequisiteCycles

/-!
# A batch of prerequisites is added whole or not at all

The walk of `wouldCreateCycle` ends on every table, whether its links are acyclic or not, and says
whether the ticket can be reached from the candidate. So a call that runs alone, statement after
statement, ends with what `addPrerequisites` says. Each candidate of a batch is checked without the
links of the others; that is enough, because those all start at the ticket itself, and a way that
comes back to the ticket has been found before it could use one.
-/

namespace WorkflowBoard.Tickets

open Relation (ReflTransGen)

attribute [local irreducible] insertTransaction

variable {db db' : TicketDb} {req : AddRequest} {ticket : Ticket} {validated rest : List String}
variable {phase phase' : AddPhase} {out : TicketDb × Except String AddResult} {k : Nat}

/-! ## The check -/

theorem wouldCreateCycle_iff {ticketId candidate : String} :
    wouldCreateCycle db ticketId candidate = true ↔ ReflTransGen db.Blocked candidate ticketId := by
  simp only [wouldCreateCycle, Bool.or_eq_true, decide_eq_true_eq, Search.reaches_iff]
  constructor
  · rintro (rfl | h)
    · exact .refl
    · exact h
  · exact .inr

/-- The walk ends within two turns more than there are links. -/
theorem wouldCreateCycleWithin_eq (db : TicketDb) (ticketId candidate : String) {fuel : Nat}
    (hfuel : db.links.length + 2 ≤ fuel) :
    wouldCreateCycleWithin fuel db ticketId candidate =
      some (wouldCreateCycle db ticketId candidate) := by
  unfold wouldCreateCycleWithin
  split
  · rename_i heq
    simp [wouldCreateCycle, heq]
  · have hlength : db.edges.length = db.links.length := by simp [TicketDb.edges]
    have hwork : Search.work db.edges (.start candidate) < fuel := by
      have hle := List.length_filter_le
        (fun e : String × String => decide (e.1 ∉ ([] : List String))) db.edges
      show 1 + (db.edges.filter (·.1 ∉ ([] : List String))).length < fuel
      omega
    obtain ⟨b, hrun, hb⟩ := Search.run_spec hwork (.start _ candidate ticketId)
      (by simp [Search.start, ReflTransGen.refl])
    rw [hrun]
    congr 1
    apply Bool.eq_iff_iff.mpr
    rw [hb, wouldCreateCycle_iff]
    rfl

/-! ## From a phase to the answer -/

/-- A call that runs alone from the phase ends with the outcome. -/
def Returns (db : TicketDb) (req : AddRequest) (phase : AddPhase)
    (out : TicketDb × Except String AddResult) : Prop :=
  ∃ n, ∀ fuel, n ≤ fuel → addRun req fuel db phase = some out

theorem returns_returned (result : Except String AddResult) :
    Returns db req (.returned result) (db, result) := by
  refine ⟨1, fun fuel hfuel => ?_⟩
  cases fuel with
  | zero => omega
  | succ fuel => rfl

theorem Returns.step (h : addStep db 0 req phase = some (db', phase'))
    (hout : Returns db' req phase' out) : Returns db req phase out := by
  obtain ⟨n, hn⟩ := hout
  refine ⟨n + 1, fun fuel hfuel => ?_⟩
  cases fuel with
  | zero => omega
  | succ fuel =>
    have hrest := hn fuel (by omega)
    cases phase with
    | returned result => cases h
    | start => simpa only [addRun, h] using hrest
    | validating => simpa only [addRun, h] using hrest
    | checking => simpa only [addRun, h] using hrest
    | inserting => simpa only [addRun, h] using hrest

theorem Returns.checking {pid : String} {search : Search String} {fuel : Nat} {b : Bool}
    (hrun : Search.run (Search.successors db.edges) req.ticketId fuel search = some b)
    (hout : Returns db req
      (if b then .returned (.error (cycleError req.ticketId pid))
       else checkNext req ticket validated k rest) out) :
    Returns db req (.checking ticket validated k pid rest search) out := by
  induction fuel generalizing search with
  | zero => cases hrun
  | succ fuel ih =>
    unfold Search.run at hrun
    cases hturn : search.turn (Search.successors db.edges) req.ticketId with
    | found =>
      simp only [hturn, Option.some.injEq] at hrun
      subst hrun
      rw [if_pos rfl] at hout
      exact .step (by simp only [addStep, hturn]) hout
    | exhausted =>
      simp only [hturn, Option.some.injEq] at hrun
      subst hrun
      rw [if_neg Bool.false_ne_true] at hout
      exact .step (by simp only [addStep, hturn]) hout
    | more search =>
      simp only [hturn] at hrun
      exact .step (by simp only [addStep, hturn]) (ih hrun)

/-- The database after a completed call, and what the call returns. -/
def addOutcome (db : TicketDb) :
    Except String (TicketDb × AddResult) → TicketDb × Except String AddResult
  | .ok (db, result) => (db, .ok result)
  | .error e => (db, .error e)

/-- The checks of the candidates that are left, and the transaction. -/
theorem returns_checkNext (db : TicketDb) (req : AddRequest) (ticket : Ticket)
    (validated : List String) (k : Nat) (rest : List String) :
    Returns db req (checkNext req ticket validated k rest) (addOutcome db do
      rest.forM fun pid =>
        require (!wouldCreateCycle db req.ticketId pid) (cycleError req.ticketId pid)
      return insertTransaction db req ticket validated) := by
  induction rest with
  | nil => exact .step rfl (returns_returned _)
  | cons pid rest ih =>
    have hwalk := wouldCreateCycleWithin_eq db req.ticketId pid (Nat.le_refl _)
    unfold wouldCreateCycleWithin at hwalk
    rw [List.forM]
    by_cases heq : req.ticketId = pid
    · have hcycle : wouldCreateCycle db req.ticketId pid = true := by simp [wouldCreateCycle, heq]
      simp only [checkNext, if_pos heq, hcycle]
      exact returns_returned _
    · rw [if_neg heq] at hwalk
      simp only [checkNext, if_neg heq]
      apply Returns.checking hwalk
      cases hcycle : wouldCreateCycle db req.ticketId pid with
      | true => exact returns_returned _
      | false => exact ih

/-- The validation of the candidates that are left, and what follows. -/
theorem returns_validating (db : TicketDb) (req : AddRequest) (ticket : Ticket)
    (validated rest : List String) :
    Returns db req (.validating ticket validated rest) (addOutcome db do
      rest.forM (checkCandidate db req.ticketId ticket)
      (validated ++ rest).forM fun pid =>
        require (!wouldCreateCycle db req.ticketId pid) (cycleError req.ticketId pid)
      return insertTransaction db req ticket (validated ++ rest)) := by
  induction rest generalizing validated with
  | nil =>
    rw [List.append_nil]
    exact .step rfl (returns_checkNext db req ticket validated 0 validated)
  | cons pid rest ih =>
    rw [List.forM]
    cases hcheck : checkCandidate db req.ticketId ticket pid with
    | error e => exact .step (by simp only [addStep, hcheck]) (returns_returned _)
    | ok _ =>
      have hrest := ih (validated ++ [pid])
      rw [List.append_assoc, List.singleton_append] at hrest
      exact .step (by simp only [addStep, hcheck]) hrest

/-- A call that runs alone ends with what `addPrerequisites` says. -/
theorem returns_start (db : TicketDb) (req : AddRequest) :
    Returns db req .start (addOutcome db (addPrerequisites db req)) := by
  unfold addPrerequisites
  by_cases hempty : req.dedup = []
  · have hrefused : addStep db 0 req .start =
        some (db, .returned (.error "prerequisite_ticket_ids must be a non-empty array")) := by
      simp only [addStep, if_pos hempty]
    simp only [hempty]
    exact .step hrefused (returns_returned _)
  · have hsome : require (decide (req.dedup ≠ []))
        "prerequisite_ticket_ids must be a non-empty array" = .ok () := by
      simp [require, hempty]
    simp only [hsome]
    cases hread : readTicket db req.ticketId with
    | error e =>
      exact .step (by simp only [addStep, if_neg hempty, hread]) (returns_returned _)
    | ok ticket =>
      have hrest := returns_validating db req ticket [] req.dedup
      exact .step (by simp only [addStep, if_neg hempty, hread]) hrest

/-- The links after a batch are those before and those of its candidates, and they are acyclic if
    those before were. -/
theorem blocked_addPrerequisites {result : AddResult}
    (h : addPrerequisites db req = .ok (db', result)) :
    (∀ a b, db'.Blocked a b ↔ db.Blocked a b ∨ (a = req.ticketId ∧ b ∈ req.dedup)) ∧
      (Acyclic db.Blocked → Acyclic db'.Blocked) := by
  simp only [addPrerequisites, bind_eq_ok, pure_eq_ok] at h
  obtain ⟨_, -, ticket, -, _, -, _, hchecked, heq⟩ := h
  obtain rfl : (insertTransaction db req ticket req.dedup).1 = db' := by rw [heq]
  refine ⟨fun a b => ⟨blocked_insert, ?_⟩, fun hacyc => ?_⟩
  · rintro (hab | ⟨rfl, hb⟩)
    · exact blocked_insert_of hab
    · exact blocked_insert_new hb
  · apply hacyc.add_from (C := (· ∈ req.dedup)) (fun a b hab => blocked_insert hab)
    intro p hp hreach
    have hfree := except_forM_eq_ok.mp hchecked p hp
    rw [require_eq_ok, wouldCreateCycle_iff.mpr hreach] at hfree
    cases hfree

/-- Nothing speaks against the batch: the ticket is there, each candidate may be linked to it, and
    none waits for it already. -/
def Addable (db : TicketDb) (req : AddRequest) : Prop :=
  req.dedup ≠ [] ∧ ∃ ticket, readTicket db req.ticketId = .ok ticket ∧
    ∀ pid ∈ req.dedup, checkCandidate db req.ticketId ticket pid = .ok () ∧
      ¬ReflTransGen db.Blocked pid req.ticketId

/-- A call that runs alone succeeds just if nothing speaks against its batch. -/
theorem addPrerequisites_ok_iff :
    (∃ out, addPrerequisites db req = .ok out) ↔ Addable db req := by
  simp only [addPrerequisites, bind_eq_ok, pure_eq_ok, require_eq_ok, except_forM_eq_ok,
    decide_eq_true_eq, Bool.not_eq_true', ← Bool.not_eq_true, wouldCreateCycle_iff]
  constructor
  · rintro ⟨out, _, hsome, ticket, hread, _, hmay, _, hfree, -⟩
    exact ⟨hsome, ticket, hread, fun pid hpid => ⟨hmay pid hpid, hfree pid hpid⟩⟩
  · rintro ⟨hsome, ticket, hread, hall⟩
    exact ⟨_, (), hsome, ticket, hread, (), fun pid hpid => (hall pid hpid).1, (),
      fun pid hpid => (hall pid hpid).2, rfl⟩

/-- On every table `wouldCreateCycle` ends and answers whether the ticket can be reached from the
    candidate. So a call that runs alone ends too, and if the links are acyclic it has either added
    the whole batch and left them acyclic, just if nothing speaks against the batch, or changed
    nothing. -/
theorem batch_whole_or_nothing (db : TicketDb) :
    (∀ ticketId candidate,
      (∀ fuel, db.links.length + 2 ≤ fuel → wouldCreateCycleWithin fuel db ticketId candidate =
        some (wouldCreateCycle db ticketId candidate)) ∧
      (wouldCreateCycle db ticketId candidate = true ↔
        ReflTransGen db.Blocked candidate ticketId)) ∧
    ∀ req, ∃ out, (∃ n, ∀ fuel, n ≤ fuel → addPrerequisitesWithin fuel db req = some out) ∧
      ((∃ result, out.2 = .ok result) ↔ Addable db req) ∧
      (Acyclic db.Blocked →
        (∃ result, out.2 = .ok result ∧ Acyclic out.1.Blocked ∧
          ∀ a b, out.1.Blocked a b ↔ db.Blocked a b ∨ (a = req.ticketId ∧ b ∈ req.dedup)) ∨
        (∃ e, out.2 = .error e) ∧ out.1 = db) := by
  refine ⟨fun ticketId candidate =>
    ⟨fun fuel => wouldCreateCycleWithin_eq db ticketId candidate, wouldCreateCycle_iff⟩, ?_⟩
  intro req
  refine ⟨_, returns_start db req, ?_, fun hacyc => ?_⟩
  · rw [← addPrerequisites_ok_iff]
    cases hadd : addPrerequisites db req with
    | error e => simp [addOutcome]
    | ok out => simp [addOutcome]
  · cases hadd : addPrerequisites db req with
    | error e => exact .inr ⟨⟨e, rfl⟩, rfl⟩
    | ok out =>
      obtain ⟨hblocked, hkeeps⟩ := blocked_addPrerequisites hadd
      exact .inl ⟨out.2, rfl, hkeeps hacyc, hblocked⟩

/-- Two prerequisites for one of three tickets that wait for nothing are both added. -/
theorem batch_whole_or_nothing_two :
    ∃ out, (∃ n, ∀ fuel, n ≤ fuel →
        addPrerequisitesWithin fuel threeTickets.db { ticketId := "A", prereqIds := ["B", "C"] } =
          some out) ∧
      Acyclic out.1.Blocked ∧ ∀ a b, out.1.Blocked a b ↔ a = "A" ∧ b ∈ ["B", "C"] := by
  obtain ⟨-, hcalls⟩ := batch_whole_or_nothing threeTickets.db
  obtain ⟨out, hout, hadded, hbatch⟩ := hcalls { ticketId := "A", prereqIds := ["B", "C"] }
  have hnone : ∀ a b, ¬threeTickets.db.Blocked a b := by
    intro a b hab
    simp [TicketDb.Blocked, TicketDb.edges, threeTickets] at hab
  have hdedup : AddRequest.dedup { ticketId := "A", prereqIds := ["B", "C"] } = ["B", "C"] := by
    decide +kernel
  have hok : (addPrerequisites threeTickets.db
      { ticketId := "A", prereqIds := ["B", "C"] }).toOption.isSome = true := by decide +kernel
  obtain ⟨added, hrun⟩ := Option.isSome_iff_exists.mp hok
  obtain ⟨result, hresult⟩ :=
    hadded.mpr (addPrerequisites_ok_iff.mp ⟨added, except_toOption_eq_some.mp hrun⟩)
  obtain ⟨_, -, hacyc, hblocked⟩ | ⟨⟨e, he⟩, -⟩ := hbatch (acyclic_of_empty hnone)
  · refine ⟨out, hout, hacyc, fun a b => ?_⟩
    rw [hblocked, hdedup, or_iff_right (hnone a b)]
  · rw [hresult] at he
    cases he

end WorkflowBoard.Tickets
