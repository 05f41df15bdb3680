import Mathlib.Data.Prod.Lex
import WorkflowBoard.Spec.PumpPass

/-!
# The order of the queue (`ticket-dispatch.service.ts`, `pump`)

A ticket that a pass starts comes before every ticket of its identity that waits and could be
started, as far as the pass has read them. The read takes five hundred rows in whatever order the
database gives them, and sorts only these. So the order of the whole queue is kept if and only if no
ticket that the read leaves out comes before one that gets a slot.
-/

namespace WorkflowBoard.Tickets

/-! ## The order -/

theorem queueOrder_self (a : Ticket) : queueOrder a a = 0 := by
  simp [queueOrder]

/-- The place of a ticket in the queue: priority, position and age, compared one after the other. -/
def Ticket.rank (t : Ticket) : ℕ ×ₗ ℤ ×ₗ ℤ :=
  toLex (priorityIndex t.priority, toLex (t.position, t.created_at))

theorem compare_le_iff (p q : Nat) (x y i j : Int) :
    (if (p : Int) - q ≠ 0 then (p : Int) - q else if x - y ≠ 0 then x - y else i - j) ≤ 0 ↔
      p < q ∨ p = q ∧ (x < y ∨ x = y ∧ i ≤ j) := by
  split
  · omega
  · split <;> omega

theorem queueOrder_le_iff {a b : Ticket} : queueOrder a b ≤ 0 ↔ a.rank ≤ b.rank := by
  simp only [Ticket.rank, Prod.Lex.toLex_le_toLex]
  exact compare_le_iff _ _ _ _ _ _

instance : Std.Total fun a b => queueOrder a b ≤ 0 where
  total a b := by
    simp only [queueOrder_le_iff]
    exact le_total _ _

instance : IsTrans Ticket fun a b => queueOrder a b ≤ 0 where
  trans a b c hab hbc := by
    simp only [queueOrder_le_iff] at *
    exact hab.trans hbc

/-! ## The law -/

/-- Every ticket that the pass starts is, at its start, the first of all eligible tickets of its
    identity that wait and for which their account has a slot. -/
structure StartsInOrder (w : PumpWorld) (filter : PumpFilter) : Prop where
  first : ∀ before t after, w.pass filter = before ++ t :: after →
    ∀ u ∈ w.tickets, u.queued filter = true → u.assignee_key = t.assignee_key → u ∉ before →
      w.hasSlot before u = true → queueOrder t u ≤ 0
  sorted : (w.pass filter).Pairwise fun a b => queueOrder a b ≤ 0

namespace PumpWorld

/-- The tickets that wait and that the read leaves out. -/
def leftOut (w : PumpWorld) (filter : PumpFilter) : List Ticket :=
  (w.tickets.filter (Ticket.queued filter)).drop 500

/-- The slots of the identity that are taken after the turns of these tickets: each eligible one
    takes one if its account has one left. -/
def slotsTaken (w : PumpWorld) (key : String) (ahead : List Ticket) : Nat :=
  ahead.foldl (fun n t =>
    if t.assignee_key = key ∧ w.eligible t = true ∧ n < w.capacity t then n + 1 else n)
    (w.running key)

/-- No eligible ticket that the read leaves out comes before a ticket of its identity that is read
    and finds a slot at its turn, unless there is none for itself. -/
def ReadsFirst (w : PumpWorld) (filter : PumpFilter) : Prop :=
  ∀ ahead t behind, w.read filter = ahead ++ t :: behind → w.eligible t = true →
    w.slotsTaken t.assignee_key ahead < w.capacity t →
    ∀ u ∈ w.leftOut filter, u.assignee_key = t.assignee_key → w.eligible u = true →
      w.slotsTaken t.assignee_key ahead < w.capacity u → queueOrder t u ≤ 0

variable {w : PumpWorld} {filter : PumpFilter} {t u : Ticket} {ahead behind : List Ticket}

theorem slotsTaken_eq (w : PumpWorld) (key : String) (ahead : List Ticket) :
    w.slotsTaken key ahead = w.inFlight (greedy w.hasSlot ahead) key := by
  induction ahead using List.reverseRecOn with
  | nil => rfl
  | append_singleton ahead t ih =>
    rw [slotsTaken, List.foldl_append, greedy_snoc]
    rw [slotsTaken] at ih
    simp only [List.foldl_cons, List.foldl_nil, ih]
    by_cases hkey : t.assignee_key = key
    · subst hkey
      by_cases hslot : w.hasSlot (greedy w.hasSlot ahead) t = true
      · rw [if_pos hslot]
        simp only [hasSlot, Bool.and_eq_true, decide_eq_true_eq] at hslot
        rw [if_pos ⟨rfl, hslot⟩]
        simp [inFlight]
        omega
      · rw [if_neg hslot]
        simp only [hasSlot, Bool.and_eq_true, decide_eq_true_eq] at hslot
        rw [if_neg (by simpa using hslot)]
    · rw [if_neg (by simp [hkey])]
      split
      · simp [inFlight, hkey]
      · rfl

theorem hasSlot_iff :
    w.hasSlot (greedy w.hasSlot ahead) t = true ↔
      w.eligible t = true ∧ w.slotsTaken t.assignee_key ahead < w.capacity t := by
  simp [hasSlot, slotsTaken_eq]

theorem sorted_read (w : PumpWorld) (filter : PumpFilter) :
    (w.read filter).Pairwise fun a b => queueOrder a b ≤ 0 :=
  List.pairwise_insertionSort _ _

theorem mem_read_or_leftOut (hu : u ∈ w.tickets) (hqueued : u.queued filter = true) :
    u ∈ w.read filter ∨ u ∈ w.leftOut filter := by
  have hmem : u ∈ w.tickets.filter (Ticket.queued filter) := List.mem_filter.mpr ⟨hu, hqueued⟩
  rw [← List.take_append_drop 500 (w.tickets.filter _), List.mem_append] at hmem
  apply hmem.imp_left
  intro h
  exact (List.mem_insertionSort _).mpr h

theorem mem_leftOut (hu : u ∈ w.leftOut filter) :
    u ∈ w.tickets ∧ u.queued filter = true ∧ u ∉ w.read filter := by
  have hmem := List.mem_of_mem_drop hu
  have hnodup : (w.tickets.filter (Ticket.queued filter)).Nodup :=
    (List.Nodup.of_map _ w.nodup).filter _
  rw [← List.take_append_drop 500 (w.tickets.filter _), List.nodup_append] at hnodup
  refine ⟨(List.mem_filter.mp hmem).1, (List.mem_filter.mp hmem).2, ?_⟩
  intro hread
  exact hnodup.2.2 u ((List.mem_insertionSort _).mp hread) u hu rfl

/-- Who is passed over has no slot, then and later. -/
theorem no_slot_of_passed {before : List Ticket} {ahead' : List Ticket}
    (hnot : u ∉ greedy w.hasSlot (ahead' ++ u :: behind))
    (hbefore : greedy w.hasSlot (ahead' ++ u :: behind) = before) :
    w.hasSlot before u = false := by
  subst hbefore
  by_contra hslot
  apply hnot
  have hearlier : w.hasSlot (greedy w.hasSlot ahead') u = true := by
    simp only [hasSlot, Bool.not_eq_false, Bool.and_eq_true, decide_eq_true_eq] at hslot ⊢
    obtain ⟨rest, hrest⟩ := prefix_greedy w.hasSlot ahead' (u :: behind)
    rw [← hrest] at hslot
    simp only [inFlight, List.countP_append] at hslot ⊢
    exact ⟨hslot.1, by omega⟩
  obtain ⟨after, hafter⟩ := exists_chosen hearlier behind
  rw [hafter]
  simp

theorem startsInOrder_of_readsFirst (h : w.ReadsFirst filter) : StartsInOrder w filter := by
  constructor
  case sorted => exact (w.sorted_read filter).sublist (greedy_sublist _ _)
  case first =>
    intro before t after hpass u hmem hqueued hkey hnot hslot
    obtain ⟨ahead, behind, hread, hbefore, ht⟩ := exists_turn hpass
    subst hbefore
    obtain hin | hout := mem_read_or_leftOut hmem hqueued
    · rw [hread] at hin
      obtain hahead | hlater := List.mem_append.mp hin
      · -- its turn has been, and there was no slot for it
        obtain ⟨ahead', between, rfl⟩ := List.append_of_mem hahead
        rw [no_slot_of_passed hnot rfl] at hslot
        cases hslot
      · have hsorted := w.sorted_read filter
        rw [hread] at hsorted
        obtain rfl | hbehind := List.mem_cons.mp hlater
        · rw [queueOrder_self]
        · exact (List.pairwise_cons.mp (List.pairwise_append.mp hsorted).2.1).1 u hbehind
    · rw [hasSlot_iff] at ht hslot
      rw [hkey] at hslot
      exact h ahead t behind hread ht.1 ht.2 u hout hkey hslot.1 hslot.2

theorem readsFirst_of_startsInOrder (h : StartsInOrder w filter) : w.ReadsFirst filter := by
  intro ahead t behind hread ht hslots u hu hkey helig huslots
  obtain ⟨after, hafter⟩ := exists_chosen (hasSlot_iff.mpr ⟨ht, hslots⟩) behind
  obtain ⟨hmem, hqueued, hunread⟩ := mem_leftOut hu
  apply h.first (greedy w.hasSlot ahead) t after (by rw [pass, hread, hafter]) u hmem hqueued hkey
  · intro hstarted
    apply hunread
    rw [hread]
    exact List.mem_append_left _ ((greedy_sublist w.hasSlot ahead).subset hstarted)
  · rw [hasSlot_iff, hkey]
    exact ⟨helig, huslots⟩

end PumpWorld

/-- One pass over a queue of any size: a ticket that is started is the first of all that its
    identity could start, and the starts follow each other in the order of the queue, if and only if
    no ticket that the read leaves out comes before one that gets a slot. What the single statements
    of a pass start, whatever happens in between, is what this pass starts. -/
theorem starts_in_order_iff (w : PumpWorld) (filter : PumpFilter) :
    (StartsInOrder w filter ↔ w.ReadsFirst filter) ∧
    ∀ log p, PassRun log p → p.filter = filter → (∀ x ∈ log, w.Met x) →
      log.filterMap PumpStatement.started <+: w.pass filter ∧
        (p.phase = .returned → (∃ x ∈ log, x.pass.phase = .queue) →
          log.filterMap PumpStatement.started = w.pass filter) := by
  constructor
  · exact ⟨PumpWorld.readsFirst_of_startsInOrder, PumpWorld.startsInOrder_of_readsFirst⟩
  · rintro log p hrun rfl hmet
    exact hrun.starts hmet

/-- Two identities, each with a ticket that waits. -/
def twoWorld : PumpWorld where
  tickets := twoIdentities.base.db.tickets
  accounts := twoIdentities.accounts
  running := twoIdentities.runningCount
  reachable _ := true
  claimable t := (twoIdentities.claim t.id).isSome
  nodup := by decide

/-- A pass over the two identities before its first turn. -/
def firstTurn : PumpPass where
  process := 0
  filter := {}
  phase := .idle
  rest := twoWorld.read {}
  accounts := twoIdentities.accounts

/-- A pass that starts the first of two tickets. -/
theorem starts_in_order_iff_two :
    ∃ log p, PassRun log p ∧ (log.filterMap PumpStatement.started).map (·.id) = ["Ta"] ∧
      log.filterMap PumpStatement.started <+: twoWorld.pass {} := by
  have hids : (twoIdentities.base.db.tickets.map (·.id)).Nodup := by decide
  have hnext : ∀ {log p p'}, PassRun log p →
      (twoIdentities.passStep {} p).map (·.2) = some p' →
      PassRun (log ++ [⟨twoIdentities, {}, p⟩]) p' := by
    intro log p p' hrun hp'
    obtain ⟨⟨s', p''⟩, hstep, rfl⟩ := Option.map_eq_some_iff.mp hp'
    exact hrun.next hids hstep
  have hqueue : PassRun _ { process := 0, filter := {}, phase := .queue } :=
    hnext (.call 0 {}) (by decide +kernel)
  have haccounts : PassRun _ { firstTurn with phase := .accounts, accounts := [] } :=
    hnext hqueue (by decide +kernel)
  have hcounts : PassRun _ { firstTurn with phase := .counts } :=
    hnext haccounts (by decide +kernel)
  have hidle : PassRun _ firstTurn := hnext hcounts (by decide +kernel)
  obtain ⟨p', hp', hfilter⟩ :
      ∃ p', (twoIdentities.passStep {} firstTurn).map (·.2) = some p' ∧ p'.filter = {} := by
    have hany : ((twoIdentities.passStep {} firstTurn).map (·.2)).any (·.filter = {}) = true := by
      decide +kernel
    simpa only [Option.any_eq_true, decide_eq_true_eq] using hany
  have hclaimed := hnext hidle hp'
  refine ⟨_, _, hclaimed, by decide +kernel, ?_⟩
  refine ((starts_in_order_iff twoWorld {}).2 _ _ hclaimed hfilter ?_).1
  simp only [List.nil_append, List.mem_append, List.mem_singleton]
  rintro x ((((rfl | rfl) | rfl) | rfl) | rfl)
  · trivial
  · rfl
  · rfl
  · rfl
  · exact fun t _ => ⟨rfl, rfl⟩

/-- A ticket of the one identity of the account. -/
def waitingTicket (id priority : String) : Ticket where
  id := id
  account_id := "x"
  assignee := some { manager_agent_id := "m", identityKey := "a" }
  assignee_key := "a"
  priority := priority

/-- An id for each number. -/
def numbered (i : Nat) : String := String.ofList (List.replicate i 'x')

/-- Five hundred tickets that nobody is in a hurry for, and behind them one that is critical. -/
def crowdedQueue : List Ticket :=
  (List.range 500).map (fun i => waitingTicket (numbered i) "low") ++
    [waitingTicket "critical" "critical"]

theorem numbered_injective : Function.Injective numbered := by
  intro i j hij
  have hlist := congrArg String.toList hij
  simp only [numbered, String.toList_ofList] at hlist
  simpa using congrArg List.length hlist

theorem numbered_ne (i : Nat) : numbered i ≠ "critical" := by
  intro h
  have hlist : List.replicate i 'x' = "critical".toList := by
    rw [← h, numbered, String.toList_ofList]
  have hc : 'c' ∈ List.replicate i 'x' := by
    rw [hlist]
    decide
  simp at hc

theorem nodup_crowdedQueue : (crowdedQueue.map (·.id)).Nodup := by
  have hids : crowdedQueue.map (·.id) = (List.range 500).map numbered ++ ["critical"] := by
    rw [crowdedQueue, List.map_append, List.map_map]
    rfl
  rw [hids]
  apply List.Nodup.append (List.nodup_range.map numbered_injective) (List.nodup_singleton _)
  rw [List.disjoint_singleton]
  intro hmem
  obtain ⟨i, -, hi⟩ := List.mem_map.mp hmem
  exact numbered_ne i hi

/-- Nothing but slots is missing in the crowded queue. -/
def crowdedWorld : PumpWorld where
  tickets := crowdedQueue
  accounts := [{ id := "x" }]
  running _ := 0
  reachable _ := true
  claimable _ := true
  nodup := nodup_crowdedQueue

/-- The critical ticket is not read, and another one gets the slot. -/
theorem critical_not_first : ¬ StartsInOrder crowdedWorld {} := by
  have hpass : crowdedWorld.pass {} = [waitingTicket (numbered 0) "low"] := by decide +kernel
  have hslot : crowdedWorld.hasSlot [] (waitingTicket "critical" "critical") = true := by
    decide +kernel
  have horder : ¬ queueOrder (waitingTicket (numbered 0) "low")
      (waitingTicket "critical" "critical") ≤ 0 := by decide +kernel
  intro h
  apply horder
  apply h.first [] _ [] hpass (waitingTicket "critical" "critical") ?_ ?_ rfl (by simp) hslot
  · exact List.mem_append_right _ (List.mem_singleton_self _)
  · decide +kernel

/-- Whatever goes on between its statements, every pass of the server has started, by the statements
    that it ran, what a pass over one fixed world starts: with the queue, the accounts and the
    counts that its reads found, and the answers its turns got. -/
theorem pass_of_reachable {s₀ s : PumpState} {as : List PumpAction} (hinit : pumpSystem.init s₀)
    (h : pumpSystem.Path s₀ as s) {i : Nat} {p : PumpPass} (hp : s.passes[i]? = some p) :
    ∃ w : PumpWorld, (∀ x ∈ s₀.statements i as, w.Met x) ∧
      (s₀.statements i as).filterMap PumpStatement.started <+: w.pass p.filter ∧
      (p.phase = .returned → (∃ x ∈ s₀.statements i as, x.pass.phase = .queue) →
        (s₀.statements i as).filterMap PumpStatement.started = w.pass p.filter) := by
  have hrun := ((passRun_of_path hinit h).2 i).1 p hp
  obtain ⟨w, hmet⟩ := hrun.exists_world
  exact ⟨w, hmet, hrun.starts hmet⟩

/-- A pass that starts the ticket of one identity, while a ticket of the other one is created. -/
def oneStarted : List PumpAction :=
  [.pump 0 {}, .pass 0 {}, .pass 0 {}, .pass 0 {}, .create (waitingTicket "T2" "high"), .pass 0 {},
    .pass 0 {}]

theorem pass_of_reachable_oneStarted :
    ((twoIdentities.statements 0 oneStarted).filterMap PumpStatement.started).map (·.id) = ["Ta"] ∧
    ∃ w : PumpWorld,
      (twoIdentities.statements 0 oneStarted).filterMap PumpStatement.started <+: w.pass {} := by
  have hinit : pumpSystem.init twoIdentities := ⟨by decide, rfl, rfl⟩
  obtain ⟨s, hpath, hs⟩ := Transition.exists_path_of_run (M := pumpSystem) (fun _ _ _ h => h)
    twoIdentities oneStarted (fun s => (s.passes[0]?).any fun p : PumpPass => p.filter = {})
    (by decide +kernel)
  obtain ⟨p, hp, hfilter⟩ := (Option.any_eq_true _ _).mp hs
  obtain ⟨w, -, hstarts, -⟩ := pass_of_reachable hinit hpath hp
  rw [of_decide_eq_true hfilter] at hstarts
  exact ⟨by decide +kernel, w, hstarts⟩

end WorkflowBoard.Tickets
