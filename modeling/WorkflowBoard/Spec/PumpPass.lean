import WorkflowBoard.ForStd.Greedy
import WorkflowBoard.Spec.PumpCapacity

/-!
# A pass of the pump as one choice (`ticket-dispatch.service.ts`, `pump`)

A pass runs one statement after the other, and anything may happen in between. Each row that it has
read has one turn, so what the statements meet is, for the pass, one world that stands still. In
this world the pass chooses greedily: it goes through its sorted queue and starts each ticket for
which there is a slot beside those it has started before.
-/

namespace WorkflowBoard.Tickets

/-! ## A pass as one choice -/

/-- What a pass meets: the tickets when it reads the queue, the accounts and the running tickets of
    each identity when it reads these, and at the turn of a ticket whether the host of its assignee
    is connected and whether its row can be claimed. -/
structure PumpWorld where
  tickets : List Ticket
  accounts : List Account
  running : String → Nat
  reachable : Ticket → Bool
  claimable : Ticket → Bool
  nodup : (tickets.map (·.id)).Nodup

namespace PumpWorld

/-- The sorted queue of a pass. -/
def read (w : PumpWorld) (filter : PumpFilter) : List Ticket :=
  ((w.tickets.filter (Ticket.queued filter)).take 500).insertionSort fun a b => queueOrder a b ≤ 0

def account? (w : PumpWorld) (t : Ticket) : Option Account :=
  if t.account_id = "" then none else w.accounts.find? (·.id = t.account_id)

/-- Nothing but a slot is missing: the account is there and not paused, the assignee is one, its
    host is connected, and the row is still to be had. -/
def eligible (w : PumpWorld) (t : Ticket) : Bool :=
  (w.account? t).any (!·.dispatch_paused) && t.assignee.isSome && w.reachable t && w.claimable t

def capacity (w : PumpWorld) (t : Ticket) : Nat := ((w.account? t).map Account.capacity).getD 0

/-- The slots of the identity that are taken once these tickets are started. -/
def inFlight (w : PumpWorld) (started : List Ticket) (key : String) : Nat :=
  w.running key + started.countP (·.assignee_key = key)

/-- There is a slot for the ticket. -/
def hasSlot (w : PumpWorld) (started : List Ticket) (t : Ticket) : Bool :=
  w.eligible t && w.inFlight started t.assignee_key < w.capacity t

/-- The tickets that the pass starts, in order. -/
def pass (w : PumpWorld) (filter : PumpFilter) : List Ticket := greedy w.hasSlot (w.read filter)

end PumpWorld

/-! ## The statements of a pass -/

/-- A statement of a pass, with what it meets. -/
structure PumpStatement where
  state : PumpState
  outside : PumpOutside
  pass : PumpPass

/-- The ticket that the statement starts. -/
def PumpStatement.started (x : PumpStatement) : Option Ticket :=
  match x.pass.phase, x.pass.rest with
  | .idle, t :: rest =>
    if (x.state.turn x.outside { x.pass with rest } t).2.phase = .idle then none else some t
  | _, _ => none

/-- The statement that an action makes pass `i` run. -/
def PumpAction.statement (i : Nat) (s : PumpState) : PumpAction → Option PumpStatement
  | .pass j outside =>
    if j = i then (s.passes[i]?).map fun pass => { state := s, outside, pass } else none
  | _ => none

/-- Take an action, and note the statement that pass `i` runs with it. -/
def PumpState.noted (i : Nat) (x : PumpState × List PumpStatement) (a : PumpAction) :
    PumpState × List PumpStatement :=
  match x.1.act a with
  | .error _ => x
  | .ok s' => (s', x.2 ++ (a.statement i x.1).toList)

/-- The statements that pass `i` runs while the server takes these actions. -/
def PumpState.statements (i : Nat) (s : PumpState) (as : List PumpAction) : List PumpStatement :=
  (as.foldl (noted i) (s, [])).2

/-- What the statements of a pass make of it. Between two of them anything may happen to everything
    else. -/
inductive PassRun : List PumpStatement → PumpPass → Prop
  | call (process : Nat) (filter : PumpFilter) : PassRun [] { process, filter }
  | next {log : List PumpStatement} {s s' : PumpState} {o : PumpOutside} {p p' : PumpPass}
      (h : PassRun log p) (hids : (s.base.db.tickets.map (·.id)).Nodup)
      (hstep : s.passStep o p = some (s', p')) :
      PassRun (log ++ [{ state := s, outside := o, pass := p }]) p'

namespace PumpWorld

/-- The statement meets this world. -/
def Met (w : PumpWorld) (x : PumpStatement) : Prop :=
  match x.pass.phase with
  | .queue => w.tickets = x.state.base.db.tickets
  | .accounts => w.accounts = x.state.accounts
  | .counts => w.running = x.state.runningCount
  | .idle => ∀ t ∈ x.pass.rest.head?,
      w.reachable t = x.outside.reachable ∧ w.claimable t = (x.state.claim t.id).isSome
  | _ => True

variable {w : PumpWorld} {p p' : PumpPass} {s s' : PumpState} {o : PumpOutside} {t : Ticket}

/-- What a pass remembers once it has read everything; `ahead` had their turn. -/
structure Remembered (w : PumpWorld) (p : PumpPass) (ahead : List Ticket) : Prop where
  read : w.read p.filter = ahead ++ p.rest
  accounts : ∀ t ∈ w.read p.filter, p.accounts.find? (·.id = t.account_id) = w.account? t
  running : ∀ t ∈ w.read p.filter,
    countOf p.running t.assignee_key = w.inFlight (greedy w.hasSlot ahead) t.assignee_key

/-- A turn claims the ticket if it has a slot, and does nothing otherwise. -/
theorem turn_eq {running : Nat}
    (haccount : p.accounts.find? (·.id = t.account_id) = w.account? t)
    (hrunning : countOf p.running t.assignee_key = running)
    (hreachable : w.reachable t = o.reachable)
    (hclaimable : w.claimable t = (s.claim t.id).isSome) :
    (w.eligible t = true ∧ running < w.capacity t ∧
      ∃ s', s.turn o p t = (s', { p with
        running := setCount p.running t.assignee_key (running + 1)
        phase := .claimed t.start })) ∨
    (¬ (w.eligible t = true ∧ running < w.capacity t) ∧ s.turn o p t = (s, p)) := by
  unfold PumpState.turn
  rw [haccount]
  cases hfound : w.account? t with
  | none => exact .inr ⟨by simp [eligible, hfound], rfl⟩
  | some account =>
    have hcapacity : w.capacity t = account.capacity := by simp [capacity, hfound]
    simp only [hrunning, hcapacity]
    split
    · rename_i hpaused
      exact .inr ⟨by simp [eligible, hfound, hpaused], rfl⟩
    rename_i hpaused
    split
    · rename_i hfull
      exact .inr ⟨by omega, rfl⟩
    rename_i hroom
    split
    · rename_i hassignee
      refine .inr ⟨?_, rfl⟩
      simp [eligible, Option.isNone_iff_eq_none.mp hassignee]
    rename_i hassignee
    split
    · rename_i hoffline
      have hreach : o.reachable = false := by simpa using hoffline
      refine .inr ⟨?_, rfl⟩
      simp [eligible, hreachable, hreach]
    rename_i honline
    cases hclaim : s.claim t.id with
    | none =>
      refine .inr ⟨?_, rfl⟩
      simp [eligible, hclaimable, hclaim]
    | some s' =>
      refine .inl ⟨?_, by omega, s', rfl⟩
      have hsome : t.assignee.isSome = true := by simpa [Option.isSome_iff_ne_none] using hassignee
      simp_all [eligible]

/-- The account of a ticket that was read is among those that are loaded. -/
theorem find?_accountsById (accounts : List Account) (rest : List Ticket) (ht : t ∈ rest) :
    (accountsById accounts ((rest.map (·.account_id)).filter (· ≠ ""))).find?
        (·.id = t.account_id) =
      if t.account_id = "" then none else accounts.find? (·.id = t.account_id) := by
  rw [accountsById, List.find?_filter]
  by_cases hempty : t.account_id = ""
  · rw [if_pos hempty, List.find?_eq_none]
    intro a _
    simp only [hempty, decide_eq_true_eq, not_and]
    intro hin hblank
    simp [hblank] at hin
  · rw [if_neg hempty]
    congr 1
    funext a
    by_cases ha : a.id = t.account_id
    · simpa [ha, hempty] using ⟨t, ht, rfl⟩
    · simp [ha]

theorem nodup_read (w : PumpWorld) (filter : PumpFilter) : (w.read filter).Nodup := by
  rw [read, (List.perm_insertionSort _ _).nodup_iff]
  exact ((List.Nodup.of_map _ w.nodup).filter _).sublist (List.take_sublist _ _)

end PumpWorld

/-- How far a pass is, in a world that all its statements have met. -/
inductive PumpProgress (w : PumpWorld) (log : List PumpStatement) (p : PumpPass) : Prop
  | start (hphase : p.phase = .start) (hlog : log = [])
  | queue (hphase : p.phase = .queue) (hlog : ∀ x ∈ log, x.pass.phase = .start)
  | accounts (hphase : p.phase = .accounts) (hread : p.rest = w.read p.filter)
      (hlog : ∀ x ∈ log, x.pass.phase = .start ∨ x.pass.phase = .queue)
  | counts (hphase : p.phase = .counts) (hread : p.rest = w.read p.filter)
      (haccounts : ∀ t ∈ w.read p.filter,
        p.accounts.find? (·.id = t.account_id) = w.account? t)
      (hlog : ∀ x ∈ log, x.pass.phase = .start ∨ x.pass.phase = .queue ∨ x.pass.phase = .accounts)
  | turns (ahead : List Ticket) (hphase : p.phase ≠ .start ∧ p.phase ≠ .queue ∧
        p.phase ≠ .accounts ∧ p.phase ≠ .counts ∧ p.phase ≠ .returned)
      (hremembered : w.Remembered p ahead)
      (hstarted : log.filterMap PumpStatement.started = greedy w.hasSlot ahead)
      (hlog : ∀ x ∈ log, x.pass.phase = .idle → ∀ t ∈ x.pass.rest.head?, t ∈ ahead)
  | returned (hphase : p.phase = .returned)
      (hdone : log.filterMap PumpStatement.started = w.pass p.filter ∨
        ∀ x ∈ log, x.pass.phase = .start)

theorem started_of_phase {x : PumpStatement} (h : x.pass.phase ≠ .idle) : x.started = none := by
  unfold PumpStatement.started
  split
  · contradiction
  · rfl

/-- A turn starts the ticket if it does not leave the pass at rest. -/
theorem started_turn {x : PumpStatement} {t : Ticket} {rest : List Ticket}
    (hphase : x.pass.phase = .idle) (hrest : x.pass.rest = t :: rest) :
    x.started =
      if (x.state.turn x.outside { x.pass with rest } t).2.phase = .idle then none else some t := by
  unfold PumpStatement.started
  split
  · rename_i hcons
    obtain ⟨rfl, rfl⟩ := List.cons.inj (hrest.symm.trans hcons)
    rfl
  · rename_i hother
    exact absurd hrest (hother t rest hphase)

theorem filterMap_started {log : List PumpStatement} (h : ∀ x ∈ log, x.pass.phase ≠ .idle) :
    log.filterMap PumpStatement.started = [] := by
  rw [List.filterMap_eq_nil_iff]
  exact fun x hx => started_of_phase (h x hx)

section Steps

variable {w : PumpWorld} {log : List PumpStatement} {p p' : PumpPass} {s s' : PumpState}
variable {o : PumpOutside}

theorem forall_mem_snoc {P : PumpStatement → Prop} {x : PumpStatement} (h : ∀ y ∈ log, P y)
    (hx : P x) : ∀ y ∈ log ++ [x], P y := by
  intro y hy
  rw [List.mem_append, List.mem_singleton] at hy
  obtain hy | rfl := hy
  · exact h y hy
  · exact hx

theorem mem_snoc (x : PumpStatement) : x ∈ log ++ [x] :=
  List.mem_append_right _ (List.mem_singleton_self x)

theorem filterMap_started_snoc (hphase : p.phase ≠ .idle) :
    (log ++ [({ state := s, outside := o, pass := p } : PumpStatement)]).filterMap
        PumpStatement.started =
      log.filterMap PumpStatement.started := by
  rw [List.filterMap_append]
  simp [started_of_phase (x := { state := s, outside := o, pass := p }) hphase]

/-- A turn of the pass keeps what it remembers. -/
theorem PumpWorld.Remembered.turn {ahead rest : List Ticket} {t : Ticket}
    (h : w.Remembered p ahead) (hphase : p.phase = .idle) (hrest : p.rest = t :: rest)
    (hreachable : w.reachable t = o.reachable)
    (hclaimable : w.claimable t = (s.claim t.id).isSome)
    (hstarted : log.filterMap PumpStatement.started = greedy w.hasSlot ahead)
    (hlog : ∀ x ∈ log, x.pass.phase = .idle → ∀ t ∈ x.pass.rest.head?, t ∈ ahead) :
    PumpProgress w (log ++ [⟨s, o, p⟩]) (s.turn o { p with rest } t).2 := by
  have hread : w.read p.filter = ahead ++ t :: rest := hrest ▸ h.read
  have hread' : w.read p.filter = (ahead ++ [t]) ++ rest := by simp [hread]
  have hmem : t ∈ w.read p.filter := by simp [hread]
  have hlog' : ∀ x ∈ log ++ [⟨s, o, p⟩], x.pass.phase = .idle →
      ∀ u ∈ x.pass.rest.head?, u ∈ ahead ++ [t] := by
    apply forall_mem_snoc
    · exact fun x hx hidle u hu => List.mem_append_left _ (hlog x hx hidle u hu)
    · intro _ u hu
      obtain rfl : t = u := by simpa [hrest] using hu
      simp
  have hturned := started_turn (x := ⟨s, o, p⟩) hphase hrest
  obtain ⟨helig, hroom, s', hturn⟩ | ⟨hnone, hturn⟩ :=
    PumpWorld.turn_eq (p := { p with rest }) (h.accounts t hmem) (h.running t hmem) hreachable
      hclaimable
  · -- the ticket is claimed
    have hgrown : greedy w.hasSlot (ahead ++ [t]) = greedy w.hasSlot ahead ++ [t] := by
      rw [greedy_snoc, if_pos (by simp [PumpWorld.hasSlot, helig, hroom])]
    rw [hturn, if_neg (by simp)] at hturned
    rw [hturn]
    refine .turns (ahead ++ [t]) (by simp) ⟨hread', h.accounts, ?_⟩ ?_ hlog'
    · intro u hu
      have hsame := h.running u hu
      show countOf (setCount _ _ _) _ = _
      rw [countOf_setCount, hgrown]
      by_cases hkey : u.assignee_key = t.assignee_key
      · rw [if_pos hkey]
        simp [PumpWorld.inFlight, hkey]
        omega
      · rw [if_neg hkey]
        simp only [PumpWorld.inFlight, List.countP_append] at hsame ⊢
        simp [hsame, Ne.symm hkey]
    · rw [List.filterMap_append, hstarted, hgrown]
      simp [hturned]
  · -- it is passed over
    have hgrown : greedy w.hasSlot (ahead ++ [t]) = greedy w.hasSlot ahead := by
      rw [greedy_snoc, if_neg (by simpa [PumpWorld.hasSlot] using hnone)]
    rw [hturn, if_pos hphase] at hturned
    rw [hturn]
    refine .turns (ahead ++ [t]) (by simp [hphase]) ⟨hread', h.accounts, ?_⟩ ?_ hlog'
    · rw [hgrown]
      exact h.running
    · rw [List.filterMap_append, hstarted, hgrown]
      simp [hturned]

/-! Each statement of a pass in turn. -/

theorem progress_start (hphase : p.phase = .start) (hlog : log = [])
    (hstep : s.passStep o p = some (s', p')) : PumpProgress w (log ++ [⟨s, o, p⟩]) p' := by
  obtain ⟨process, filter, phase, rest, accounts, running, started⟩ := p
  cases hphase
  cases hstep
  subst hlog
  cases hquiesced : o.quiesced with
  | true => exact .returned rfl (.inr (by simp))
  | false => exact .queue rfl (by simp)

theorem progress_queue (hmet : w.Met ⟨s, o, p⟩) (hphase : p.phase = .queue)
    (hlog : ∀ x ∈ log, x.pass.phase = .start) (hstep : s.passStep o p = some (s', p')) :
    PumpProgress w (log ++ [⟨s, o, p⟩]) p' := by
  obtain ⟨process, filter, phase, rest, accounts, running, started⟩ := p
  cases hphase
  have htickets : w.tickets = s.base.db.tickets := hmet
  cases hstep
  rw [← htickets]
  obtain ⟨hnext, -⟩ | ⟨hnext, hempty⟩ := queue_phase (s := s) filter
  · rw [← htickets] at hnext
    exact .accounts hnext rfl (forall_mem_snoc (fun x hx => .inl (hlog x hx)) (.inr rfl))
  · rw [← htickets] at hnext hempty
    have hread : w.read filter = [] := List.eq_nil_iff_forall_not_mem.mpr hempty
    refine .returned hnext (.inl ?_)
    rw [filterMap_started_snoc (by simp), filterMap_started fun x hx => by simp [hlog x hx]]
    rw [PumpWorld.pass, hread, greedy_nil]

theorem progress_accounts (hmet : w.Met ⟨s, o, p⟩) (hphase : p.phase = .accounts)
    (hread : p.rest = w.read p.filter)
    (hlog : ∀ x ∈ log, x.pass.phase = .start ∨ x.pass.phase = .queue)
    (hstep : s.passStep o p = some (s', p')) : PumpProgress w (log ++ [⟨s, o, p⟩]) p' := by
  obtain ⟨process, filter, phase, rest, accounts, running, started⟩ := p
  cases hphase
  have haccounts : w.accounts = s.accounts := hmet
  cases hstep
  refine .counts rfl hread ?_ ?_
  · intro t ht
    rw [PumpWorld.account?, haccounts]
    apply PumpWorld.find?_accountsById
    exact hread ▸ ht
  · exact forall_mem_snoc (fun x hx => (hlog x hx).imp_right .inl) (.inr (.inr rfl))

theorem progress_counts (hmet : w.Met ⟨s, o, p⟩) (hphase : p.phase = .counts)
    (hread : p.rest = w.read p.filter)
    (haccounts : ∀ t ∈ w.read p.filter,
      p.accounts.find? (·.id = t.account_id) = w.account? t)
    (hlog : ∀ x ∈ log, x.pass.phase = .start ∨ x.pass.phase = .queue ∨ x.pass.phase = .accounts)
    (hstep : s.passStep o p = some (s', p')) : PumpProgress w (log ++ [⟨s, o, p⟩]) p' := by
  obtain ⟨process, filter, phase, rest, accounts, running, started⟩ := p
  cases hphase
  have hrunning : w.running = s.runningCount := hmet
  cases hstep
  have hidle : ∀ x ∈ log, x.pass.phase ≠ .idle := by
    intro x hx
    obtain hphase | hphase | hphase := hlog x hx <;> simp [hphase]
  refine .turns [] (by simp) ⟨hread.symm, haccounts, ?_⟩ ?_ ?_
  · intro t ht
    have hrest : rest = w.read filter := hread
    have hkey : t.assignee_key ∈ rest.map (·.assignee_key) := by
      rw [hrest]
      exact List.mem_map.mpr ⟨t, ht, rfl⟩
    rw [countOf_runningCounts hkey]
    simp [PumpWorld.inFlight, hrunning]
  · rw [filterMap_started_snoc (by simp), filterMap_started hidle, greedy_nil]
  · exact forall_mem_snoc (fun x hx hphase => absurd hphase (hidle x hx)) (by simp)

theorem progress_between {ahead : List Ticket}
    (hphase : (∃ t, p.phase = .claimed t) ∨ ∃ k, p.phase = .waiting k)
    (hremembered : w.Remembered p ahead)
    (hstarted : log.filterMap PumpStatement.started = greedy w.hasSlot ahead)
    (hlog : ∀ x ∈ log, x.pass.phase = .idle → ∀ t ∈ x.pass.rest.head?, t ∈ ahead)
    (hstep : s.passStep o p = some (s', p')) : PumpProgress w (log ++ [⟨s, o, p⟩]) p' := by
  obtain ⟨process, filter, phase, rest, accounts, running, started⟩ := p
  obtain ⟨hread, haccounts, hrunning⟩ := hremembered
  obtain ⟨t, rfl⟩ | ⟨k, rfl⟩ := hphase
  · cases hstep
    refine .turns ahead (by simp) ⟨hread, haccounts, hrunning⟩ ?_
      (forall_mem_snoc hlog (by simp))
    rw [filterMap_started_snoc (by simp), hstarted]
  · simp only [PumpState.passStep] at hstep
    split at hstep
    · cases hstep
      refine .turns ahead (by simp) ⟨hread, haccounts, hrunning⟩ ?_
        (forall_mem_snoc hlog (by simp))
      rw [filterMap_started_snoc (by simp), hstarted]
    · cases hstep

theorem progress_idle {ahead : List Ticket} (hmet : w.Met ⟨s, o, p⟩)
    (hphase : p.phase = .idle) (hremembered : w.Remembered p ahead)
    (hstarted : log.filterMap PumpStatement.started = greedy w.hasSlot ahead)
    (hlog : ∀ x ∈ log, x.pass.phase = .idle → ∀ t ∈ x.pass.rest.head?, t ∈ ahead)
    (hstep : s.passStep o p = some (s', p')) : PumpProgress w (log ++ [⟨s, o, p⟩]) p' := by
  obtain ⟨process, filter, phase, rest, accounts, running, started⟩ := p
  cases hphase
  cases rest with
  | nil =>
    cases hstep
    have hread : w.read filter = ahead := by simpa using hremembered.read
    refine .returned rfl (.inl ?_)
    rw [List.filterMap_append, hstarted, PumpWorld.pass, hread]
    exact List.append_nil _
  | cons t rest =>
    obtain ⟨hreachable, hclaimable⟩ := hmet t rfl
    have hp' := congrArg Prod.snd (Option.some.inj hstep)
    dsimp only at hp'
    subst hp'
    exact hremembered.turn rfl rfl hreachable hclaimable hstarted hlog

/-- In a world that all its statements have met, a pass goes as one choice. -/
theorem PassRun.progress (h : PassRun log p) (hmet : ∀ x ∈ log, w.Met x) :
    PumpProgress w log p := by
  induction h with
  | call process filter => exact .start rfl rfl
  | next _ hids hstep ih =>
    have hlast := hmet _ (mem_snoc _)
    cases ih fun x hx => hmet x (List.mem_append_left _ hx) with
    | start hphase hlog => exact progress_start hphase hlog hstep
    | queue hphase hlog => exact progress_queue hlast hphase hlog hstep
    | accounts hphase hread hlog => exact progress_accounts hlast hphase hread hlog hstep
    | counts hphase hread haccounts hlog =>
      exact progress_counts hlast hphase hread haccounts hlog hstep
    | turns ahead hphase hremembered hstarted hlog =>
      cases hnow : PumpPass.phase _ with
      | idle => exact progress_idle hlast hnow hremembered hstarted hlog hstep
      | claimed t => exact progress_between (.inl ⟨t, hnow⟩) hremembered hstarted hlog hstep
      | waiting k => exact progress_between (.inr ⟨k, hnow⟩) hremembered hstarted hlog hstep
      | _ => simp [hnow] at hphase
    | returned hphase hdone =>
      unfold PumpState.passStep at hstep
      rw [hphase] at hstep
      cases hstep

/-- Whatever happens between the statements of a pass, the tickets that it has started are, in
    order, the first of those that it starts in a world that its statements have met; and all of
    them once it has returned, unless it has seen the instance quiesced. -/
theorem PassRun.starts (h : PassRun log p) (hmet : ∀ x ∈ log, w.Met x) :
    log.filterMap PumpStatement.started <+: w.pass p.filter ∧
      (p.phase = .returned → (∃ x ∈ log, x.pass.phase = .queue) →
        log.filterMap PumpStatement.started = w.pass p.filter) := by
  cases h.progress hmet with
  | start hphase hlog => simp [hlog]
  | queue hphase hlog =>
    rw [filterMap_started fun x hx => by simp [hlog x hx]]
    exact ⟨List.nil_prefix, by simp [hphase]⟩
  | accounts hphase hread hlog =>
    rw [filterMap_started fun x hx => by obtain hx | hx := hlog x hx <;> simp [hx]]
    exact ⟨List.nil_prefix, by simp [hphase]⟩
  | counts hphase hread haccounts hlog =>
    rw [filterMap_started fun x hx => by obtain hx | hx | hx := hlog x hx <;> simp [hx]]
    exact ⟨List.nil_prefix, by simp [hphase]⟩
  | turns ahead hphase hremembered hstarted hlog =>
    rw [hstarted, PumpWorld.pass, hremembered.read]
    exact ⟨prefix_greedy _ _ _, fun hreturned => absurd hreturned hphase.2.2.2.2⟩
  | returned hphase hdone =>
    obtain hdone | hstart := hdone
    · exact ⟨hdone ▸ List.prefix_rfl, fun _ _ => hdone⟩
    · constructor
      · rw [filterMap_started fun x hx => by simp [hstart x hx]]
        exact List.nil_prefix
      · rintro - ⟨x, hx, hqueue⟩
        rw [hstart x hx] at hqueue
        cases hqueue

/-! ## There is such a world -/

/-- The same world, in which the turn of the ticket goes so. -/
def PumpWorld.withTurn (w : PumpWorld) (t : Ticket) (reachable claimable : Bool) : PumpWorld :=
  { w with
    reachable := Function.update w.reachable t reachable
    claimable := Function.update w.claimable t claimable }

theorem PumpWorld.Met.turn {t : Ticket} {reachable claimable : Bool} {x : PumpStatement}
    (h : w.Met x) (hnot : x.pass.phase = .idle → t ∉ x.pass.rest.head?) :
    (w.withTurn t reachable claimable).Met x := by
  cases hphase : x.pass.phase with
  | idle =>
    simp only [Met, hphase] at h ⊢
    intro u hu
    have hne : u ≠ t := by
      rintro rfl
      exact hnot hphase hu
    simpa [withTurn, Function.update_of_ne hne] using h u hu
  | queue | accounts | counts =>
    simp only [Met, hphase, withTurn] at h ⊢
    exact h
  | _ => simp [Met, hphase]

theorem PassRun.exists_world (h : PassRun log p) : ∃ w : PumpWorld, ∀ x ∈ log, w.Met x := by
  induction h with
  | call process filter =>
    let w : PumpWorld :=
      { tickets := [], accounts := [], running := fun _ => 0, reachable := fun _ => false,
        claimable := fun _ => false, nodup := .nil }
    exact ⟨w, by simp⟩
  | @next log s s' o p p' hrun hids hstep ih =>
    obtain ⟨w, hmet⟩ := ih
    -- no earlier statement asks for what this one adds to the world
    cases hrun.progress hmet with
    | start hphase hlog => exact ⟨w, forall_mem_snoc hmet (by simp [PumpWorld.Met, hphase])⟩
    | queue hphase hlog =>
      refine ⟨{ w with tickets := s.base.db.tickets, nodup := hids }, forall_mem_snoc ?_ ?_⟩
      · intro x hx
        simp [PumpWorld.Met, hlog x hx]
      · simp [PumpWorld.Met, hphase]
    | accounts hphase hread hlog =>
      refine ⟨{ w with accounts := s.accounts }, forall_mem_snoc ?_ ?_⟩
      · intro x hx
        have hx' := hmet x hx
        obtain hbefore | hbefore := hlog x hx
        · simp [PumpWorld.Met, hbefore]
        · simpa [PumpWorld.Met, hbefore] using hx'
      · simp [PumpWorld.Met, hphase]
    | counts hphase hread haccounts hlog =>
      refine ⟨{ w with running := s.runningCount }, forall_mem_snoc ?_ ?_⟩
      · intro x hx
        have hx' := hmet x hx
        obtain hbefore | hbefore | hbefore := hlog x hx
        · simp [PumpWorld.Met, hbefore]
        · simpa [PumpWorld.Met, hbefore] using hx'
        · simpa [PumpWorld.Met, hbefore] using hx'
      · simp [PumpWorld.Met, hphase]
    | turns ahead hphase hremembered hstarted hlog =>
      cases hnow : p.phase with
      | idle =>
        cases hrest : p.rest with
        | nil => exact ⟨w, forall_mem_snoc hmet (by simp [PumpWorld.Met, hnow, hrest])⟩
        | cons t rest =>
          refine ⟨w.withTurn t o.reachable (s.claim t.id).isSome, forall_mem_snoc ?_ ?_⟩
          · intro x hx
            apply (hmet x hx).turn
            intro hidle hin
            -- the ticket has had no turn
            have hnodup := w.nodup_read p.filter
            rw [hremembered.read, hrest, List.nodup_append] at hnodup
            exact hnodup.2.2 t (hlog x hx hidle t hin) t (List.mem_cons_self ..) rfl
          · simp [PumpWorld.Met, hnow, hrest, PumpWorld.withTurn]
      | claimed t => exact ⟨w, forall_mem_snoc hmet (by simp [PumpWorld.Met, hnow])⟩
      | waiting k => exact ⟨w, forall_mem_snoc hmet (by simp [PumpWorld.Met, hnow])⟩
      | _ => simp [hnow] at hphase
    | returned hphase hdone =>
      unfold PumpState.passStep at hstep
      rw [hphase] at hstep
      cases hstep

/-! ## The passes of the server -/

/-- A statement of a pass leaves the other passes alone, and claims at most one row. -/
theorem passStep_effect (hstep : s.passStep o p = some (s', p')) :
    s'.passes = s.passes ∧
    (s'.base.db = s.base.db ∨ ∃ id, s'.base.db = s.base.db.update id Ticket.start) := by
  unfold PumpState.passStep at hstep
  split at hstep
  · cases hstep
    exact ⟨rfl, .inl rfl⟩
  · cases hstep
    exact ⟨rfl, .inl rfl⟩
  · cases hstep
    exact ⟨rfl, .inl rfl⟩
  · cases hstep
    exact ⟨rfl, .inl rfl⟩
  · split at hstep
    · cases hstep
      exact ⟨rfl, .inl rfl⟩
    · obtain ⟨rfl, -⟩ | ⟨account, -, -, hclaim, -⟩ := turn_cases (Option.some.inj hstep)
      · exact ⟨rfl, .inl rfl⟩
      · obtain ⟨row, -, -, hdb, -, hpasses, -⟩ := claim_eq_some hclaim
        exact ⟨hpasses, .inr ⟨_, hdb⟩⟩
  · cases hstep
    exact ⟨rfl, .inl rfl⟩
  · split at hstep
    · cases hstep
      exact ⟨rfl, .inl rfl⟩
    · cases hstep
  · cases hstep

/-- No step of the dispatcher or of a person gives two tickets one id. -/
theorem ids_of_act {a : DispatchAction} {base base' : DispatchState} (h : base.act a = .ok base') :
    base'.db.tickets.map (·.id) = base.db.tickets.map (·.id) := by
  by_cases hchange : ∃ id c, a = .change id c
  · obtain ⟨id, c, rfl⟩ := hchange
    cases DispatchState.acts_of_act h
    exact TicketDb.ids_update (TicketChange.apply_id c base.clock)
  · exact (act_rewritten (fun id c heq => hchange ⟨id, c, heq⟩) h).ids

theorem foldl_noted {as : List PumpAction} (h : pumpSystem.Path s as s') (i : Nat) :
    as.foldl (PumpState.noted i) (s, []) = (s', s.statements i as) := by
  induction h with
  | nil => rfl
  | @snoc s' s'' as a _ hstep ih =>
    have hact : s'.act a = .ok s'' := hstep
    unfold PumpState.statements
    rw [List.foldl_append, ih, List.foldl_cons, List.foldl_nil, PumpState.noted, hact]

theorem statements_snoc {s'' : PumpState} {as : List PumpAction} {a : PumpAction}
    (h : pumpSystem.Path s as s') (hstep : pumpSystem.step s' a s'') (i : Nat) :
    s.statements i (as ++ [a]) = s.statements i as ++ (a.statement i s').toList := by
  have hact : s'.act a = .ok s'' := hstep
  rw [PumpState.statements, List.foldl_append, foldl_noted h, List.foldl_cons, List.foldl_nil,
    PumpState.noted, hact]

/-- Any other step adds no statement. -/
theorem statements_quiet {s'' : PumpState} {as : List PumpAction} {a : PumpAction}
    (h : pumpSystem.Path s as s') (hstep : pumpSystem.step s' a s'')
    (hquiet : ∀ i, a.statement i s' = none) (i : Nat) :
    s.statements i (as ++ [a]) = s.statements i as := by
  rw [statements_snoc h hstep, hquiet, Option.toList_none, List.append_nil]

/-- Every pass of the server has come to where it is by the statements that it has run. -/
theorem passRun_of_path {as : List PumpAction} (hinit : pumpSystem.init s)
    (h : pumpSystem.Path s as s') :
    (s'.base.db.tickets.map (·.id)).Nodup ∧
    ∀ i, (∀ p, s'.passes[i]? = some p → PassRun (s.statements i as) p) ∧
      (s'.passes[i]? = none → s.statements i as = []) := by
  induction h with
  | nil =>
    obtain ⟨hids, hpasses, -⟩ := hinit
    exact ⟨hids, fun i => by simp [hpasses, PumpState.statements]⟩
  | @snoc s' s'' as a hpath hstep ih =>
    obtain ⟨hids, hruns⟩ := ih
    have hsnoc := statements_snoc hpath hstep
    have hquiet := statements_quiet hpath hstep
    simp only [pumpSystem] at hstep
    cases a with
    | other a =>
      simp only [PumpState.act] at hstep
      split at hstep
      · cases hstep
      · rename_i base hbase
        cases hstep
        simp only [hquiet fun _ => rfl]
        exact ⟨(ids_of_act hbase).symm ▸ hids, hruns⟩
    | create t =>
      simp only [PumpState.act] at hstep
      split at hstep
      · cases hstep
      · rename_i hnew
        cases hstep
        simp only [hquiet fun _ => rfl]
        exact ⟨nodup_ids_snoc hids (by simpa using hnew), hruns⟩
    | setAccount account =>
      cases hstep
      simp only [hquiet fun _ => rfl]
      exact ⟨hids, hruns⟩
    | pump process filter =>
      simp only [PumpState.act] at hstep
      split at hstep
      · cases hstep
      · cases hstep
        refine ⟨hids, fun i => ⟨fun p hp => ?_, fun hnone => ?_⟩⟩
        · rw [hquiet fun _ => rfl]
          obtain hp | ⟨rfl, rfl⟩ := getElem?_append_cases hp
          · exact (hruns i).1 p hp
          · rw [(hruns _).2 (List.getElem?_eq_none le_rfl)]
            exact .call process filter
        · rw [hquiet fun _ => rfl]
          apply (hruns i).2
          rw [List.getElem?_eq_none_iff, List.length_append] at hnone
          rw [List.getElem?_eq_none_iff]
          omega
    | pass j o =>
      simp only [PumpState.act] at hstep
      split at hstep
      · cases hstep
      · rename_i p hp
        split at hstep
        · cases hstep
        · rename_i t p' hpass
          cases hstep
          obtain ⟨hpasses, hdb⟩ := passStep_effect hpass
          constructor
          · show (t.base.db.tickets.map (·.id)).Nodup
            obtain hdb | ⟨id, hdb⟩ := hdb
            · rw [hdb]
              exact hids
            · rw [hdb, TicketDb.ids_update Ticket.start_id]
              exact hids
          · intro i
            simp only [hsnoc, hpasses]
            by_cases hij : j = i
            · subst hij
              have hnoted : (PumpAction.pass j o).statement j s' =
                  some { state := s', outside := o, pass := p } := by
                simp [PumpAction.statement, hp]
              rw [hnoted, getElem?_set_self hp]
              refine ⟨fun q hq => ?_, fun h => by cases h⟩
              obtain rfl := Option.some.inj hq
              exact ((hruns j).1 p hp).next hids hpass
            · rw [List.getElem?_set_ne hij]
              simpa [PumpAction.statement, hij] using hruns i

end Steps

end WorkflowBoard.Tickets
