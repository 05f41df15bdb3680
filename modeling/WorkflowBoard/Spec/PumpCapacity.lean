import WorkflowBoard.ForStd.List
import WorkflowBoard.Native.Pump

/-!
# Capacity of the pump (`ticket-dispatch.service.ts`, `pump`)

A pass reads the running tickets and the capacities once, and waits for a host at every ticket it
starts. What it remembers is right as long as nobody else starts a ticket of an identity it has
not come to yet: then every claim is made while the identity has room. A ticket that is started
by hand during such a wait breaks it.
-/

namespace WorkflowBoard.Tickets

/-- Every claim was made while the identity of the ticket had room. -/
def PumpState.ClaimsBelowCapacity (s : PumpState) : Prop :=
  ∀ c ∈ s.claims, c.running < c.capacity

/-! ## The condition -/

/-- A step by somebody else than the dispatcher and than pass number `i`: a change of a ticket or
    an account, a new ticket, a statement of another pass. -/
def PumpAction.foreign (i : Nat) : PumpAction → Bool
  | .other (.change _ _) => true
  | .other _ => false
  | .create _ => true
  | .setAccount _ => true
  | .pump _ _ => false
  | .pass j _ => i ≠ j

/-- The pass has read the running tickets. -/
def PumpPass.counted (p : PumpPass) : Bool :=
  p.phase ≠ .accounts && p.phase ≠ .counts

/-- What a step leaves alone of what a pass has read for a ticket whose turn is still to come: the
    ticket keeps its assignee, no further ticket of its identity starts to run, and the capacity
    of its account does not shrink. -/
def PumpPass.Kept (p : PumpPass) (t : Ticket) (s s' : PumpState) : Prop :=
  (s'.base.db.ticket? t.id).map (·.assignee_key) = (s.base.db.ticket? t.id).map (·.assignee_key) ∧
  (p.counted → s'.runningCount t.assignee_key ≤ s.runningCount t.assignee_key) ∧
  (p.phase ≠ .accounts → s.capacityOf t.account_id ≤ s'.capacityOf t.account_id)

instance (p : PumpPass) (t : Ticket) (s s' : PumpState) : Decidable (p.Kept t s s') :=
  inferInstanceAs (Decidable (_ ∧ _ ∧ _))

/-- Nobody gets in the way of a pass. -/
def PumpState.Undisturbed (s : PumpState) (a : PumpAction) (s' : PumpState) : Prop :=
  ∀ pi ∈ s.passes.zipIdx, a.foreign pi.2 = true → ∀ t ∈ pi.1.rest, pi.1.Kept t s s'

instance (s : PumpState) (a : PumpAction) (s' : PumpState) : Decidable (s.Undisturbed a s') :=
  inferInstanceAs (Decidable (∀ pi ∈ s.passes.zipIdx, _))

/-- Runs whose steps meet the condition. -/
def undisturbedRuns : Transition PumpState PumpAction :=
  pumpSystem.restrict fun s a s' => s.Undisturbed a s'

/-! ## Counting -/

section Counts

variable {counts : List (String × Nat)} {key k : String} {n : Nat}

theorem countOf_setCount :
    countOf (setCount counts key n) k = if k = key then n else countOf counts k := by
  unfold countOf setCount
  by_cases hk : k = key
  · simp [hk]
  · rw [if_neg hk, List.lookup_cons]
    simp only [beq_eq_false_iff_ne.mpr hk]
    congr 1
    induction counts with
    | nil => rfl
    | cons e counts ih =>
      by_cases he : e.1 = key
      · rw [List.filter_cons_of_neg (by simp [he]), ih, List.lookup_cons]
        simp [he, beq_eq_false_iff_ne.mpr hk]
      · rw [List.filter_cons_of_pos (by simp [he]), List.lookup_cons, List.lookup_cons, ih]

/-- The loop of `runningCounts` adds to each key the rows that have it. -/
theorem countOf_foldl (rows : List Ticket) :
    countOf (rows.foldl (fun out row =>
      setCount out row.assignee_key (countOf out row.assignee_key + 1)) counts) k =
      countOf counts k + rows.countP (·.assignee_key = k) := by
  induction rows generalizing counts with
  | nil => rfl
  | cons row rows ih =>
    rw [List.foldl_cons, ih, countOf_setCount, List.countP_cons]
    by_cases hk : k = row.assignee_key
    · rw [if_pos hk, ← hk]
      simp
      omega
    · rw [if_neg hk, if_neg (by simpa using fun h => hk h.symm)]
      omega

/-- `runningCounts` counts the running tickets of the keys it is asked for. -/
theorem countOf_runningCounts {s : PumpState} {keys : List String} (hk : k ∈ keys) :
    countOf (runningCounts s.base.db keys) k = s.runningCount k := by
  unfold runningCounts PumpState.runningCount
  rw [countOf_foldl, List.countP_filter]
  have hempty : countOf [] k = 0 := rfl
  rw [hempty, Nat.zero_add]
  apply List.countP_congr
  intro x hx
  by_cases hkey : x.assignee_key = k
  · simp [hkey, hk]
  · simp [hkey]

end Counts

/-! ## Rewriting the table -/

/-- A rewrite of tickets after which no other ticket runs, and each belongs to the same identity and
    account. -/
structure NoBusier (f : Ticket → Ticket) : Prop where
  id : ∀ x, (f x).id = x.id
  assignee_key : ∀ x, (f x).assignee_key = x.assignee_key
  account_id : ∀ x, (f x).account_id = x.account_id
  running : ∀ x, (f x).running = true → x.running = true

/-- The second table is the first with such a rewrite. -/
def Rewritten (db db' : TicketDb) : Prop :=
  ∃ f, NoBusier f ∧ db'.tickets = db.tickets.map f

section Rewrite

variable {db db' : TicketDb} {f : Ticket → Ticket} {j : String}

theorem Rewritten.refl (db : TicketDb) : Rewritten db db :=
  ⟨fun x => x, ⟨fun _ => rfl, fun _ => rfl, fun _ => rfl, fun _ h => h⟩, (List.map_id' _).symm⟩

theorem Rewritten.update (h : NoBusier f) : Rewritten db (db.update j f) := by
  refine ⟨fun x => if x.id = j then f x else x, ⟨?_, ?_, ?_, ?_⟩, rfl⟩
  · intro x
    split
    · exact h.id x
    · rfl
  · intro x
    split
    · exact h.assignee_key x
    · rfl
  · intro x
    split
    · exact h.account_id x
    · rfl
  · intro x hx
    split at hx
    · exact h.running x hx
    · exact hx

theorem Rewritten.ids (h : Rewritten db db') :
    db'.tickets.map (·.id) = db.tickets.map (·.id) := by
  obtain ⟨f, hf, heq⟩ := h
  rw [heq, List.map_map]
  exact List.map_congr_left fun x _ => hf.id x

theorem Rewritten.ticket? (h : Rewritten db db') {x' : Ticket} (hx : db'.ticket? j = some x') :
    ∃ x, db.ticket? j = some x ∧ x'.assignee_key = x.assignee_key ∧
      x'.account_id = x.account_id := by
  obtain ⟨f, hf, heq⟩ := h
  unfold TicketDb.ticket? at hx
  rw [heq, List.find?_map] at hx
  obtain ⟨x, hfind, rfl⟩ := Option.map_eq_some_iff.mp hx
  have hsame : ((fun x : Ticket => decide (x.id = j)) ∘ f) =
      fun x : Ticket => decide (x.id = j) := by
    funext x
    simp only [Function.comp_apply, hf.id x]
  rw [hsame] at hfind
  exact ⟨x, hfind, hf.assignee_key x, hf.account_id x⟩

/-- No identity has more running tickets afterwards. -/
theorem Rewritten.countP_le (h : Rewritten db db') (key : String) :
    db'.tickets.countP (fun t => t.running && t.assignee_key = key) ≤
      db.tickets.countP fun t => t.running && t.assignee_key = key := by
  obtain ⟨f, hf, heq⟩ := h
  rw [heq, List.countP_map]
  apply List.countP_mono_left
  intro x _ hx
  simp only [Function.comp_apply, Bool.and_eq_true, decide_eq_true_eq] at hx ⊢
  exact ⟨hf.running x hx.1, hf.assignee_key x ▸ hx.2⟩

end Rewrite

/-! ## The dispatcher starts no ticket

Everything the dispatcher does besides the pump leaves the running tickets as they are, or parks
one. -/

section Dispatcher

variable {s t : DispatchState}

/-- A rewrite of columns that the queue does not read. -/
theorem NoBusier.of_eq {f : Ticket → Ticket} (hid : ∀ x, (f x).id = x.id)
    (hkey : ∀ x, (f x).assignee_key = x.assignee_key)
    (haccount : ∀ x, (f x).account_id = x.account_id)
    (hrunning : ∀ x, (f x).running = x.running) : NoBusier f :=
  ⟨hid, hkey, haccount, fun x h => hrunning x ▸ h⟩

theorem noBusier_stamp (source : DispatchSource) (now : Date) :
    NoBusier (Ticket.stamp source now) :=
  .of_eq (fun _ => rfl) (fun _ => rfl) (fun _ => rfl) fun _ => rfl

theorem noBusier_recordLive (since now : Date) : NoBusier (Ticket.recordLive since now) :=
  .of_eq (fun _ => rfl) (fun _ => rfl) (fun _ => rfl) fun _ => rfl

theorem noBusier_clearLive : NoBusier Ticket.clearLive :=
  .of_eq (fun _ => rfl) (fun _ => rfl) (fun _ => rfl) fun _ => rfl

theorem noBusier_restart : NoBusier Ticket.restart :=
  .of_eq (fun _ => rfl) (fun _ => rfl) (fun _ => rfl) fun _ => rfl

theorem noBusier_noteOutput (output : Date) : NoBusier (Ticket.noteOutput output) :=
  .of_eq (fun _ => rfl) (fun _ => rfl) (fun _ => rfl) fun _ => rfl

theorem noBusier_countResend (count : Nat) : NoBusier (Ticket.countResend count) :=
  .of_eq (fun _ => rfl) (fun _ => rfl) (fun _ => rfl) fun _ => rfl

theorem noBusier_park (liveQuiet : Bool) : NoBusier (Ticket.park liveQuiet) where
  id _ := rfl
  assignee_key _ := rfl
  account_id _ := rfl
  running x h := by
    -- a parked ticket does not run
    have hparked : (Ticket.park liveQuiet x).running = false := by
      simp [Ticket.running, Ticket.park, Ticket.isPending]
    rw [hparked] at h
    cases h

theorem dispatchStep_rewritten {o : DispatchOutside} {c : DispatchCall} {phase : DispatchPhase}
    (h : s.dispatchStep o c = some (t, phase)) : Rewritten s.db t.db := by
  unfold DispatchState.dispatchStep at h
  split at h
  · split at h
    · cases h
      exact .refl _
    · cases h
      exact .refl _
  · cases h
    exact .refl _
  · cases h
    exact .update (noBusier_stamp c.source s.clock)
  · cases h
    exact .refl _
  · cases h

theorem ackStep_rewritten {args : AckArgs} {phase phase' : AckPhase}
    (h : s.ackStep args phase = some (t, phase')) : Rewritten s.db t.db := by
  cases DispatchState.acks_of_ackStep h with
  | read | log => exact .refl _
  | record => exact .update (noBusier_recordLive _ _)
  | clear => exact .update noBusier_clearLive

theorem progressStep_rewritten {c : ProgressCall} {phase : ProgressPhase}
    (h : s.progressStep c = some (t, phase)) : Rewritten s.db t.db := by
  unfold DispatchState.progressStep at h
  split at h
  · split at h
    · cases h
      exact .refl _
    · cases h
      exact .refl _
  · cases h
    exact .update noBusier_restart
  · cases h

/-- A pass of the supervisor makes no identity busier. -/
theorem passStep_rewritten {o : PassOutside} {p p' : Pass} (h : s.passStep o p = some (t, p')) :
    Rewritten s.db t.db := by
  cases DispatchState.passes_of_passStep h with
  | read => exact .refl _
  | output => exact .update (noBusier_noteOutput _)
  | park => exact .update (noBusier_park _)
  | resend => exact .update (noBusier_countResend _)

/-- Whatever the dispatcher does, no further ticket of an identity runs. -/
theorem act_rewritten {a : DispatchAction} (hchange : ∀ id c, a ≠ .change id c)
    (h : s.act a = .ok t) : Rewritten s.db t.db := by
  cases DispatchState.acts_of_act h with
  | change => exact absurd rfl (hchange _ _)
  | dispatch hc hstep =>
    have hdb := dispatchStep_rewritten hstep
    exact hdb
  | ack hc hstep =>
    have hdb := ackStep_rewritten hstep
    exact hdb
  | progress hc hstep =>
    have hdb := progressStep_rewritten hstep
    exact hdb
  | pass hp hstep =>
    have hdb := passStep_rewritten hstep
    exact hdb
  | _ => exact .refl _

end Dispatcher

/-! ## What a pass remembers -/

/-- What a pass has read is still good for the tickets whose turn is to come. -/
structure PumpPass.Current (p : PumpPass) (s : PumpState) : Prop where
  owner : ∀ t ∈ p.rest, ∀ x, s.base.db.ticket? t.id = some x →
    x.assignee_key = t.assignee_key ∧ x.account_id = t.account_id
  capacity : p.phase ≠ .accounts → ∀ t ∈ p.rest, ∀ account,
    p.accounts.find? (·.id = t.account_id) = some account →
    account.capacity ≤ s.capacityOf t.account_id
  counts : p.counted → ∀ t ∈ p.rest,
    s.runningCount t.assignee_key ≤ countOf p.running t.assignee_key

structure PumpInv (s : PumpState) : Prop where
  ids : (s.base.db.tickets.map (·.id)).Nodup
  current : ∀ p ∈ s.passes, p.Current s
  claims : s.ClaimsBelowCapacity

section Steps

variable {s s' : PumpState} {p p' : PumpPass}

/-- What a pass remembers stays good when the rows, the capacities and the counts it has read get
    no worse. -/
theorem PumpPass.Current.mono (h : p.Current s)
    (hrows : ∀ t ∈ p.rest, ∀ x', s'.base.db.ticket? t.id = some x' →
      ∃ x, s.base.db.ticket? t.id = some x ∧ x'.assignee_key = x.assignee_key ∧
        x'.account_id = x.account_id)
    (hcapacity : p.phase ≠ .accounts → ∀ t ∈ p.rest,
      s.capacityOf t.account_id ≤ s'.capacityOf t.account_id)
    (hcounts : p.counted → ∀ t ∈ p.rest,
      s'.runningCount t.assignee_key ≤ s.runningCount t.assignee_key) :
    p.Current s' where
  owner t ht x' hx' := by
    obtain ⟨x, hx, hkey, haccount⟩ := hrows t ht x' hx'
    obtain ⟨hkey', haccount'⟩ := h.owner t ht x hx
    exact ⟨hkey.trans hkey', haccount.trans haccount'⟩
  capacity hphase t ht account hfind :=
    Nat.le_trans (h.capacity hphase t ht account hfind) (hcapacity hphase t ht)
  counts hcounted t ht := Nat.le_trans (hcounts hcounted t ht) (h.counts hcounted t ht)

theorem PumpPass.Current.rewritten (h : p.Current s) (hdb : Rewritten s.base.db s'.base.db)
    (haccounts : s'.accounts = s.accounts) : p.Current s' := by
  apply h.mono
  · intro t ht x' hx'
    exact hdb.ticket? hx'
  · intro hphase t ht
    unfold PumpState.capacityOf
    rw [haccounts]
  · intro hcounted t ht
    exact hdb.countP_le t.assignee_key

/-- Nor does a foreign step that leaves its tickets alone. -/
theorem PumpPass.Current.kept (h : p.Current s)
    (haccount : ∀ t ∈ p.rest, ∀ x', s'.base.db.ticket? t.id = some x' →
      ∀ x, s.base.db.ticket? t.id = some x → x'.account_id = x.account_id)
    (hkept : ∀ t ∈ p.rest, p.Kept t s s') : p.Current s' := by
  apply h.mono
  · intro t ht x' hx'
    have hkey := (hkept t ht).1
    rw [hx'] at hkey
    obtain ⟨x, hx, hsame⟩ := Option.map_eq_some_iff.mp hkey.symm
    exact ⟨x, hx, hsame.symm, haccount t ht x' hx' x hx⟩
  · intro hphase t ht
    exact (hkept t ht).2.2 hphase
  · intro hcounted t ht
    exact (hkept t ht).2.1 hcounted

/-! ## The statements of a pass -/

/-- A claim: the row is `todo`, and becomes `in_progress`. -/
theorem claim_eq_some {id : String} (h : s.claim id = some s') :
    ∃ row, s.base.db.ticket? id = some row ∧ row.status = .todo ∧
      s'.base.db = s.base.db.update id Ticket.start ∧ s'.accounts = s.accounts ∧
      s'.passes = s.passes ∧ ∃ c : ClaimRecord, s'.claims = c :: s.claims ∧
        c.running = s.runningCount row.assignee_key ∧ c.capacity = s.capacityOf row.account_id := by
  unfold PumpState.claim at h
  split at h
  · cases h
  · rename_i row hrow
    split at h
    · cases h
    · rename_i db hdb
      obtain ⟨rfl, r, hr, htodo⟩ := TicketDb.updateIf_eq_some hdb
      cases hrow.symm.trans hr
      cases h
      exact ⟨row, hrow, by simpa using htodo, rfl, rfl, rfl, _, rfl, rfl, rfl⟩

/-- A claim adds one running ticket to the identity of the row, and none to another. -/
theorem claim_runningCount {id : String} {row : Ticket}
    (hids : (s.base.db.tickets.map (·.id)).Nodup) (hrow : s.base.db.ticket? id = some row)
    (hdb : s'.base.db = s.base.db.update id Ticket.start) (key : String) :
    s'.runningCount key ≤ s.runningCount key + if key = row.assignee_key then 1 else 0 := by
  unfold PumpState.runningCount
  rw [hdb]
  split
  · exact countP_rewrite_le hids _
  · rename_i hkey
    unfold TicketDb.update
    rw [List.countP_map, Nat.add_zero]
    apply List.countP_mono_left
    intro x hx hcounted
    simp only [Function.comp_apply] at hcounted
    split at hcounted
    · rename_i hid
      -- the only row with the id is that of another identity
      have hfind := find?_key_eq_some hids hx hid
      cases hrow.symm.trans hfind
      have hsame : row.assignee_key = key := by
        simp only [Bool.and_eq_true, decide_eq_true_eq] at hcounted
        exact hcounted.2
      exact absurd hsame.symm hkey
    · exact hcounted

variable {o : PumpOutside} {t : Ticket} {account : Account}

/-- The turn of a ticket: nothing happens, or it is claimed with room left by the counts of the
    pass. -/
theorem turn_cases (h : s.turn o p t = (s', p')) :
    (s' = s ∧ p' = p) ∨
    ∃ account, p.accounts.find? (·.id = t.account_id) = some account ∧
      countOf p.running t.assignee_key < account.capacity ∧ s.claim t.id = some s' ∧
      p' = { p with
        running := setCount p.running t.assignee_key (countOf p.running t.assignee_key + 1)
        phase := .claimed t.start } := by
  unfold PumpState.turn at h
  split at h
  · cases h
    exact .inl ⟨rfl, rfl⟩
  · rename_i account hfind
    split at h
    · cases h
      exact .inl ⟨rfl, rfl⟩
    · dsimp only at h
      split at h
      · cases h
        exact .inl ⟨rfl, rfl⟩
      · rename_i hroom
        split at h
        · cases h
          exact .inl ⟨rfl, rfl⟩
        · split at h
          · cases h
            exact .inl ⟨rfl, rfl⟩
          · split at h
            · cases h
              exact .inl ⟨rfl, rfl⟩
            · rename_i s'' hclaim
              cases h
              exact .inr ⟨account, hfind, Nat.lt_of_not_le hroom, hclaim, rfl⟩

/-- A claim with room left by the counts of the pass is made below the capacity, and the pass has
    counted it. -/
theorem PumpPass.Current.claim {rest : List Ticket}
    (h : p.Current s) (hids : (s.base.db.tickets.map (·.id)).Nodup) (hrest : p.rest = t :: rest)
    (hphase : p.phase = .idle) (hfind : p.accounts.find? (·.id = t.account_id) = some account)
    (hroom : countOf p.running t.assignee_key < account.capacity)
    (hclaim : s.claim t.id = some s') (x : Ticket) :
    ({ p with
      rest
      running := setCount p.running t.assignee_key (countOf p.running t.assignee_key + 1)
      phase := .claimed x } : PumpPass).Current s' ∧
    ∃ c, s'.claims = c :: s.claims ∧ c.running < c.capacity := by
  have hcounted : p.counted = true := by
    simp [PumpPass.counted, hphase]
  have haccounts : p.phase ≠ .accounts := by
    simp [hphase]
  have ht : t ∈ p.rest := by
    rw [hrest]
    exact List.mem_cons_self
  have hsub : ∀ u ∈ rest, u ∈ p.rest := by
    intro u hu
    rw [hrest]
    exact List.mem_cons_of_mem _ hu
  obtain ⟨row, hrow, -, hdb, hsame, -, c, hc, hrunning, hcap⟩ := claim_eq_some hclaim
  obtain ⟨hkey, haccount⟩ := h.owner t ht row hrow
  constructor
  · constructor
    · intro u hu y hy
      rw [hdb] at hy
      obtain ⟨r, hr, ⟨-, rfl⟩ | ⟨-, rfl⟩⟩ := TicketDb.ticket?_of_update Ticket.start_id hy
      · exact h.owner u (hsub u hu) r hr
      · exact h.owner u (hsub u hu) y hr
    · intro _ u hu
      unfold PumpState.capacityOf
      rw [hsame]
      exact h.capacity haccounts u (hsub u hu)
    · intro _ u hu
      have hle := claim_runningCount hids hrow hdb u.assignee_key
      have hbefore := h.counts hcounted u (hsub u hu)
      rw [hkey] at hle
      rw [countOf_setCount]
      by_cases hu' : u.assignee_key = t.assignee_key
      · rw [if_pos hu'] at hle ⊢
        rw [hu'] at hle hbefore ⊢
        omega
      · rw [if_neg hu'] at hle ⊢
        omega
  · refine ⟨c, hc, ?_⟩
    have hcount := h.counts hcounted t ht
    have hcapacity := h.capacity haccounts t ht account hfind
    rw [hrunning, hcap, hkey, haccount]
    omega

/-- A pass that has counted keeps what it has read to its end. -/
theorem PumpPass.Current.of_counted (h : p.Current s) (hcounted : p.counted = true)
    (hrest : ∀ u ∈ p'.rest, u ∈ p.rest) (haccounts : p'.accounts = p.accounts)
    (hrunning : p'.running = p.running) : p'.Current s where
  owner u hu := h.owner u (hrest u hu)
  capacity _ u hu := by
    rw [haccounts]
    apply h.capacity _ u (hrest u hu)
    intro hphase
    simp [PumpPass.counted, hphase] at hcounted
  counts _ u hu := by
    rw [hrunning]
    exact h.counts hcounted u (hrest u hu)

theorem capacity_of_accountsById {accountId : String} {ids : List String}
    (h : (accountsById s.accounts ids).find? (·.id = accountId) = some account) :
    s.capacityOf accountId = account.capacity := by
  have hid : account.id = accountId := by
    simpa using List.find?_some h
  have hmem := List.mem_of_find?_eq_some h
  unfold accountsById at h hmem
  have hread := (List.mem_filter.mp hmem).2
  rw [List.find?_filter] at h
  have hfind : s.accounts.find? (·.id = accountId) = some account := by
    rw [← h]
    congr 1
    funext a
    by_cases ha : a.id = accountId
    · have hin : ids.contains a.id = true := by
        rw [ha, ← hid]
        exact hread
      simp [ha, ← hin]
    · simp [ha]
  unfold PumpState.capacityOf
  rw [hfind]
  rfl

/-- The tickets of a sorted queue are those of the table. -/
theorem mem_queue {filter : PumpFilter}
    (h : t ∈ ((s.base.db.tickets.filter (Ticket.queued filter)).take 500).insertionSort
      fun a b => queueOrder a b ≤ 0) : t ∈ s.base.db.tickets := by
  have htake := (List.mem_insertionSort _).mp h
  exact List.mem_of_mem_filter (List.mem_of_mem_take htake)

/-- After the read of the queue, the accounts are next, or there is nothing to do. -/
theorem queue_phase (filter : PumpFilter) :
    let queued := (s.base.db.tickets.filter (Ticket.queued filter)).take 500
    let phase : PumpPhase := if queued.isEmpty then .returned else .accounts
    (phase = .accounts ∧ queued ≠ []) ∨
      (phase = .returned ∧ ∀ t, t ∉ queued.insertionSort fun a b => queueOrder a b ≤ 0) := by
  intro queued phase
  by_cases hempty : queued.isEmpty = true
  · right
    refine ⟨if_pos hempty, ?_⟩
    intro t ht
    rw [List.mem_insertionSort, List.isEmpty_iff.mp hempty] at ht
    cases ht
  · left
    exact ⟨if_neg hempty, by simpa using hempty⟩

/-- A statement of a pass: what it remembers is good for the new state, and it claims below the
    capacity. -/
theorem PumpPass.Current.passStep (h : p.Current s)
    (hids : (s.base.db.tickets.map (·.id)).Nodup) (hstep : s.passStep o p = some (s', p')) :
    p'.Current s' ∧ s'.passes = s.passes ∧
    (s'.base.db = s.base.db ∨ ∃ id, s'.base.db = s.base.db.update id Ticket.start) ∧
    ∀ c ∈ s'.claims, c ∈ s.claims ∨ c.running < c.capacity := by
  have hclaims : ∀ c ∈ s.claims, c ∈ s.claims ∨ c.running < c.capacity := fun c hc => .inl hc
  unfold PumpState.passStep at hstep
  split at hstep
  · rename_i hphase
    cases hstep
    have hcounted : p.counted = true := by
      simp [PumpPass.counted, hphase]
    exact ⟨h.of_counted hcounted (fun _ hu => hu) rfl rfl, rfl, .inl rfl, hclaims⟩
  · cases hstep
    refine ⟨⟨?_, ?_, ?_⟩, rfl, .inl rfl, hclaims⟩
    · intro t ht x hx
      -- the row of a ticket that was just read is that ticket
      have hrow := find?_key_eq_some hids (mem_queue ht) rfl
      cases hx.symm.trans hrow
      exact ⟨rfl, rfl⟩
    · intro hphase t ht
      obtain ⟨hphase', -⟩ | ⟨hphase', hnone⟩ := queue_phase (s := s) p.filter
      · rw [hphase'] at hphase
        exact absurd rfl hphase
      · exact absurd ht (hnone t)
    · intro hcounted t ht
      obtain ⟨hphase', -⟩ | ⟨hphase', hnone⟩ := queue_phase (s := s) p.filter
      · simp only [PumpPass.counted, hphase'] at hcounted
        simp at hcounted
      · exact absurd ht (hnone t)
  · cases hstep
    refine ⟨⟨h.owner, ?_, ?_⟩, rfl, .inl rfl, hclaims⟩
    · intro _ t ht account hfind
      exact (capacity_of_accountsById hfind).ge
    · intro hcounted
      simp [PumpPass.counted] at hcounted
  · rename_i hphase
    cases hstep
    refine ⟨⟨h.owner, fun _ => h.capacity (by simp [hphase]), ?_⟩, rfl, .inl rfl, hclaims⟩
    intro _ t ht
    exact (countOf_runningCounts (List.mem_map_of_mem ht)).ge
  · rename_i hphase
    have hcounted : p.counted = true := by
      simp [PumpPass.counted, hphase]
    split at hstep
    · cases hstep
      exact ⟨h.of_counted hcounted (fun _ hu => hu) rfl rfl, rfl, .inl rfl, hclaims⟩
    · rename_i t rest hrest
      obtain ⟨rfl, rfl⟩ | ⟨account, hfind, hroom, hclaim, rfl⟩ := turn_cases (Option.some.inj hstep)
      · have hsub : ∀ u ∈ rest, u ∈ p.rest := by
          intro u hu
          rw [hrest]
          exact List.mem_cons_of_mem _ hu
        exact ⟨h.of_counted hcounted hsub rfl rfl, rfl, .inl rfl, hclaims⟩
      · obtain ⟨hcurrent, c, hc, hlt⟩ := h.claim hids hrest hphase hfind hroom hclaim t.start
        obtain ⟨row, -, -, hdb, -, hpasses, -⟩ := claim_eq_some hclaim
        refine ⟨hcurrent, hpasses, .inr ⟨t.id, hdb⟩, ?_⟩
        intro d hd
        rw [hc] at hd
        obtain rfl | hd := List.mem_cons.mp hd
        · exact .inr hlt
        · exact .inl hd
  · rename_i hphase
    cases hstep
    have hcounted : p.counted = true := by
      simp [PumpPass.counted, hphase]
    have hwaiting : ({ p with phase := .waiting s.base.dispatches.length } : PumpPass).Current s :=
      h.of_counted hcounted (fun _ hu => hu) rfl rfl
    exact ⟨hwaiting.rewritten (.refl _) rfl, rfl, .inl rfl, hclaims⟩
  · rename_i hphase
    split at hstep
    · cases hstep
      have hcounted : p.counted = true := by
        simp [PumpPass.counted, hphase]
      exact ⟨h.of_counted hcounted (fun _ hu => hu) rfl rfl, rfl, .inl rfl, hclaims⟩
    · cases hstep
  · cases hstep

/-! ## Every step -/

theorem PumpState.Undisturbed.kept {a : PumpAction} (h : s.Undisturbed a s') {i : Nat}
    (hp : s.passes[i]? = some p) (hforeign : a.foreign i = true) :
    ∀ t ∈ p.rest, p.Kept t s s' :=
  h (p, i) (List.mem_zipIdx_iff_getElem?.mpr hp) hforeign

theorem PumpInv.other {a : DispatchAction} {base : DispatchState} (hinv : PumpInv s)
    (h : s.base.act a = .ok base) (hkept : s.Undisturbed (.other a) { s with base }) :
    PumpInv { s with base } := by
  by_cases hchange : ∃ id c, a = .change id c
  · obtain ⟨id, c, rfl⟩ := hchange
    cases DispatchState.acts_of_act h with
    | change hx =>
      have hid := TicketChange.apply_id c s.base.clock
      refine ⟨?_, ?_, hinv.claims⟩
      · show ((s.base.db.update id (c.apply s.base.clock)).tickets.map (·.id)).Nodup
        rw [TicketDb.ids_update hid]
        exact hinv.ids
      · intro p hp
        obtain ⟨i, hi⟩ := List.mem_iff_getElem?.mp hp
        apply (hinv.current p hp).kept _ (hkept.kept hi rfl)
        intro t ht x' hx' x hx
        obtain ⟨r, hr, hcases⟩ := TicketDb.ticket?_of_update hid hx'
        cases hx.symm.trans hr
        obtain ⟨-, rfl⟩ | ⟨-, rfl⟩ := hcases
        · exact (c.apply_kept s.base.clock x).2.1
        · rfl
  · have hdb := act_rewritten (fun id c heq => hchange ⟨id, c, heq⟩) h
    refine ⟨?_, ?_, hinv.claims⟩
    · show (base.db.tickets.map (·.id)).Nodup
      rw [hdb.ids]
      exact hinv.ids
    · intro p hp
      exact (hinv.current p hp).rewritten hdb rfl

theorem nodup_ids_snoc {db : TicketDb} (hids : (db.tickets.map (·.id)).Nodup)
    (hnew : db.ticket? t.id = none) : ((db.tickets ++ [t]).map (·.id)).Nodup := by
  rw [List.map_append, List.map_singleton]
  apply List.Nodup.append hids (List.nodup_singleton _)
  rw [List.disjoint_singleton]
  intro hmem
  obtain ⟨x, hx, hid⟩ := List.mem_map.mp hmem
  have hnone := List.find?_eq_none.mp hnew x hx
  simp [hid] at hnone

theorem PumpInv.create (hinv : PumpInv s) (hnew : s.base.db.ticket? t.id = none)
    (hs' : s' = { s with base :=
      { s.base with db := { s.base.db with tickets := s.base.db.tickets ++ [t] } } })
    (hkept : s.Undisturbed (.create t) s') : PumpInv s' := by
  have hdb : s'.base.db.tickets = s.base.db.tickets ++ [t] := by
    rw [hs']
  refine ⟨?_, ?_, ?_⟩
  · rw [hdb]
    exact nodup_ids_snoc hinv.ids hnew
  · intro p hp
    have hp' : p ∈ s.passes := by
      rwa [hs'] at hp
    obtain ⟨i, hi⟩ := List.mem_iff_getElem?.mp hp'
    apply (hinv.current p hp').kept _ (hkept.kept hi rfl)
    intro u hu x' hx' x hx
    -- the old row comes first
    unfold TicketDb.ticket? at hx hx'
    rw [hdb, List.find?_append, hx] at hx'
    rw [Option.some.inj hx']
  · rw [hs']
    exact hinv.claims

theorem PumpInv.setAccount (hinv : PumpInv s)
    (hs' : s' = { s with accounts := account :: s.accounts.filter (·.id ≠ account.id) })
    (hkept : s.Undisturbed (.setAccount account) s') : PumpInv s' := by
  subst hs'
  refine ⟨hinv.ids, ?_, hinv.claims⟩
  intro p hp
  obtain ⟨i, hi⟩ := List.mem_iff_getElem?.mp hp
  apply (hinv.current p hp).kept _ (hkept.kept hi rfl)
  intro t ht x' hx' x hx
  rw [Option.some.inj (hx.symm.trans hx')]

/-- A statement of a pass keeps within the capacity it has read. -/
theorem PumpInv.pass {i : Nat} (hinv : PumpInv s)
    (hp : s.passes[i]? = some p) (hstep : s.passStep o p = some (s', p'))
    (hkept : s.Undisturbed (.pass i o) { s' with passes := s'.passes.set i p' }) :
    PumpInv { s' with passes := s'.passes.set i p' } := by
  have hcurrent := hinv.current p (List.mem_of_getElem? hp)
  obtain ⟨hcurrent', hpasses, hdb, hclaims⟩ := hcurrent.passStep hinv.ids hstep
  refine ⟨?_, ?_, ?_⟩
  · show (s'.base.db.tickets.map (·.id)).Nodup
    obtain hdb | ⟨id, hdb⟩ := hdb
    · rw [hdb]
      exact hinv.ids
    · rw [hdb, TicketDb.ids_update Ticket.start_id]
      exact hinv.ids
  · intro q hq
    obtain ⟨j, hj⟩ := List.mem_iff_getElem?.mp hq
    obtain ⟨-, rfl⟩ | ⟨hij, hj⟩ := getElem?_set_cases hj
    · exact hcurrent'.rewritten (.refl _) rfl
    · -- for the other passes the statement is a foreign step
      rw [hpasses] at hj
      apply (hinv.current q (List.mem_of_getElem? hj)).kept
      · intro t ht x' hx' x hx
        change s'.base.db.ticket? t.id = some x' at hx'
        obtain hdb | ⟨id, hdb⟩ := hdb
        · rw [hdb, hx] at hx'
          rw [Option.some.inj hx']
        · rw [hdb] at hx'
          obtain ⟨r, hr, hcases⟩ := TicketDb.ticket?_of_update Ticket.start_id hx'
          cases hx.symm.trans hr
          obtain ⟨-, rfl⟩ | ⟨-, rfl⟩ := hcases
          · rfl
          · rfl
      · exact hkept.kept hj (by simpa [PumpAction.foreign] using fun h => hij h.symm)
  · intro c hc
    obtain hold | hlt := hclaims c hc
    · exact hinv.claims c hold
    · exact hlt

/-- Each undisturbed step keeps the capacity. -/
theorem PumpInv.act {a : PumpAction} (hinv : PumpInv s) (h : s.act a = .ok s')
    (hkept : s.Undisturbed a s') : PumpInv s' := by
  cases a with
  | other a =>
    simp only [PumpState.act] at h
    split at h
    · cases h
    · rename_i base hbase
      cases h
      exact hinv.other hbase hkept
  | create t =>
    simp only [PumpState.act] at h
    split at h
    · cases h
    · rename_i hnew
      exact hinv.create (by simpa using hnew) (Except.ok.inj h).symm hkept
  | setAccount account => exact hinv.setAccount (Except.ok.inj h).symm hkept
  | pump process filter =>
    simp only [PumpState.act] at h
    split at h
    · cases h
    · cases h
      refine ⟨hinv.ids, ?_, hinv.claims⟩
      intro p hp
      obtain hold | hnew := List.mem_append.mp hp
      · exact (hinv.current p hold).rewritten (.refl _) rfl
      · -- a new pass has read nothing
        obtain rfl := List.mem_singleton.mp hnew
        refine ⟨?_, ?_, ?_⟩
        · simp
        · simp
        · simp
  | pass i o =>
    simp only [PumpState.act] at h
    split at h
    · cases h
    · rename_i p hp
      split at h
      · cases h
      · rename_i t p' hstep
        cases h
        exact hinv.pass hp hstep hkept

theorem pumpInv_reachable (h : undisturbedRuns.Reachable s) : PumpInv s := by
  apply h.invariant
  · rintro s ⟨hids, hpasses, hclaims⟩
    refine ⟨hids, ?_, ?_⟩
    · intro p hp
      rw [hpasses] at hp
      cases hp
    · intro c hc
      rw [hclaims] at hc
      cases hc
  · rintro s a s' - hinv ⟨hstep, hkept⟩
    exact hinv.act hstep hkept

end Steps

/-! ## Main result -/

/-- In every run in which nobody disturbs a pass (while it has tickets of an identity left, nobody
    else starts or unpends a ticket of the identity, reassigns one of these tickets or lowers the
    capacity), the pump claims a ticket only while its identity has room. -/
theorem claims_below_capacity {s : PumpState} (h : undisturbedRuns.Reachable s) :
    s.ClaimsBelowCapacity :=
  (pumpInv_reachable h).claims

/-- Two identities of one account with room for one ticket each: `a` has a ticket in the queue, `k`
    has one in the queue and one in the backlog. -/
def twoIdentities : PumpState where
  base := {
    db := {
      tickets := [
        { id := "Ta", status := .todo, account_id := "A", assignee_key := "a", priority := "high",
          assignee := some { manager_agent_id := "H", identityKey := "a" } },
        { id := "T0", status := .backlog, account_id := "A", assignee_key := "k",
          assignee := some { manager_agent_id := "H", identityKey := "k" } },
        { id := "T1", status := .todo, account_id := "A", assignee_key := "k",
          assignee := some { manager_agent_id := "H", identityKey := "k" } }]
      links := [] }
    log := []
    clock := 0
    nackRetryAt := []
    outputs := []
    dispatches := []
    acks := []
    handlers := []
    passes := []
    history := [] }
  accounts := [{ id := "A" }]
  passes := []
  claims := []

theorem twoIdentities_init : pumpSystem.init twoIdentities :=
  ⟨by decide, rfl, rfl⟩

/-- A pass up to the dispatch of the first ticket. -/
def pumpFirst : List PumpAction :=
  [.pump 0 {}, .pass 0 {}, .pass 0 {}, .pass 0 {}, .pass 0 {}, .pass 0 {}, .pass 0 {}]

/-- The host of the first ticket answers, and the second gets its turn. -/
def pumpSecond : List PumpAction :=
  let o : DispatchOutside :=
    { host := some { account_id := "A" }, account := some { id := "A" }, triggerId := "t1" }
  [.other (.dispatch 0 o), .other (.dispatch 0 o), .other (.dispatch 0 o), .other (.dispatch 0 o),
    .pass 0 {}, .pass 0 {}]

/-- A step that meets the condition. -/
def PumpState.actUndisturbed (s : PumpState) (a : PumpAction) : Except String PumpState :=
  match s.act a with
  | .error e => .error e
  | .ok t => if s.Undisturbed a t then .ok t else .error "disturbed"

/-- Nobody interferes: both tickets are started while nothing of their identities runs. -/
theorem claims_below_capacity_twoIdentities :
    ∃ s, undisturbedRuns.Reachable s ∧
      s.claims = [
        { ticketId := "T1", assignee_key := "k", running := 0, capacity := 1 },
        { ticketId := "Ta", assignee_key := "a", running := 0, capacity := 1 }] ∧
      s.ClaimsBelowCapacity := by
  have hrun : ∀ s a t, PumpState.actUndisturbed s a = .ok t → undisturbedRuns.step s a t := by
    intro s a t h
    unfold PumpState.actUndisturbed at h
    split at h
    · cases h
    · rename_i t' hact
      split at h
      · rename_i hkept
        cases h
        exact ⟨hact, hkept⟩
      · cases h
  obtain ⟨s, hpath, hs⟩ := Transition.exists_path_of_run hrun twoIdentities
    (pumpFirst ++ pumpSecond)
    (fun s => s.claims = [
      { ticketId := "T1", assignee_key := "k", running := 0, capacity := 1 },
      { ticketId := "Ta", assignee_key := "a", running := 0, capacity := 1 }])
    (by decide +kernel)
  have hreach : undisturbedRuns.Reachable s := .path (.init twoIdentities_init) hpath
  exact ⟨s, hreach, of_decide_eq_true hs, claims_below_capacity hreach⟩

/-- While the pass waits for the host of the first ticket, the ticket in the backlog is moved to
    `in_progress` by hand. The pass then starts the second ticket of the same identity, which has
    room for one. -/
theorem not_always_claims_below_capacity :
    ¬ ∀ s, pumpSystem.Reachable s → s.ClaimsBelowCapacity := by
  intro hall
  have hrun : ∀ s a t, PumpState.act s a = .ok t → pumpSystem.step s a t := fun _ _ _ h => h
  obtain ⟨s, hpath, hs⟩ := Transition.exists_path_of_run hrun twoIdentities
    (pumpFirst ++ [.other (.change "T0" (.move .in_progress))] ++ pumpSecond)
    (fun s => s.claims = [
      { ticketId := "T1", assignee_key := "k", running := 1, capacity := 1 },
      { ticketId := "Ta", assignee_key := "a", running := 0, capacity := 1 }])
    (by decide +kernel)
  have hclaims := hall s (.path (.init twoIdentities_init) hpath)
  unfold PumpState.ClaimsBelowCapacity at hclaims
  rw [of_decide_eq_true hs] at hclaims
  exact absurd hclaims (by decide)

end WorkflowBoard.Tickets
