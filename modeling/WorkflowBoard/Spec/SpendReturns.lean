import WorkflowBoard.Spec.SpendLedger

/-!
# Unused-budget returns

A return is claimed in one transaction and finished in another, with the provider call
between them; a person may reconcile it meanwhile and the provider's answer may come
after that. The operation id ties the two transactions together: `finishReturn` writes
its refund row only while its own operation is open, and closes it in the same
transaction.
-/

namespace WorkflowBoard.Marketing

variable {env : SpendEnv} {db db' : Db} {id : Uuid} {row row' : SpendRequest}
  {rows : List LedgerEntry} {ops : List Uuid} {op : ReturnOperation}

/-- The ledger row was written by this return operation. -/
def returnedBy (operation : Uuid) (e : LedgerEntry) : Bool :=
  match e.note with
  | .returned _ o => o == operation
  | _ => false

variable {w : LedgerWrite} {j : Uuid}

theorem returnedBy_entry {o : Uuid} {base : LedgerBase} {actor : MarketingActor}
    (h : returnedBy o (base.entry actor w) = true) : ∃ note, w.note = .returned note o := by
  simp only [returnedBy, LedgerBase.entry] at h
  split at h
  · rename_i note o' hnote
    exact ⟨note, by rw [hnote, eq_of_beq h]⟩
  · cases h

theorem releaseWrites_note {t : Totals} {note : LedgerNote}
    (h : w ∈ releaseWrites t note) : w.note = note := by
  unfold releaseWrites at h
  split at h
  · rw [List.mem_singleton.mp h]
  · cases h

/-- A settlement writes no row of a return operation. -/
theorem settlement_note {to_ : Settlement} {t : Totals} {note : String}
    {o : Uuid} (h : w ∈ to_.writes row t) : w.note ≠ .returned note o := by
  cases to_ with
  | paid ref =>
    rcases List.mem_append.mp h with h | h
    · rw [releaseWrites_note h]
      exact nofun
    · rw [List.mem_singleton.mp h]
      dsimp only
      split <;> exact nofun
  | failed =>
    rw [releaseWrites_note h]
    exact nofun

/-- Only the completion of an open return writes a row of a return operation: one refund of
    the operation's amount, and the return is closed with it. -/
theorem SpendMove.returned {o : Uuid} {e : LedgerEntry} (h : SpendMove db id row row' rows ops)
    (he : e ∈ rows) (ho : returnedBy o e = true) :
    ∃ op, row.return_operation = some op ∧ op.id = o ∧ ReturnOpen row ∧ rows = [e] ∧
      e.kind = .refund ∧ e.amount_minor = op.amount_minor ∧ e.spend_request_id = id ∧
      ¬ ReturnOpen row' := by
  cases h with
  | completeReturn op hopen hop =>
    obtain rfl := List.mem_singleton.mp he
    refine ⟨op, hop, by simpa [returnedBy, LedgerBase.entry] using ho, hopen, rfl, rfl, rfl, rfl,
      ?_⟩
    rintro (h | h) <;> cases h
  | finalApproval | refund =>
    obtain rfl := List.mem_singleton.mp he
    cases ho
  | cancelApproved =>
    obtain ⟨w, hw, rfl⟩ := List.mem_map.mp he
    obtain ⟨note, hnote⟩ := returnedBy_entry ho
    rw [releaseWrites_note hw] at hnote
    cases hnote
  | settle to_ =>
    obtain ⟨w, hw, rfl⟩ := List.mem_map.mp he
    obtain ⟨note, hnote⟩ := returnedBy_entry ho
    exact absurd hnote (settlement_note hw)
  | firstApproval | close | claim | toUnknown | startReturn | closeReturn => cases he

/-- A move keeps the return operation of its request or starts one under a fresh id. -/
theorem SpendMove.operation (h : SpendMove db id row row' rows ops) :
    (ops = [] ∧ row'.return_operation = row.return_operation ∧
      (ReturnOpen row' → ReturnOpen row)) ∨
    ∃ op, ops = [op.id] ∧ rows = [] ∧ row'.return_operation = some op ∧ op.id ∉ db.operations := by
  cases h with
  | startReturn op key _ _ hfresh => exact .inr ⟨op, rfl, rfl, rfl, hfresh⟩
  | settle to_ => cases to_ <;> exact .inl ⟨rfl, rfl, fun h => h⟩
  | completeReturn op hopen => exact .inl ⟨rfl, rfl, fun _ => hopen⟩
  | closeReturn status hopen => exact .inl ⟨rfl, rfl, fun _ => hopen⟩
  | _ => exact .inl ⟨rfl, rfl, fun h => h⟩

/-! ## Issued ids -/

/-- Operation ids in the ledger and in the request table have been issued. -/
structure ReturnInv (db : Db) : Prop where
  ledger : ∀ e ∈ db.ledger, ∀ o, returnedBy o e = true → o ∈ db.operations
  requests : ∀ i r op, db.requests.lookup i = some r → r.return_operation = some op →
    op.id ∈ db.operations

theorem ReturnInv.effect (hinv : ReturnInv db) (h : SpendEffect db db') : ReturnInv db' := by
  cases h with
  | idle hreq hled hops =>
    exact ⟨by rw [hled, hops]; exact hinv.ledger, by rw [hreq, hops]; exact hinv.requests⟩
  | create id row _ hnew hstored hled hops =>
    refine ⟨by rw [hled, hops]; exact hinv.ledger, ?_⟩
    intro i r op hr hop
    rw [hops]
    rw [hstored i] at hr
    split at hr
    · cases hr
      exact nomatch hnew.2.2.2.2.symm.trans hop
    · exact hinv.requests i r op hr hop
  | move id row row' rows ops hrow hmove hstored hled hops =>
    refine ⟨?_, ?_⟩
    · intro e he o ho
      rw [hops]
      refine List.mem_append_right _ ?_
      rw [hled] at he
      rcases List.mem_append.mp he with he | he
      · exact hinv.ledger e he o ho
      · obtain ⟨op, hop, rfl, -⟩ := hmove.returned he ho
        exact hinv.requests id row op hrow hop
    · intro i r op hr hop
      rw [hops]
      rw [hstored i] at hr
      split at hr
      · cases hr
        rcases hmove.operation with ⟨rfl, hsame, -⟩ | ⟨op', rfl, -, hnew, -⟩
        · exact hinv.requests id row op hrow (hsame ▸ hop)
        · cases hnew.symm.trans hop
          exact List.mem_append_left _ (List.mem_singleton_self _)
      · exact List.mem_append_right _ (hinv.requests i r op hr hop)

/-- Ids in the ledger and in the request table have been issued, in every reachable state. -/
theorem returnInv_reachable (h : (spendSystem env).Reachable db) : ReturnInv db := by
  refine h.invariant (fun db₀ hinit => ?_) fun s a s' _ hinv hstep =>
    hinv.effect (spendSystem_effect hstep)
  obtain ⟨hreq, hled, -⟩ := hinit
  constructor <;> simp [hreq, hled]

/-! ## One operation over a run -/

/-- What holds of the operation `op`, started on the request `id`, from its start on. -/
structure Tracked (id : Uuid) (op : ReturnOperation) (db : Db) : Prop where
  issued : op.id ∈ db.operations
  unique : ∀ i r op', db.requests.lookup i = some r → r.return_operation = some op' →
    op'.id = op.id → i = id ∧ op' = op
  refunds : ∀ e ∈ db.ledger, returnedBy op.id e = true →
    e.kind = .refund ∧ e.amount_minor = op.amount_minor ∧ e.spend_request_id = id
  once : (db.ledger.filter (returnedBy op.id)).length ≤ 1
  unfinished : ∀ r, db.requests.lookup id = some r → r.return_operation = some op →
    ReturnOpen r → db.ledger.filter (returnedBy op.id) = []

section

variable (ht : Tracked id op db)
include ht

section

variable (hrow : db.requests.lookup j = some row)
include hrow

section

variable (hmove : SpendMove db j row row' rows ops)
include hmove

/-- A row of `op` in a move means that the move completes `op`. -/
theorem Tracked.completes {e : LedgerEntry} (he : e ∈ rows) (ho : returnedBy op.id e = true) :
    j = id ∧ row.return_operation = some op ∧ ReturnOpen row ∧ rows = [e] ∧
      e.kind = .refund ∧ e.amount_minor = op.amount_minor ∧ e.spend_request_id = id ∧
      ¬ ReturnOpen row' := by
  obtain ⟨op₁, hop₁, hid, hopen, hrows, hkind, hamount, hreq, hclosed⟩ := hmove.returned he ho
  obtain ⟨rfl, rfl⟩ := ht.unique j row op₁ hrow hop₁ hid
  exact ⟨rfl, hop₁, hopen, hrows, hkind, hamount, hreq, hclosed⟩

theorem Tracked.once_move :
    ((db.ledger ++ rows).filter (returnedBy op.id)).length ≤ 1 := by
  rw [List.filter_append]
  by_cases hnil : rows.filter (returnedBy op.id) = []
  · simpa [hnil] using ht.once
  · obtain ⟨e, he⟩ := List.exists_mem_of_ne_nil _ hnil
    obtain ⟨he, ho⟩ := List.mem_filter.mp he
    obtain ⟨rfl, hop, hopen, rfl, -⟩ := ht.completes hrow hmove he ho
    rw [ht.unfinished row hrow hop hopen]
    simp [ho]

theorem Tracked.unfinished_move
    (hstored : Stored db db' j row') {r : SpendRequest} (hr : db'.requests.lookup id = some r)
    (hop : r.return_operation = some op) (hopen : ReturnOpen r) :
    (db.ledger ++ rows).filter (returnedBy op.id) = [] := by
  rw [hstored id] at hr
  -- No row of the move can be a row of `op`: it would close `op`.
  have hrows : rows.filter (returnedBy op.id) = [] := by
    rw [List.filter_eq_nil_iff]
    intro e he ho
    obtain ⟨rfl, -, -, -, -, -, -, hclosed⟩ := ht.completes hrow hmove he ho
    rw [if_pos rfl] at hr
    exact hclosed (Option.some.inj hr ▸ hopen)
  rw [List.filter_append, hrows, List.append_nil]
  split at hr
  · rename_i hj
    subst hj
    cases hr
    rcases hmove.operation with ⟨-, hsame, hback⟩ | ⟨op', -, -, hnew, hfresh⟩
    · exact ht.unfinished row hrow (hsame ▸ hop) (hback hopen)
    · cases hnew.symm.trans hop
      exact absurd ht.issued hfresh
  · exact ht.unfinished r hr hop hopen

/-- A move of any request keeps what is tracked of `op`. -/
theorem Tracked.move (hstored : Stored db db' j row') (hled : db'.ledger = db.ledger ++ rows)
    (hops : db'.operations = ops ++ db.operations) : Tracked id op db' := by
  refine ⟨?_, ?_, ?_, ?_, ?_⟩
  · rw [hops]
    exact List.mem_append_right _ ht.issued
  · intro i r op' hr hop' hid
    rw [hstored i] at hr
    split at hr
    · rename_i hi
      subst hi
      cases hr
      rcases hmove.operation with ⟨-, hsame, -⟩ | ⟨op'', -, -, hnew, hfresh⟩
      · exact ht.unique i row op' hrow (hsame ▸ hop') hid
      · cases hnew.symm.trans hop'
        exact absurd (hid ▸ ht.issued) hfresh
    · exact ht.unique i r op' hr hop' hid
  · intro e he ho
    rw [hled] at he
    rcases List.mem_append.mp he with he | he
    · exact ht.refunds e he ho
    · obtain ⟨-, -, -, -, hkind, hamount, hreq, -⟩ := ht.completes hrow hmove he ho
      exact ⟨hkind, hamount, hreq⟩
  · rw [hled]
    exact ht.once_move hrow hmove
  · intro r hr hop hopen
    rw [hled]
    exact ht.unfinished_move hrow hmove hstored hr hop hopen

end

end

theorem Tracked.effect (h : SpendEffect db db') : Tracked id op db' := by
  cases h with
  | idle hreq hled hops =>
    refine ⟨?_, ?_, ?_, ?_, ?_⟩
    · rw [hops]; exact ht.issued
    · rw [hreq]; exact ht.unique
    · rw [hled]; exact ht.refunds
    · rw [hled]; exact ht.once
    · rw [hreq, hled]; exact ht.unfinished
  | create i row hfresh hnew hstored hled hops =>
    have hnone : row.return_operation = none := hnew.2.2.2.2
    refine ⟨by rw [hops]; exact ht.issued, ?_, by rw [hled]; exact ht.refunds,
      by rw [hled]; exact ht.once, ?_⟩
    · intro j r op' hr hop' hid
      rw [hstored j] at hr
      split at hr
      · cases hr
        exact nomatch hnone.symm.trans hop'
      · exact ht.unique j r op' hr hop' hid
    · intro r hr hop hopen
      rw [hled]
      rw [hstored id] at hr
      split at hr
      · cases hr
        exact nomatch hnone.symm.trans hop
      · exact ht.unfinished r hr hop hopen
  | move j row row' rows ops hrow hmove hstored hled hops =>
    exact ht.move hrow hmove hstored hled hops

end

/-- The operation a return starts is tracked from its first state on. -/
theorem tracked_start {accountId : String} {actor : MarketingActor} {body : ReturnBody}
    {report : SpendReport} {credentialOk : Bool} {now : Date} {operationId : Uuid}
    (hinv : ReturnInv db) (hrow' : db'.requests.lookup id = some row')
    (hop : row'.return_operation = some op)
    (h : returnUnused db id accountId actor body report credentialOk now operationId = .ok db') :
    op.id = operationId ∧ Tracked id op db' := by
  obtain ⟨row, op₁, key, hrow, hid, hmove, rfl⟩ := returnUnused_spec h
  rw [setRequest_requests, AList.lookup_insert] at hrow'
  cases hrow'
  obtain rfl : op₁ = op := Option.some.inj hop
  have hfresh : op₁.id ∉ db.operations := by
    rcases hmove.operation with ⟨hnil, -⟩ | ⟨op', -, -, hnew, hfresh⟩
    · cases hnil
    · cases hnew
      exact hfresh
  -- The id is new, so no ledger row and no other request mentions it.
  have hnone : ∀ e ∈ db.ledger, returnedBy op₁.id e ≠ true :=
    fun e he ho => hfresh (hinv.ledger e he _ ho)
  have hfilter : db.ledger.filter (returnedBy op₁.id) = [] := List.filter_eq_nil_iff.mpr hnone
  refine ⟨hid, ⟨?_, ?_, ?_, ?_, ?_⟩⟩
  · exact hid ▸ List.mem_cons_self
  · intro i r op' hr hop' hid'
    by_cases hi : i = id
    · subst hi
      rw [setRequest_requests, AList.lookup_insert] at hr
      cases hr
      exact ⟨rfl, (Option.some.inj hop').symm⟩
    · rw [setRequest_requests, AList.lookup_insert_ne hi] at hr
      exact absurd (hid' ▸ hinv.requests i r op' hr hop') hfresh
  · exact fun e he ho => absurd ho (hnone e he)
  · exact (congrArg List.length hfilter).le.trans (Nat.zero_le 1)
  · exact fun _ _ _ _ => hfilter

/-- Take any reachable state and any `returnUnused` that commits there. In every later state,
    whatever refunds, late provider results and reconciliations came in between, its operation
    id has at most one refund row, that row is a refund of its request with exactly the
    operation's amount, and the request's refunds stay within its capture. -/
theorem return_refunds_once {s s' t : Db} {as : List SpendAction} {accountId : String}
    {actor : MarketingActor} {body : ReturnBody} {report : SpendReport} {credentialOk : Bool}
    {now : Date} {operationId : Uuid} (hs : (spendSystem env).Reachable s)
    (hstep : (spendSystem env).step s
      (.returnUnused id accountId actor body report credentialOk now operationId) s')
    (hrow : s'.requests.lookup id = some row) (hop : row.return_operation = some op)
    (hpath : (spendSystem env).Path s' as t) :
    (t.ledger.filter (returnedBy operationId)).length ≤ 1 ∧
      (∀ e ∈ t.ledger, returnedBy operationId e = true →
        e.kind = .refund ∧ e.amount_minor = op.amount_minor ∧ e.spend_request_id = id) ∧
      (requestTotals t.ledger id).refund ≤ (requestTotals t.ledger id).capture := by
  have hs' : (spendSystem env).Reachable s' := hs.step hstep
  obtain ⟨rfl, hstart⟩ := tracked_start (returnInv_reachable hs) hrow hop hstep
  have ht : Tracked id op t := hs'.path_invariant hpath
    (fun u a u' _ hu hstep => hu.effect (spendSystem_effect hstep)) hstart
  exact ⟨ht.once, ht.refunds, ((spendInv_reachable (hs'.path hpath)).bounds id).2.1⟩

/-- A return of 20 that the provider reports twice is refunded once. -/
theorem return_refunds_once_late_result :
    ∃ t : Db, (t.ledger.filter (returnedBy 77)).length = 1 ∧
      ∀ e ∈ t.ledger, returnedBy 77 e = true → e.amount_minor = 20 := by
  obtain ⟨s, hs, hcheck⟩ := Sample.exists_reachable Sample.payMeta
    (fun s => (Sample.run s (.returnUnused 8 "acme" Sample.alice
        ⟨true, "unused", .integer 20, "100", 50⟩ ⟨true, "ACTIVE", none, "100", 100, 10, 0⟩ true
        1760000003000 77)).toOption.any fun s' =>
      ((s'.requests.lookup 8).any fun row => row.return_operation.any (·.amount_minor = 20)) &&
      (Transition.runList Sample.run s' [.finishReturn 8 77 (.paid "r" "" .empty),
        .finishReturn 8 77 (.paid "r" "" .empty)]).toOption.any fun t =>
          (t.ledger.filter (returnedBy 77)).length = 1) (by decide)
  simp only [Bool.and_eq_true, Option.any_eq_true, decide_eq_true_eq, except_toOption_eq_some]
    at hcheck
  obtain ⟨s', hstep, ⟨row, hrow, op, hop, hamount⟩, t, hrun, hone⟩ := hcheck
  have hpath : (spendSystem Sample.runtime).Path s' _ t :=
    Transition.Path.append_run (fun _ _ _ h => h) (.nil s') hrun
  have hrefunds := (return_refunds_once hs hstep hrow hop hpath).2.1
  exact ⟨t, hone, fun e he ho => (hrefunds e he ho).2.1.trans hamount⟩

end WorkflowBoard.Marketing
