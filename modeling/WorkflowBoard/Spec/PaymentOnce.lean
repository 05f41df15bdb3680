import WorkflowBoard.Native.Executor
import WorkflowBoard.Spec.FlushDurable
import WorkflowBoard.Spec.SpendMachine

/-!
# A payment is sent at most once, whatever crashes

A request leaves `pending` and `approved` for good: no transaction takes it back there, so
along the committed images the requests past approval only grow. The image that holds the
claim of an executor is in the durable store before the executor sends. A crash goes back to
that image or a later one, and there the request cannot be claimed again.

## 
-/

namespace WorkflowBoard.Marketing

open Sqljs (FlushState FlushAction FlushInv FlushKept)

variable {env : SpendEnv} {db db' : Db} {id : Uuid} {w w' : Cluster}

/-! ## Requests past approval -/

def statusOf (db : Db) (id : Uuid) : Option SpendStatus :=
  (db.requests.lookup id).map (·.status)

/-- Executing, unknown, paid, failed, cancelled, denied or expired. -/
def SpendStatus.isPastApproval : SpendStatus → Bool
  | .pending | .approved => false
  | _ => true

def PastApproval (db : Db) (id : Uuid) : Prop :=
  ∃ status, statusOf db id = some status ∧ status.isPastApproval = true

theorem statusOf_stored {row : SpendRequest} (h : Stored db db' id row) (i : Uuid) :
    statusOf db' i = if i = id then some row.status else statusOf db i := by
  unfold statusOf
  rw [h i]
  split <;> rfl

/-- A move of a request past approval leaves it past approval. -/
theorem SpendMove.pastApproval {row row' : SpendRequest} {rows : List LedgerEntry}
    {ops : List Uuid} (h : SpendMove db id row row' rows ops)
    (hrow : row.status.isPastApproval = true) : row'.status.isPastApproval = true := by
  cases h with
  | firstApproval _ hp | finalApproval _ _ _ _ hp | close _ _ hp | cancelApproved _ hp
  | claim _ hp =>
    rw [hp] at hrow
    cases hrow
  | settle to_ => cases to_ <;> rfl
  | toUnknown => rfl
  | refund | startReturn | completeReturn | closeReturn => exact hrow

/-- No transaction moves a request back to pending or approved. -/
theorem SpendEffect.pastApproval {i : Uuid} (h : SpendEffect db db') (hi : PastApproval db i) :
    PastApproval db' i := by
  obtain ⟨status, hstatus, hpast⟩ := hi
  cases h with
  | idle hreq =>
    refine ⟨status, ?_, hpast⟩
    unfold statusOf at hstatus ⊢
    rw [hreq, hstatus]
  | create id row hnone _ hstored =>
    have hne : i ≠ id := by
      rintro rfl
      simp [statusOf, hnone] at hstatus
    exact ⟨status, by rw [statusOf_stored hstored, if_neg hne, hstatus], hpast⟩
  | move id row row' rows ops hrow hmove hstored =>
    by_cases hi : i = id
    · subst hi
      have hsame : row.status = status := by simpa [statusOf, hrow] using hstatus
      subst hsame
      exact ⟨_, by rw [statusOf_stored hstored, if_pos rfl], hmove.pastApproval hpast⟩
    · exact ⟨status, by rw [statusOf_stored hstored, if_neg hi, hstatus], hpast⟩

variable {planProblem : Option String} {e : Executor} {store : FlushState Db} {i : Nat}
  {p : ExecutorPhase} {a : ClusterAction}

/-- Winning the claim takes the request from `approved` to `executing`. -/
theorem executeClaim_won {now : Date}
    (h : executeClaim env db id planProblem now = .ok (db', true)) :
    statusOf db id = some .approved ∧ statusOf db' id = some .executing := by
  simp only [executeClaim, bind_eq_ok, findRequest_eq_ok] at h
  obtain ⟨row, hrow, h⟩ := h
  split at h
  · simp at h
  · simp only [bind_eq_ok] at h
    obtain ⟨_, _, h⟩ := h
    split at h
    · simp at h
    · split at h
      · simp at h
      · split at h
        · rename_i hcas
          obtain ⟨rfl, _⟩ := Prod.mk.inj (pure_eq_ok.mp h)
          obtain ⟨row₀, hrow₀, hstatus, rfl⟩ := casUpdate_eq_some.mp hcas
          refine ⟨by simp [statusOf, hrow₀, hstatus], ?_⟩
          rw [statusOf_stored (stored_of_insert rfl), if_pos rfl]
        · simp at h

theorem not_pastApproval_of_approved (h : statusOf db id = some .approved) :
    ¬ PastApproval db id := by
  rintro ⟨status, hstatus, hpast⟩
  have hsame : status = .approved := Option.some.inj (hstatus.symm.trans h)
  subst hsame
  cases hpast

theorem pastApproval_of_executing (h : statusOf db id = some .executing) : PastApproval db id :=
  ⟨_, h, rfl⟩

/-! ## Invariant -/

/-- The executors of a request that may still start its external call. -/
def mayStillSend (executors : List Executor) (id : Uuid) : Nat :=
  executors.countP fun e => e.request == id && e.phase.mayStillSend

/-- The image of some commit up to the durable one has the request at `executing`. -/
def DurablyExecuting (w : Cluster) (id : Uuid) : Prop :=
  ∃ k ≤ w.store.fileAt, statusOf (w.store.log k) id = some .executing

/-- What is known of an executor. -/
structure ExecutorOk (w : Cluster) (e : Executor) : Prop where
  claimedAt_le : e.claimedAt ≤ w.store.commits
  claimed : statusOf (w.store.log e.claimedAt) e.request = some .executing
  /-- The flush it waits for was called after the claim. -/
  persisting : ∀ f, e.phase = .persisting f → ∃ flush : Sqljs.Flush Db,
    w.store.flushes[f]? = some flush ∧ flush.force = true ∧ e.claimedAt ≤ flush.calledAt
  persisted : e.phase = .persisted → e.claimedAt ≤ w.store.fileAt

structure ClusterInv (w : Cluster) : Prop where
  flush : FlushInv w.store
  server : w.backend = .server → w.store.fileAt = w.store.commits ∧ w.store.flushes = []
  monotone : ∀ k l id, k ≤ l → l ≤ w.store.commits →
    PastApproval (w.store.log k) id → PastApproval (w.store.log l) id
  executor_ok : ∀ e ∈ w.executors, ExecutorOk w e
  called : ∀ id ∈ w.calls, DurablyExecuting w id
  once : ∀ id, w.calls.count id + mayStillSend w.executors id ≤ 1

theorem clusterInv_boot (backend : Backend) (db : Db) : ClusterInv (.boot backend db) where
  flush := Sqljs.flushInv_boot db
  server := fun _ => ⟨rfl, rfl⟩
  monotone := fun _ _ _ _ _ h => h
  executor_ok := by
    intro e he
    cases he
  called := by
    intro id hid
    cases hid
  once := fun _ => Nat.zero_le _

namespace ClusterInv

/-- A request whose claim is committed, or whose call was started, is past approval. -/
theorem past_of_executing (hinv : ClusterInv w) {k : Nat} (hk : k ≤ w.store.commits)
    (h : statusOf (w.store.log k) id = some .executing) : PastApproval w.live id := by
  have hmem := hinv.flush.mem_eq
  rw [Cluster.live, hmem]
  exact hinv.monotone k _ id hk (Nat.le_refl _) (pastApproval_of_executing h)

/-- Nobody has claimed a request that is not past approval. -/
theorem unclaimed (hinv : ClusterInv w) (h : ¬ PastApproval w.live id) :
    w.calls.count id = 0 ∧ mayStillSend w.executors id = 0 := by
  constructor
  · refine List.count_eq_zero.mpr ?_
    intro hid
    obtain ⟨k, hk, hexec⟩ := hinv.called id hid
    exact h (hinv.past_of_executing (Nat.le_trans hk hinv.flush.fileAt_le) hexec)
  · refine List.countP_eq_zero.mpr ?_
    intro e he
    simp only [Bool.and_eq_true, beq_iff_eq, not_and]
    rintro rfl
    have hok := hinv.executor_ok e he
    exact absurd (hinv.past_of_executing hok.claimedAt_le hok.claimed) h

end ClusterInv

/-! ## The store moves -/

theorem ExecutorOk.kept (h : ExecutorOk w e)
    (hkept : FlushKept w.store store) : ExecutorOk { w with store := store } e where
  claimedAt_le := by
    rw [hkept.commits_eq]
    exact h.claimedAt_le
  claimed := by
    rw [hkept.log_eq]
    exact h.claimed
  persisting := by
    intro f hf
    obtain ⟨flush, hflush, hforce, hcalled⟩ := h.persisting f hf
    obtain ⟨flush', hflush', hforce', hcalled'⟩ := hkept.flushes_kept f flush hflush
    exact ⟨flush', hflush', hforce'.trans hforce, hcalled' ▸ hcalled⟩
  persisted := fun hp => Nat.le_trans (h.persisted hp) hkept.fileAt_le

/-- A step of the sql.js store that commits nothing. -/
theorem ClusterInv.kept (hinv : ClusterInv w) (hback : w.backend = .sqljs)
    (hflush : FlushInv store) (hkept : FlushKept w.store store) :
    ClusterInv { w with store := store } where
  flush := hflush
  server := by
    intro hserver
    rw [hback] at hserver
    cases hserver
  monotone := by
    rw [hkept.log_eq, hkept.commits_eq]
    exact hinv.monotone
  executor_ok := fun e he => (hinv.executor_ok e he).kept hkept
  called := by
    intro id hid
    obtain ⟨k, hk, hexec⟩ := hinv.called id hid
    exact ⟨k, Nat.le_trans hk hkept.fileAt_le, by rw [hkept.log_eq, hexec]⟩
  once := hinv.once

/-- What a commit does to the store: on both backends the new image comes last. -/
structure Committed (w : Cluster) (db : Db) (store : FlushState Db) : Prop where
  mem_eq : store.mem = db
  log_eq : store.log = Function.update w.store.log (w.store.commits + 1) db
  commits_eq : store.commits = w.store.commits + 1
  fileAt_le : w.store.fileAt ≤ store.fileAt
  flushes_eq : store.flushes = w.store.flushes

theorem commit_eq_ok (hinv : ClusterInv w) (h : w.commit db = .ok w') :
    ∃ store, w' = { w with store := store } ∧ Committed w db store ∧ FlushInv store ∧
      (w.backend = .server → store.fileAt = store.commits ∧ store.flushes = []) := by
  unfold Cluster.commit at h
  split at h
  · rename_i hback
    cases h
    obtain ⟨hfile, hnone⟩ := hinv.server hback
    refine ⟨_, rfl, ⟨rfl, rfl, rfl, ?_, rfl⟩, ?_, fun _ => ⟨rfl, hnone⟩⟩
    · dsimp only
      omega
    · refine ⟨by simp [FlushState.commitImage], by simp [FlushState.commitImage], Nat.le_refl _,
        ?_, fun _ => .inl rfl⟩
      intro i f hf
      simp [FlushState.commitImage, hnone] at hf
  · rename_i hback
    have hnever : w.backend = .server → False := by
      intro hserver
      rw [hback] at hserver
      cases hserver
    simp only [bind_eq_ok, pure_eq_ok] at h
    obtain ⟨store, hrun, rfl⟩ := h
    have hflush := hinv.flush.run hrun
    refine ⟨store, rfl, ?_, hflush, fun hserver => (hnever hserver).elim⟩
    by_cases hopen : w.store.transactionOpen = true
    · rw [if_pos hopen] at hrun
      simp only [FlushAction.run, Sqljs.execute, except_map_eq_ok, bind_eq_ok,
        pure_eq_ok] at hrun
      obtain ⟨_, ⟨_, _, rfl⟩, rfl⟩ := hrun
      exact ⟨rfl, rfl, rfl, Nat.le_refl _, rfl⟩
    · rw [if_neg hopen] at hrun
      simp only [FlushAction.run, Sqljs.execute, if_neg hopen, except_map_eq_ok,
        Except.ok.injEq] at hrun
      obtain ⟨_, rfl, rfl⟩ := hrun
      exact ⟨rfl, rfl, rfl, Nat.le_refl _, rfl⟩

theorem Committed.log_old {k : Nat} (h : Committed w db store)
    (hk : k ≤ w.store.commits) : store.log k = w.store.log k := by
  have hne : k ≠ w.store.commits + 1 := by omega
  rw [h.log_eq, Function.update_of_ne hne]

theorem ExecutorOk.committed (h : ExecutorOk w e)
    (hc : Committed w db store) : ExecutorOk { w with store := store } e where
  claimedAt_le := by
    rw [hc.commits_eq]
    exact Nat.le_succ_of_le h.claimedAt_le
  claimed := by
    rw [hc.log_old h.claimedAt_le]
    exact h.claimed
  persisting := by
    rw [hc.flushes_eq]
    exact h.persisting
  persisted := fun hp => Nat.le_trans (h.persisted hp) hc.fileAt_le

/-- A commit after which every request past approval still is. -/
theorem ClusterInv.committed (hinv : ClusterInv w)
    (hc : Committed w db store) (hflush : FlushInv store)
    (hserver : w.backend = .server → store.fileAt = store.commits ∧ store.flushes = [])
    (hpast : ∀ id, PastApproval w.live id → PastApproval db id) :
    ClusterInv { w with store := store } where
  flush := hflush
  server := hserver
  monotone := by
    intro k l id hkl hl hk
    rw [hc.commits_eq] at hl
    by_cases hold : l ≤ w.store.commits
    · rw [hc.log_old hold]
      rw [hc.log_old (by omega)] at hk
      exact hinv.monotone k l id hkl hold hk
    · -- `l` is the new image, and what was past approval before it is in the old newest one
      have hlast : l = w.store.commits + 1 := by omega
      have hnew : store.log l = db := by
        rw [hc.log_eq, hlast, Function.update_self]
      rw [hnew]
      by_cases hkold : k ≤ w.store.commits
      · rw [hc.log_old hkold] at hk
        refine hpast id ?_
        rw [Cluster.live, hinv.flush.mem_eq]
        exact hinv.monotone k _ id hkold (Nat.le_refl _) hk
      · have hsame : k = l := by omega
        rw [hsame, hnew] at hk
        exact hk
  executor_ok := fun e he => (hinv.executor_ok e he).committed hc
  called := by
    intro id hid
    obtain ⟨k, hk, hexec⟩ := hinv.called id hid
    have hkold : k ≤ w.store.commits := Nat.le_trans hk hinv.flush.fileAt_le
    exact ⟨k, Nat.le_trans hk hc.fileAt_le, by rw [hc.log_old hkold, hexec]⟩
  once := hinv.once

theorem txError_eq_ok {α : Type} {x : Tx α} {a : α} : txError x = .ok a ↔ x = .ok a := by
  cases x <;> simp [txError, Except.mapError]

theorem ClusterInv.transact {a : SpendAction} (hinv : ClusterInv w)
    (h : transact env w a = .ok w') : ClusterInv w' := by
  simp only [Marketing.transact, bind_eq_ok, txError_eq_ok] at h
  obtain ⟨db, hrun, hcommit⟩ := h
  obtain ⟨store, rfl, hc, hflush, hserver⟩ := commit_eq_ok hinv hcommit
  have heffect : SpendEffect w.live db := spendSystem_effect hrun
  exact hinv.committed hc hflush hserver (fun _ h => heffect.pastApproval h)

/-! ## Executors move -/

/-- An executor changes its phase. The calls may grow by its request when it stops being able
    to start the call. -/
theorem ClusterInv.setPhase (hinv : ClusterInv w)
    (he : w.executors[i]? = some e) (calls : List Uuid)
    (hok : ExecutorOk w { e with phase := p }) (hcalled : ∀ id ∈ calls, DurablyExecuting w id)
    (honce : ∀ id, calls.count id + (if e.request = id ∧ p.mayStillSend = true then 1 else 0) ≤
      w.calls.count id + (if e.request = id ∧ e.phase.mayStillSend = true then 1 else 0)) :
    ClusterInv { w.setPhase i e p with calls := calls } where
  flush := hinv.flush
  server := hinv.server
  monotone := hinv.monotone
  executor_ok := by
    intro e' he'
    rcases List.mem_or_eq_of_mem_set he' with hold | rfl
    · have hok' := hinv.executor_ok e' hold
      exact ⟨hok'.claimedAt_le, hok'.claimed, hok'.persisting, hok'.persisted⟩
    · exact ⟨hok.claimedAt_le, hok.claimed, hok.persisting, hok.persisted⟩
  called := hcalled
  once := by
    intro id
    have hcount := countP_set_add (b := { e with phase := p }) he
      (fun e => e.request == id && e.phase.mayStillSend)
    simp only [Bool.and_eq_true, beq_iff_eq] at hcount
    have hbefore := hinv.once id
    have hcalls := honce id
    unfold mayStillSend at hbefore ⊢
    unfold Cluster.setPhase
    dsimp only
    omega

/-- An executor that moves without starting the call. -/
theorem ClusterInv.setPhase' (hinv : ClusterInv w)
    (he : w.executors[i]? = some e) (hok : ExecutorOk w { e with phase := p })
    (hp : p.mayStillSend = true → e.phase.mayStillSend = true) :
    ClusterInv (w.setPhase i e p) := by
  refine hinv.setPhase he w.calls hok hinv.called ?_
  intro id
  by_cases h : e.request = id ∧ p.mayStillSend = true
  · rw [if_pos h, if_pos ⟨h.1, hp h.2⟩]
  · rw [if_neg h]
    omega

/-- A phase other than `persisting` and `persisted` asks nothing of an executor. -/
theorem ExecutorOk.setPhase (h : ExecutorOk w e)
    (hp : ∀ f, p ≠ .persisting f) (hp' : p ≠ .persisted) :
    ExecutorOk w { e with phase := p } :=
  ⟨h.claimedAt_le, h.claimed, fun f hf => absurd hf (hp f), fun hf => absurd hf hp'⟩

section

variable (hinv : ClusterInv w)
include hinv

/-- A new executor of a request that nobody has claimed. -/
theorem ClusterInv.newExecutor (hok : ExecutorOk w e)
    (hnone : w.calls.count e.request = 0 ∧ mayStillSend w.executors e.request = 0) :
    ClusterInv { w with executors := w.executors ++ [e] } where
  flush := hinv.flush
  server := hinv.server
  monotone := hinv.monotone
  executor_ok := by
    intro e' he'
    rcases List.mem_append.mp he' with hold | hnew
    · have hok' := hinv.executor_ok e' hold
      exact ⟨hok'.claimedAt_le, hok'.claimed, hok'.persisting, hok'.persisted⟩
    · obtain rfl := List.mem_singleton.mp hnew
      exact ⟨hok.claimedAt_le, hok.claimed, hok.persisting, hok.persisted⟩
  called := hinv.called
  once := by
    intro id
    have hold := hinv.once id
    unfold mayStillSend at hold hnone ⊢
    rw [List.countP_append, List.countP_singleton]
    by_cases hid : e.request = id
    · subst hid
      dsimp only
      split <;> omega
    · have hother : (e.request == id && e.phase.mayStillSend) = false := by simp [hid]
      rw [hother]
      exact hold

theorem ClusterInv.claim {process : Nat} {now : Date}
    (h : claim env w process id planProblem now = .ok w') :
    ClusterInv w' := by
  simp only [Marketing.claim, bind_eq_ok, txError_eq_ok, pure_eq_ok] at h
  obtain ⟨⟨db, won⟩, hclaim, w₁, hcommit, rfl⟩ := h
  obtain ⟨store, rfl, hc, hflush, hserver⟩ := commit_eq_ok hinv hcommit
  have heffect : SpendEffect w.live db := executeClaim_effect hclaim
  have hinv' := hinv.committed hc hflush hserver (fun _ h => heffect.pastApproval h)
  cases won with
  | false => exact hinv'
  | true =>
    obtain ⟨hbefore, hafter⟩ := executeClaim_won hclaim
    have hnew : store.log store.commits = db := by
      rw [← hflush.mem_eq, hc.mem_eq]
    -- the request was approved, so nobody has claimed it
    obtain ⟨hcalls, hexec⟩ := hinv.unclaimed (not_pastApproval_of_approved hbefore)
    refine hinv'.newExecutor ⟨Nat.le_refl _, ?_, by simp, by simp⟩ ⟨hcalls, hexec⟩
    exact hnew.symm ▸ hafter

theorem ClusterInv.persistNow (h : persistNow w i = .ok w') :
    ClusterInv w' := by
  simp only [Marketing.persistNow, bind_eq_ok, orThrow_eq_ok, require_eq_ok, beq_iff_eq,
    pure_eq_ok] at h
  obtain ⟨e, he, _, hclaimed, rfl⟩ := h
  have hok := hinv.executor_ok e (List.mem_of_getElem? he)
  split
  · rename_i hback
    refine hinv.setPhase' he ⟨hok.claimedAt_le, hok.claimed, by simp, ?_⟩ (fun _ => by
      rw [hclaimed]
      rfl)
    intro _
    rw [(hinv.server hback).1]
    exact hok.claimedAt_le
  · rename_i hback
    obtain ⟨hkept, phase, hlast⟩ := Sqljs.flushSqljs_kept (s := w.store) true false
    have hinv' := hinv.kept hback (hinv.flush.flush true false) hkept
    have hok' := hinv'.executor_ok e (List.mem_of_getElem? he)
    refine hinv'.setPhase' he ⟨hok'.claimedAt_le, hok'.claimed, ?_, by simp⟩ (fun _ => by
      rw [hclaimed]
      rfl)
    intro f hf
    obtain rfl := ExecutorPhase.persisting.inj hf
    exact ⟨_, hlast, rfl, hok.claimedAt_le⟩

/-- A flush the executor waited for and that returned has made the claim durable. -/
theorem ClusterInv.persistEnds (h : persistEnds w i = .ok w') :
    ClusterInv w' := by
  simp only [Marketing.persistEnds, bind_eq_ok, orThrow_eq_ok, pure_eq_ok] at h
  obtain ⟨e, he, phase, hafter, rfl⟩ := h
  have hok := hinv.executor_ok e (List.mem_of_getElem? he)
  unfold afterPersist at hafter
  split at hafter
  · rename_i f hp
    have hmay : e.phase.mayStillSend = true := by rw [hp]; rfl
    split at hafter
    · rename_i saved hreturned
      cases hafter
      refine hinv.setPhase' he ⟨hok.claimedAt_le, hok.claimed, by simp, ?_⟩ (fun _ => hmay)
      intro _
      obtain ⟨flush, hflush, hforce, hcalled⟩ := hok.persisting f hp
      obtain ⟨flush', hflush', hphase⟩ := Sqljs.phase_eq_some hreturned
      have hsame : flush = flush' := Option.some.inj (hflush.symm.trans hflush')
      subst hsame
      have hwritten := hinv.flush.forced_persisted (List.mem_of_getElem? hflush) hforce hphase
      exact Nat.le_trans hcalled hwritten
    · cases hafter
      exact hinv.setPhase' he (hok.setPhase (by simp) (by simp)) (fun _ => hmay)
    · cases hafter
  · cases hafter

/-- An executor that has persisted its claim has its request durably executing. -/
theorem ClusterInv.durablyExecuting (he : e ∈ w.executors)
    (hp : e.phase = .persisted) : DurablyExecuting w e.request :=
  ⟨e.claimedAt, (hinv.executor_ok e he).persisted hp, (hinv.executor_ok e he).claimed⟩

theorem ClusterInv.send (h : send w i = .ok w') :
    ClusterInv w' := by
  simp only [Marketing.send, bind_eq_ok, orThrow_eq_ok, require_eq_ok, beq_iff_eq,
    pure_eq_ok] at h
  obtain ⟨e, he, _, hp, rfl⟩ := h
  have hmem := List.mem_of_getElem? he
  have hok := hinv.executor_ok e hmem
  refine hinv.setPhase he _ (hok.setPhase (by simp) (by simp)) ?_ ?_
  · intro id hid
    rcases List.mem_append.mp hid with hid | hid
    · exact hinv.called id hid
    · rw [List.mem_singleton.mp hid]
      exact hinv.durablyExecuting hmem hp
  · intro id
    rw [hp, List.count_append, List.count_singleton]
    by_cases hid : e.request = id
    · simp [hid, ExecutorPhase.mayStillSend]
    · simp [hid]

theorem ClusterInv.conclude (h : conclude env w i = .ok w') : ClusterInv w' := by
  simp only [Marketing.conclude, bind_eq_ok, orThrow_eq_ok, pure_eq_ok] at h
  obtain ⟨e, he, a, _, w₁, htransact, rfl⟩ := h
  have hinv' := hinv.transact htransact
  have hexec : w₁.executors = w.executors := by
    simp only [Marketing.transact, bind_eq_ok] at htransact
    obtain ⟨db, _, hcommit⟩ := htransact
    obtain ⟨store, rfl, _⟩ := commit_eq_ok hinv hcommit
    rfl
  rw [← hexec] at he
  have hok := hinv'.executor_ok e (List.mem_of_getElem? he)
  exact hinv'.setPhase' he (hok.setPhase (by simp) (by simp)) (by rintro ⟨⟩)

theorem ClusterInv.crash (process : Nat) :
    ClusterInv (crash w process) := by
  unfold Marketing.crash
  split
  · refine ⟨hinv.flush, hinv.server, hinv.monotone, ?_, hinv.called, ?_⟩
    · intro e he
      have hok := hinv.executor_ok e (List.mem_filter.mp he).1
      exact ⟨hok.claimedAt_le, hok.claimed, hok.persisting, hok.persisted⟩
    · intro id
      have hle : mayStillSend (w.executors.filter (·.process != process)) id ≤
          mayStillSend w.executors id :=
        List.filter_sublist.countP_le
      have := hinv.once id
      dsimp only
      omega
  · rename_i hback
    refine ⟨hinv.flush.crash, ?_, ?_, ?_, hinv.called, ?_⟩
    · intro hserver
      rw [hback] at hserver
      cases hserver
    · intro k l id hkl hl
      exact hinv.monotone k l id hkl (Nat.le_trans hl hinv.flush.fileAt_le)
    · intro e he
      cases he
    · intro id
      have := hinv.once id
      simp only [mayStillSend, List.countP_nil]
      omega

/-! ## Runs -/

/-- The invariant over all interleavings, flushes and crashes. -/
theorem ClusterInv.run (h : a.run env w = .ok w') :
    ClusterInv w' := by
  cases a with
  | store a =>
    simp only [ClusterAction.run, bind_eq_ok, require_eq_ok, Bool.and_eq_true, beq_iff_eq,
      Bool.not_eq_true', pure_eq_ok] at h
    obtain ⟨_, ⟨hback, hcommits⟩, store, hrun, rfl⟩ := h
    exact hinv.kept hback (hinv.flush.run hrun) (hinv.flush.run_kept hcommits hrun)
  | transact a =>
    simp only [ClusterAction.run, bind_eq_ok] at h
    obtain ⟨_, _, h⟩ := h
    exact hinv.transact h
  | claim process id planProblem now => exact hinv.claim h
  | persistNow i => exact hinv.persistNow h
  | persistEnds i => exact hinv.persistEnds h
  | send i => exact hinv.send h
  | notSent i error =>
    simp only [ClusterAction.run, Marketing.notSent, bind_eq_ok, orThrow_eq_ok,
      pure_eq_ok] at h
    obtain ⟨e, he, _, _, rfl⟩ := h
    have hok := hinv.executor_ok e (List.mem_of_getElem? he)
    exact hinv.setPhase' he (hok.setPhase (by simp) (by simp)) (by rintro ⟨⟩)
  | respond i outcome =>
    simp only [ClusterAction.run, Marketing.respond, bind_eq_ok, orThrow_eq_ok,
      pure_eq_ok] at h
    obtain ⟨e, he, _, _, rfl⟩ := h
    have hok := hinv.executor_ok e (List.mem_of_getElem? he)
    exact hinv.setPhase' he (hok.setPhase (by simp) (by simp)) (by rintro ⟨⟩)
  | conclude i => exact hinv.conclude h
  | crash process =>
    cases h
    exact hinv.crash process

end

/-- The process of a sql.js store dies. -/
def LosesMemory (w : Cluster) (a : ClusterAction) : Prop :=
  w.backend = .sqljs ∧ ∃ process, a = .crash process

/-- The committed images stay, and neither memory nor the durable store goes back. -/
structure Forward (w w' : Cluster) : Prop where
  log_eq : ∀ k ≤ w.store.commits, w'.store.log k = w.store.log k
  commits_le : w.store.commits ≤ w'.store.commits
  fileAt_le : w.store.fileAt ≤ w'.store.fileAt

theorem forward_of_store_eq (h : w'.store = w.store) : Forward w w' :=
  ⟨fun _ _ => by rw [h], by rw [h], by rw [h]⟩

theorem forward_of_kept (h : FlushKept w.store w'.store) : Forward w w' :=
  ⟨fun _ _ => by rw [h.log_eq], Nat.le_of_eq h.commits_eq.symm, h.fileAt_le⟩

theorem forward_of_commit (hinv : ClusterInv w) (h : w.commit db = .ok w') : Forward w w' := by
  obtain ⟨store, rfl, hc, _⟩ := commit_eq_ok hinv h
  exact ⟨fun k hk => hc.log_old hk, by rw [hc.commits_eq]; omega, hc.fileAt_le⟩

theorem forward_of_transact {a : SpendAction} (hinv : ClusterInv w)
    (h : transact env w a = .ok w') : Forward w w' := by
  simp only [Marketing.transact, bind_eq_ok] at h
  obtain ⟨db, _, hcommit⟩ := h
  exact forward_of_commit hinv hcommit

theorem ClusterInv.run_forward (hinv : ClusterInv w)
    (h : a.run env w = .ok w') (ha : ¬ LosesMemory w a) : Forward w w' := by
  cases a with
  | store a =>
    simp only [ClusterAction.run, bind_eq_ok, require_eq_ok, Bool.and_eq_true,
      Bool.not_eq_true', pure_eq_ok] at h
    obtain ⟨_, ⟨_, hcommits⟩, store, hrun, rfl⟩ := h
    exact forward_of_kept (hinv.flush.run_kept hcommits hrun)
  | transact a =>
    simp only [ClusterAction.run, bind_eq_ok] at h
    obtain ⟨_, _, h⟩ := h
    exact forward_of_transact hinv h
  | claim process id planProblem now =>
    simp only [ClusterAction.run, Marketing.claim, bind_eq_ok, pure_eq_ok] at h
    obtain ⟨⟨db, won⟩, _, w₁, hcommit, rfl⟩ := h
    have hforward := forward_of_commit hinv hcommit
    cases won with
    | false => exact hforward
    | true => exact ⟨hforward.log_eq, hforward.commits_le, hforward.fileAt_le⟩
  | persistNow i =>
    simp only [ClusterAction.run, Marketing.persistNow, bind_eq_ok, pure_eq_ok] at h
    obtain ⟨e, _, _, _, rfl⟩ := h
    split
    · exact forward_of_store_eq rfl
    · exact forward_of_kept (Sqljs.flushSqljs_kept true false).1
  | persistEnds i =>
    simp only [ClusterAction.run, Marketing.persistEnds, bind_eq_ok, pure_eq_ok] at h
    obtain ⟨e, _, phase, _, rfl⟩ := h
    exact forward_of_store_eq rfl
  | send i =>
    simp only [ClusterAction.run, Marketing.send, bind_eq_ok, pure_eq_ok] at h
    obtain ⟨e, _, _, _, rfl⟩ := h
    exact forward_of_store_eq rfl
  | notSent i error =>
    simp only [ClusterAction.run, Marketing.notSent, bind_eq_ok, pure_eq_ok] at h
    obtain ⟨e, _, _, _, rfl⟩ := h
    exact forward_of_store_eq rfl
  | respond i outcome =>
    simp only [ClusterAction.run, Marketing.respond, bind_eq_ok, pure_eq_ok] at h
    obtain ⟨e, _, _, _, rfl⟩ := h
    exact forward_of_store_eq rfl
  | conclude i =>
    simp only [ClusterAction.run, Marketing.conclude, bind_eq_ok, pure_eq_ok] at h
    obtain ⟨e, _, a, _, w₁, htransact, rfl⟩ := h
    have hforward := forward_of_transact hinv htransact
    exact ⟨hforward.log_eq, hforward.commits_le, hforward.fileAt_le⟩
  | crash process =>
    cases h
    unfold Marketing.crash
    split
    · exact forward_of_store_eq rfl
    · rename_i hback
      exact absurd ⟨hback, process, rfl⟩ ha

/-- The calls change only where an executor whose claim is durable starts one. -/
theorem ClusterInv.run_calls (hinv : ClusterInv w) (h : a.run env w = .ok w') :
    w'.calls = w.calls ∨ ∃ e ∈ w.executors, e.phase = .persisted ∧
      w'.calls = w.calls ++ [e.request] := by
  have hcommitted : ∀ {db : Db} {w₁ : Cluster}, w.commit db = .ok w₁ → w₁.calls = w.calls := by
    intro db w₁ hcommit
    obtain ⟨store, rfl, _⟩ := commit_eq_ok hinv hcommit
    rfl
  cases a with
  | store a =>
    simp only [ClusterAction.run, bind_eq_ok, pure_eq_ok] at h
    obtain ⟨_, _, store, _, rfl⟩ := h
    exact .inl rfl
  | transact a =>
    simp only [ClusterAction.run, Marketing.transact, bind_eq_ok] at h
    obtain ⟨_, _, db, _, hcommit⟩ := h
    exact .inl (hcommitted hcommit)
  | claim process id planProblem now =>
    simp only [ClusterAction.run, Marketing.claim, bind_eq_ok, pure_eq_ok] at h
    obtain ⟨⟨db, won⟩, _, w₁, hcommit, rfl⟩ := h
    have hcalls := hcommitted hcommit
    cases won <;> exact .inl hcalls
  | persistNow i =>
    simp only [ClusterAction.run, Marketing.persistNow, bind_eq_ok, pure_eq_ok] at h
    obtain ⟨e, _, _, _, rfl⟩ := h
    split <;> exact .inl rfl
  | persistEnds i =>
    simp only [ClusterAction.run, Marketing.persistEnds, bind_eq_ok, pure_eq_ok] at h
    obtain ⟨e, _, phase, _, rfl⟩ := h
    exact .inl rfl
  | send i =>
    simp only [ClusterAction.run, Marketing.send, bind_eq_ok, orThrow_eq_ok, require_eq_ok,
      beq_iff_eq, pure_eq_ok] at h
    obtain ⟨e, he, _, hp, rfl⟩ := h
    exact .inr ⟨e, List.mem_of_getElem? he, hp, rfl⟩
  | notSent i error =>
    simp only [ClusterAction.run, Marketing.notSent, bind_eq_ok, pure_eq_ok] at h
    obtain ⟨e, _, _, _, rfl⟩ := h
    exact .inl rfl
  | respond i outcome =>
    simp only [ClusterAction.run, Marketing.respond, bind_eq_ok, pure_eq_ok] at h
    obtain ⟨e, _, _, _, rfl⟩ := h
    exact .inl rfl
  | conclude i =>
    simp only [ClusterAction.run, Marketing.conclude, Marketing.transact, bind_eq_ok,
      pure_eq_ok] at h
    obtain ⟨e, _, a, _, w₁, ⟨db, _, hcommit⟩, rfl⟩ := h
    have hcalls := hcommitted hcommit
    exact .inl hcalls
  | crash process =>
    cases h
    unfold Marketing.crash
    split <;> exact .inl rfl

theorem clusterInv_reachable (h : (clusterSystem env).Reachable w) : ClusterInv w := by
  refine h.invariant ?_ ?_
  · rintro w ⟨backend, db, rfl⟩
    exact clusterInv_boot backend db
  · intro w a w' _ hinv hstep
    exact hinv.run hstep

/-! ## Main result -/

/-- The durable store keeps a request past approval, and so does memory unless it is lost. -/
theorem Forward.pastApproval (hforward : Forward w w') (hinv : ClusterInv w)
    (hinv' : ClusterInv w') :
    (PastApproval w.live id → PastApproval w'.live id) ∧
      (PastApproval w.durable id → PastApproval w'.durable id) := by
  unfold Cluster.live Cluster.durable
  rw [hinv.flush.mem_eq, hinv'.flush.mem_eq, hinv.flush.file_eq, hinv'.flush.file_eq]
  constructor
  · rw [← hforward.log_eq _ (Nat.le_refl _)]
    exact hinv'.monotone _ _ id hforward.commits_le (Nat.le_refl _)
  · rw [← hforward.log_eq _ hinv.flush.fileAt_le]
    exact hinv'.monotone _ _ id hforward.fileAt_le hinv'.flush.fileAt_le

/-- A request that has durably been executing is past approval in the durable store. -/
theorem ClusterInv.durable_pastApproval (hinv : ClusterInv w) (h : DurablyExecuting w id) :
    PastApproval w.durable id := by
  obtain ⟨k, hk, hexec⟩ := h
  unfold Cluster.durable
  rw [hinv.flush.file_eq]
  exact hinv.monotone k _ id hk hinv.flush.fileAt_le (pastApproval_of_executing hexec)

/-- In every reachable state of any number of executors, with crashes:
    the external call of a request has been started at most once;
    a step that starts it finds `executing` durable for the request, and the durable store past
    approval;
    no step moves a request in the durable store back to pending or approved, and no step does
    so in the live store, unless it is the death of a sql.js process, which leaves exactly the
    durable store. -/
theorem payment_started_once (h : (clusterSystem env).Reachable w) :
    (∀ id, w.calls.count id ≤ 1) ∧
    (∀ a w', (clusterSystem env).step w a w' → ∀ id, w.calls.count id < w'.calls.count id →
      DurablyExecuting w id ∧ PastApproval w.durable id) ∧
    (∀ a w', (clusterSystem env).step w a w' → ∀ id,
      (PastApproval w.durable id → PastApproval w'.durable id) ∧
      (¬ LosesMemory w a → PastApproval w.live id → PastApproval w'.live id) ∧
      (LosesMemory w a → w'.live = w.durable ∧ w'.durable = w.durable)) := by
  have hinv := clusterInv_reachable h
  refine ⟨?_, ?_, ?_⟩
  · intro id
    have := hinv.once id
    omega
  · intro a w' hstep id hlt
    rcases hinv.run_calls hstep with hsame | ⟨e, he, hp, hcalls⟩
    · rw [hsame] at hlt
      omega
    · have hid : e.request = id := by
        by_contra hne
        rw [hcalls, List.count_append, List.count_singleton] at hlt
        simp [hne] at hlt
      subst hid
      have hdurable := hinv.durablyExecuting he hp
      exact ⟨hdurable, hinv.durable_pastApproval hdurable⟩
  · intro a w' hstep id
    have hinv' := hinv.run hstep
    have hlost : LosesMemory w a → w'.live = w.durable ∧ w'.durable = w.durable := by
      rintro ⟨hback, process, rfl⟩
      cases hstep
      unfold Marketing.crash
      rw [hback]
      exact ⟨rfl, rfl⟩
    refine ⟨?_, ?_, hlost⟩
    · by_cases ha : LosesMemory w a
      · rw [(hlost ha).2]
        exact fun h => h
      · exact ((hinv.run_forward hstep ha).pastApproval hinv hinv').2
    · intro ha
      exact ((hinv.run_forward hstep ha).pastApproval hinv hinv').1

/-- A sql.js process dies right after it has started a payment; the next one finds the request
    executing and gives it up as unknown. -/
def crashWhileSending : List ClusterAction :=
  [.transact Sample.requestMeta,
  .transact (.approve 8 "acme" Sample.alice "sha" 1760000001000 none),
    .claim 0 8 none 1760000002000, .persistNow 0, .store (.takeSnapshot 0 true false),
    .store (.writeSettled 0 true), .store (.settleExport 0), .store (.finishFlush 0),
    .persistEnds 0, .send 0, .crash 0, .transact (.markInterrupted 8)]

/-- The payment was called once, and its row is unknown. -/
theorem payment_started_once_crash : ∃ w, (clusterSystem Sample.runtime).Reachable w ∧
    8 ∈ w.calls ∧ statusOf w.live 8 = some .unknown ∧ w.calls.count 8 ≤ 1 := by
  obtain ⟨w, hpath, hw⟩ := Transition.exists_path_of_run (M := clusterSystem Sample.runtime)
    (fun w a w' (h : ClusterAction.run Sample.runtime w a = .ok w') => h)
    (.boot .sqljs Sample.start) crashWhileSending
    (fun w => w.calls.contains 8 && statusOf w.live 8 == some .unknown) (by decide)
  have hboot : (clusterSystem Sample.runtime).init (.boot .sqljs Sample.start) := ⟨_, _, rfl⟩
  have hreach : (clusterSystem Sample.runtime).Reachable w :=
    (Transition.Reachable.init hboot).path hpath
  simp only [Bool.and_eq_true, List.contains_iff_mem, beq_iff_eq] at hw
  exact ⟨w, hreach, hw.1, hw.2, (payment_started_once hreach).1 8⟩

end WorkflowBoard.Marketing
