import WorkflowBoard.ForStd.List
import WorkflowBoard.Native.AgentSessionDelivery

/-!
# Delivery keeps order and content (`AgentSessionDelivery`)

The batches that were sent, are in flight and wait, in this order, carry the calls of `enqueue`
one after the other: each batch carries one call, or several calls without a state patch. The
one active drain is the promise of every call that is not sent yet.
-/

namespace WorkflowBoard.AgentManager

variable {ε σ : Type}

/-- The call has something to send. -/
def EnqueueCall.hasWork (c : EnqueueCall ε σ) : Bool := !(c.events.isEmpty && c.state.isNone)

/-- The batch is what the calls enqueued: one call, or calls without a patch. -/
structure DeliveryBatch.Carries (group : List (EnqueueCall ε σ)) (b : DeliveryBatch ε σ) :
    Prop where
  events : b.events = group.flatMap (·.events)
  state : (∃ c, group = [c] ∧ b.state = c.state) ∨
    ((∀ c ∈ group, c.state = none) ∧ b.state = none)

namespace AgentSessionDelivery

variable {s t : AgentSessionDelivery ε σ} {k : Nat} {byteLength : List ε → Nat}

/-- A promise that is settled: the one of a new queue, or that of a drain that has ended. -/
def IsSettled (s : AgentSessionDelivery ε σ) : Option Nat → Prop
  | none => True
  | some k => s.drains[k]? = some .done

/-- The calls with something to send, each in the batch that carries it. -/
structure Grouped (s : AgentSessionDelivery ε σ)
    (sent inFlight waiting : List (List (EnqueueCall ε σ))) : Prop where
  calls : (sent ++ inFlight ++ waiting).flatten = s.calls.filter (·.hasWork)
  sent : List.Forall₂ DeliveryBatch.Carries sent s.sent
  inFlight : List.Forall₂ DeliveryBatch.Carries inFlight s.inFlight
  waiting : List.Forall₂ DeliveryBatch.Carries waiting s.pending

/-- The active drain is the last one, and the promise that `enqueue` hands out. -/
structure DrainInv (s : AgentSessionDelivery ε σ) : Prop where
  active : s.draining = true → ∃ ds phase, s.drains = ds ++ [phase] ∧ (∀ d ∈ ds, d = .done) ∧
    phase ≠ .done ∧ s.completion = some ds.length
  idle : s.draining = false → s.pending = [] ∧ ∀ d ∈ s.drains, d = .done
  grouped : ∃ gs gi gp, s.Grouped gs gi gp ∧
    ∀ c ∈ (gi ++ gp).flatten, c.promise = s.completion

theorem Carries_single (c : EnqueueCall ε σ) (bytes : Nat) :
    DeliveryBatch.Carries [c] { events := c.events, state := c.state, bytes } :=
  ⟨by simp, .inl ⟨c, rfl, rfl⟩⟩

variable {pending : List (DeliveryBatch ε σ)} {ds : List (DrainPhase ε σ)}
  {bs : List (DeliveryBatch ε σ)} {gs : List (List (EnqueueCall ε σ))}

/-- A call behind the queue joins the last batch, or is one of its own. -/
theorem push_groups {groups : List (List (EnqueueCall ε σ))}
    (h : List.Forall₂ DeliveryBatch.Carries groups pending) (c : EnqueueCall ε σ) (bytes : Nat) :
    ∃ groups', List.Forall₂ DeliveryBatch.Carries groups' (push pending c.events c.state bytes) ∧
      groups'.flatten = groups.flatten ++ [c] := by
  have hown : List.Forall₂ DeliveryBatch.Carries (groups ++ [[c]])
      (pending ++ [{ events := c.events, state := c.state, bytes }]) :=
    List.rel_append h (.cons (Carries_single c bytes) .nil)
  unfold push
  split
  · rename_i hnone
    rw [List.getLast?_eq_none_iff] at hnone
    subst hnone
    exact ⟨_, hown, by simp⟩
  · rename_i tail htail
    split
    · rename_i hjoin
      obtain ⟨htailState, hstate, -⟩ := hjoin
      rw [Option.isNone_iff_eq_none] at htailState hstate
      obtain ⟨init, rfl⟩ : ∃ init, pending = init ++ [tail] := List.getLast?_eq_some_iff.mp htail
      obtain ⟨gs, g, rfl, hgs, hg⟩ := forall₂_concat_right h
      have hnone : ∀ c' ∈ g ++ [c], c'.state = none := by
        intro c' hc'
        obtain hc' | hc' := List.mem_append.mp hc'
        · obtain ⟨c₀, rfl, h₀⟩ | ⟨hall, -⟩ := hg.state
          · rw [List.mem_singleton.mp hc', ← h₀, htailState]
          · exact hall c' hc'
        · rw [List.mem_singleton.mp hc', hstate]
      refine ⟨gs ++ [g ++ [c]], ?_, by simp⟩
      rw [List.dropLast_concat]
      exact List.rel_append hgs (.cons ⟨by simp [hg.events], .inr ⟨hnone, htailState⟩⟩ .nil)
    · exact ⟨_, hown, by simp⟩

/-! ## The active drain -/

theorem inFlight_of_done (h : ∀ d ∈ ds, d = .done) :
    ds.filterMap (·.batch?) = [] := by
  rw [List.filterMap_eq_nil_iff]
  intro d hd
  rw [h d hd]
  rfl

theorem DrainInv.active_eq (h : DrainInv s) {phase : DrainPhase ε σ}
    (hk : s.drains[k]? = some phase) (hne : phase ≠ .done) :
    ∃ ds, s.drains = ds ++ [phase] ∧ k = ds.length ∧ (∀ d ∈ ds, d = .done) ∧
      s.draining = true ∧ s.completion = some ds.length := by
  have hdraining : s.draining = true := by
    cases hd : s.draining with
    | true => rfl
    | false => exact absurd ((h.idle hd).2 phase (List.mem_of_getElem? hk)) hne
  obtain ⟨ds, last, hdrains, hdone, -, hcompletion⟩ := h.active hdraining
  rw [hdrains] at hk
  obtain hk | ⟨rfl, rfl⟩ := getElem?_append_cases hk
  · exact absurd (hdone phase (List.mem_of_getElem? hk)) hne
  · exact ⟨ds, hdrains, rfl, hdone, hdraining, hcompletion⟩

theorem set_active {phase phase' : DrainPhase ε σ} :
    (ds ++ [phase]).set ds.length phase' = ds ++ [phase'] := by
  simp

/-- What is in flight is what the active drain sends. -/
theorem inFlight_active {phase : DrainPhase ε σ}
    (hdrains : s.drains = ds ++ [phase]) (hdone : ∀ d ∈ ds, d = .done) :
    s.inFlight = phase.batch?.toList := by
  unfold inFlight
  rw [hdrains, filterMap_concat, inFlight_of_done hdone, List.nil_append]

/-! ## Steps -/

theorem DrainInv.enqueue (h : DrainInv s) (events : List ε) (state : Option σ) :
    DrainInv (s.enqueue byteLength events state) := by
  obtain ⟨gs, gi, gp, hg, hpromise⟩ := h.grouped
  unfold AgentSessionDelivery.enqueue
  split
  · rename_i hempty
    -- an empty call is not one that has something to send
    have hfilter : (s.calls ++ [(⟨events, state, s.completion⟩ : EnqueueCall ε σ)]).filter
        (·.hasWork) = s.calls.filter (·.hasWork) := by
      simp [List.filter_append, EnqueueCall.hasWork, hempty]
    exact ⟨h.active, h.idle, gs, gi, gp,
      ⟨hg.calls.trans hfilter.symm, hg.sent, hg.inFlight, hg.waiting⟩, hpromise⟩
  · rename_i hwork
    have hfilter : ∀ promise,
        (s.calls ++ [(⟨events, state, promise⟩ : EnqueueCall ε σ)]).filter (·.hasWork) =
          s.calls.filter (·.hasWork) ++ [⟨events, state, promise⟩] := by
      intro promise
      have hc : EnqueueCall.hasWork (⟨events, state, promise⟩ : EnqueueCall ε σ) = true := by
        cases hb : events.isEmpty && state.isNone with
        | true => exact absurd (Bool.and_eq_true_iff.mp hb) hwork
        | false => simp only [EnqueueCall.hasWork, hb, Bool.not_false]
      rw [List.filter_append, List.filter_cons_of_pos hc, List.filter_nil]
    by_cases hd : s.draining = true
    · dsimp only
      rw [if_pos hd]
      obtain ⟨gp', hgp', hflat⟩ :=
        push_groups hg.waiting ⟨events, state, s.completion⟩ (byteLength events)
      refine ⟨h.active, fun hidle => absurd (hd.symm.trans hidle) (by decide), gs, gi, gp',
        ⟨?_, hg.sent, hg.inFlight, hgp'⟩, ?_⟩
      · show _ = (s.calls ++ [_]).filter _
        rw [hfilter, ← hg.calls]
        simp [hflat]
      · intro c hc
        rw [List.flatten_append, hflat, ← List.append_assoc, ← List.flatten_append] at hc
        obtain hc | hc := List.mem_append.mp hc
        · exact hpromise c hc
        · rw [List.mem_singleton.mp hc]
    · -- nothing waits and nothing is in flight: the call starts a drain of its own
      obtain ⟨hpending, hdone⟩ := h.idle (Bool.eq_false_iff.mpr hd)
      have hnone : s.inFlight = [] := inFlight_of_done hdone
      obtain rfl : gi = [] := List.forall₂_nil_right_iff.mp (hnone ▸ hg.inFlight)
      obtain rfl : gp = [] := List.forall₂_nil_right_iff.mp (hpending ▸ hg.waiting)
      dsimp only
      rw [if_neg hd]
      obtain ⟨gp', hgp', hflat⟩ :=
        push_groups hg.waiting ⟨events, state, some s.drains.length⟩ (byteLength events)
      refine ⟨fun _ => ⟨s.drains, .ready, rfl, hdone, by simp, rfl⟩,
        fun hidle => absurd hidle (by simp), gs, [], gp', ⟨?_, hg.sent, ?_, hgp'⟩, ?_⟩
      · show _ = (s.calls ++ [_]).filter _
        rw [hfilter, ← hg.calls]
        simp [hflat]
      · rw [inFlight_active rfl hdone]
        exact .nil
      · intro c hc
        simp only [List.nil_append, hflat, List.flatten_nil, List.mem_singleton] at hc
        rw [hc]

theorem DrainInv.turn (h : DrainInv s) (hk : s.drains[k]? = some .ready) : DrainInv (s.turn k) := by
  obtain ⟨gs, gi, gp, hg, hpromise⟩ := h.grouped
  obtain ⟨ds, hdrains, rfl, hdone, hdraining, hcompletion⟩ := h.active_eq hk (by simp)
  have hnone : s.inFlight = [] := inFlight_active hdrains hdone
  have hgi : gi = [] := List.forall₂_nil_right_iff.mp (hnone ▸ hg.inFlight)
  subst hgi
  unfold AgentSessionDelivery.turn
  split
  · rename_i batch rest hpending
    obtain ⟨g, gp', hcarries, hwaiting, rfl⟩ :=
      List.forall₂_cons_right_iff.mp (hpending ▸ hg.waiting)
    rw [hdrains, set_active]
    refine ⟨fun _ => ⟨ds, _, rfl, hdone, by simp, hcompletion⟩,
      fun hidle => absurd (hdraining.symm.trans hidle) (by decide), gs, [g], gp',
      ⟨?_, hg.sent, ?_, hwaiting⟩, ?_⟩
    · rw [← hg.calls]
      simp
    · rw [inFlight_active rfl hdone]
      exact .cons hcarries .nil
    · exact hpromise
  · rename_i hpending
    have hgp : gp = [] := List.forall₂_nil_right_iff.mp (hpending ▸ hg.waiting)
    subst hgp
    rw [hdrains, set_active]
    have hall : ∀ d ∈ ds ++ [(.done : DrainPhase ε σ)], d = .done := by
      intro d hd
      obtain hd | hd := List.mem_append.mp hd
      · exact hdone d hd
      · exact List.mem_singleton.mp hd
    refine ⟨fun hactive => absurd hactive (by simp), fun _ => ⟨hpending, hall⟩, gs, [], [],
      ⟨hg.calls, hg.sent, ?_, hg.waiting⟩, by simp⟩
    rw [inFlight_active rfl hdone]
    exact .nil

theorem DrainInv.settle (h : DrainInv s) {batch : DeliveryBatch ε σ}
    (hk : s.drains[k]? = some (.sending batch)) : DrainInv (s.settle k batch) := by
  obtain ⟨gs, gi, gp, hg, hpromise⟩ := h.grouped
  obtain ⟨ds, hdrains, rfl, hdone, hdraining, hcompletion⟩ := h.active_eq hk (by simp)
  have hone : s.inFlight = [batch] := inFlight_active hdrains hdone
  obtain ⟨g, gi', hcarries, hnil, rfl⟩ := List.forall₂_cons_right_iff.mp (hone ▸ hg.inFlight)
  obtain rfl := List.forall₂_nil_right_iff.mp hnil
  unfold AgentSessionDelivery.settle
  rw [hdrains, set_active]
  refine ⟨fun _ => ⟨ds, .ready, rfl, hdone, by simp, hcompletion⟩,
    fun hidle => absurd (hdraining.symm.trans hidle) (by decide), gs ++ [g], [], gp,
    ⟨?_, List.rel_append hg.sent (.cons hcarries .nil), ?_, hg.waiting⟩, ?_⟩
  · rw [← hg.calls]
    simp
  · rw [inFlight_active rfl hdone]
    exact .nil
  · intro c hc
    refine hpromise c ?_
    rw [List.flatten_append]
    exact List.mem_append_right _ hc

theorem DrainInv.act (h : DrainInv s) {a : DeliveryAction ε σ} (ht : s.act byteLength a = .ok t) :
    DrainInv t := by
  cases a with
  | enqueue events state =>
    cases ht
    exact h.enqueue events state
  | turn k =>
    simp only [AgentSessionDelivery.act] at ht
    split at ht
    · rename_i hk
      cases ht
      exact h.turn hk
    · cases ht
  | settle k rejected =>
    simp only [AgentSessionDelivery.act] at ht
    split at ht
    · rename_i batch hk
      cases ht
      exact h.settle hk
    · cases ht

theorem drainInv_reachable (h : (deliverySystem byteLength).Reachable s) : DrainInv s := by
  refine h.invariant ?_ fun _ _ _ _ hs hst => hs.act hst
  rintro _ rfl
  refine ⟨by simp [new], by simp [new], [], [], [], ⟨rfl, .nil, .nil, .nil⟩, by simp⟩

/-! ## A drain ends -/

/-- A run without calls of `enqueue` at whose end every drain has ended. -/
def CanEnd (byteLength : List ε → Nat) (s : AgentSessionDelivery ε σ) : Prop :=
  ∃ as t, (deliverySystem byteLength).Path s as t ∧
    (∀ a ∈ as, ∀ events state, a ≠ .enqueue events state) ∧ ∀ d ∈ t.drains, d = .done

theorem CanEnd.step {a : DeliveryAction ε σ} (ht : s.act byteLength a = .ok t)
    (ha : ∀ events state, a ≠ .enqueue events state) (h : t.CanEnd byteLength) :
    s.CanEnd byteLength := by
  obtain ⟨as, u, hpath, has, hdone⟩ := h
  have hone : (deliverySystem byteLength).Path s [a] t := .snoc (.nil s) ht
  refine ⟨[a] ++ as, u, hone.append hpath, ?_, hdone⟩
  intro b hb
  obtain hb | hb := List.mem_append.mp hb
  · rw [List.mem_singleton.mp hb]
    exact ha
  · exact has b hb

theorem canEnd_settle (ds : List (DrainPhase ε σ)) (batch : DeliveryBatch ε σ)
    (hdrains : s.drains = ds ++ [.sending batch])
    (h : (s.settle ds.length batch).CanEnd byteLength) : s.CanEnd byteLength := by
  refine h.step (a := .settle ds.length false) ?_ (by simp)
  simp [AgentSessionDelivery.act, hdrains]

/-- By induction on what waits: each turn sends a batch, and each send settles. -/
theorem canEnd_ready (hpending : s.pending = pending) (hdrains : s.drains = ds ++ [.ready])
    (hdone : ∀ d ∈ ds, d = .done) : s.CanEnd byteLength := by
  have hturn : s.act byteLength (.turn ds.length) = .ok (s.turn ds.length) := by
    simp [AgentSessionDelivery.act, hdrains]
  induction pending generalizing s with
  | nil =>
    refine CanEnd.step hturn (by simp) ⟨[], _, .nil _, by simp, ?_⟩
    simp only [turn, hpending, hdrains, set_active]
    simpa [or_imp, forall_and] using hdone
  | cons batch pending ih =>
    refine CanEnd.step hturn (by simp) (canEnd_settle ds batch ?_ ?_)
    · simp only [turn, hpending, hdrains, set_active]
    · have hnext : ((s.turn ds.length).settle ds.length batch).drains = ds ++ [.ready] := by
        simp only [turn, settle, hpending, hdrains, set_active]
      refine ih ?_ hnext ?_
      · simp only [turn, settle, hpending]
      · simp [AgentSessionDelivery.act, hnext]

theorem DrainInv.canEnd (h : DrainInv s) : s.CanEnd byteLength := by
  cases hd : s.draining with
  | false => exact ⟨[], s, .nil s, by simp, (h.idle hd).2⟩
  | true =>
    obtain ⟨ds, phase, hdrains, hdone, hne, -⟩ := h.active hd
    cases phase with
    | ready => exact canEnd_ready rfl hdrains hdone
    | sending batch =>
      have hnext : (s.settle ds.length batch).drains = ds ++ [.ready] := by
        show s.drains.set ds.length .ready = _
        rw [hdrains, set_active]
      exact canEnd_settle ds batch hdrains (canEnd_ready rfl hnext hdone)
    | done => exact absurd rfl hne

/-! ## Order and content -/

theorem flatMap_events (h : List.Forall₂ DeliveryBatch.Carries gs bs) :
    bs.flatMap (·.events) = gs.flatten.flatMap (·.events) := by
  induction h with
  | nil => rfl
  | cons hgb _ ih => simp [hgb.events, ih]

theorem filterMap_state (h : List.Forall₂ DeliveryBatch.Carries gs bs) :
    bs.filterMap (·.state) = gs.flatten.filterMap (·.state) := by
  induction h with
  | nil => rfl
  | @cons g b gs bs hgb _ ih =>
    rw [List.flatten_cons, List.filterMap_append, ← ih]
    obtain ⟨c, rfl, hstate⟩ | ⟨hnone, hstate⟩ := hgb.state
    · cases hc : c.state <;> simp [hstate, hc]
    · have hg : g.filterMap (·.state) = [] := List.filterMap_eq_nil_iff.mpr hnone
      simp [hstate, hg]

theorem filter_hasWork (calls : List (EnqueueCall ε σ)) :
    (calls.filter (·.hasWork)).flatMap (·.events) = calls.flatMap (·.events) ∧
      (calls.filter (·.hasWork)).filterMap (·.state) = calls.filterMap (·.state) := by
  induction calls with
  | nil => exact ⟨rfl, rfl⟩
  | cons c calls ih =>
    by_cases hc : c.hasWork = true
    · rw [List.filter_cons_of_pos hc]
      cases hstate : c.state <;> simp [ih.1, ih.2, hstate]
    · rw [List.filter_cons_of_neg hc]
      simp only [EnqueueCall.hasWork, Bool.not_eq_true', Bool.not_eq_false, Bool.and_eq_true,
        List.isEmpty_iff, Option.isNone_iff_eq_none] at hc
      simp [ih.1, ih.2, hc.1, hc.2]

/-- Order and content of the delivery. -/
structure InOrder (byteLength : List ε → Nat) (s : AgentSessionDelivery ε σ) : Prop where
  oneInFlight : s.inFlight.length ≤ 1
  /-- Nothing is lost, duplicated or reordered. -/
  events : (s.sent ++ s.inFlight ++ s.pending).flatMap (·.events) = s.calls.flatMap (·.events)
  patches : (s.sent ++ s.inFlight ++ s.pending).filterMap (·.state) = s.calls.filterMap (·.state)
  /-- A batch with a patch is one call; other batches join calls without a patch. The promise of
      a call whose batch is not sent is not settled. -/
  batches : ∃ gs gi gp, s.Grouped gs gi gp ∧ ∀ c ∈ (gi ++ gp).flatten, ¬s.IsSettled c.promise
  /-- When every drain has ended, all is sent; and that far the drains get by themselves. -/
  drained : (∀ d ∈ s.drains, d = .done) → s.inFlight = [] ∧ s.pending = []
  ends : s.CanEnd byteLength

/-- In every reachable state delivery has kept order and content. -/
theorem delivery_inOrder (byteLength : List ε → Nat) {s : AgentSessionDelivery ε σ}
    (h : (deliverySystem byteLength).Reachable s) : s.InOrder byteLength := by
  have hinv := drainInv_reachable h
  obtain ⟨gs, gi, gp, hg, hpromise⟩ := hinv.grouped
  have hall := List.rel_append (List.rel_append hg.sent hg.inFlight) hg.waiting
  obtain ⟨hevents, hpatches⟩ := filter_hasWork s.calls
  refine ⟨?_, ?_, ?_, ⟨gs, gi, gp, hg, ?_⟩, fun hdone => ⟨inFlight_of_done hdone, ?_⟩,
    hinv.canEnd⟩
  · cases hd : s.draining with
    | true =>
      obtain ⟨ds, phase, hdrains, hdone, -⟩ := hinv.active hd
      rw [inFlight_active hdrains hdone]
      exact Option.length_toList_le
    | false =>
      have hnone : s.inFlight = [] := inFlight_of_done (hinv.idle hd).2
      simp [hnone]
  · rw [flatMap_events hall, hg.calls, hevents]
  · rw [filterMap_state hall, hg.calls, hpatches]
  · intro c hc hsettled
    cases hd : s.draining with
    | true =>
      obtain ⟨ds, phase, hdrains, -, hne, hcompletion⟩ := hinv.active hd
      rw [hpromise c hc, hcompletion] at hsettled
      have hlast : s.drains[ds.length]? = some .done := hsettled
      rw [hdrains] at hlast
      exact hne (by simpa using hlast)
    | false =>
      obtain ⟨hpending, hdone⟩ := hinv.idle hd
      have hnone : s.inFlight = [] := inFlight_of_done hdone
      obtain rfl : gi = [] := List.forall₂_nil_right_iff.mp (hnone ▸ hg.inFlight)
      obtain rfl : gp = [] := List.forall₂_nil_right_iff.mp (hpending ▸ hg.waiting)
      cases hc
  · cases hd : s.draining with
    | true =>
      obtain ⟨ds, phase, hdrains, -, hne, -⟩ := hinv.active hd
      exact absurd (hdone phase (by simp [hdrains])) hne
    | false => exact (hinv.idle hd).1

/-- Output waits behind a slow request, a state patch goes on its own. -/
theorem delivery_inOrder_slowRequest :
    ∃ s, (deliverySystem (ε := Nat) (σ := String) List.length).Reachable s ∧
      s.sent.map (fun b => (b.events, b.state)) =
        [([0], some "busy"), ([1, 2, 3], none), ([], some "ready")] ∧ s.InOrder List.length := by
  have hrun : ∀ s a t, AgentSessionDelivery.act (ε := Nat) (σ := String) List.length s a = .ok t →
      (deliverySystem List.length).step s a t := fun _ _ _ h => h
  obtain ⟨s, hpath, hs⟩ := Transition.exists_path_of_run hrun .new
    [.enqueue [0] (some "busy"), .turn 0, .enqueue [1] none, .enqueue [2, 3] none,
      .enqueue [] (some "ready"), .settle 0 true, .turn 0, .settle 0 false, .turn 0,
      .settle 0 false, .turn 0]
    (fun s => s.sent.map (fun b => (b.events, b.state)) =
      [([0], some "busy"), ([1, 2, 3], none), ([], some "ready")]) (by decide +kernel)
  have hreach : (deliverySystem List.length).Reachable s := .path (.init rfl) hpath
  exact ⟨s, hreach, of_decide_eq_true hs, delivery_inOrder List.length hreach⟩

end AgentSessionDelivery

end WorkflowBoard.AgentManager
