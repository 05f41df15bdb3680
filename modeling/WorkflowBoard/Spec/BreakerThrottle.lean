import WorkflowBoard.Native.CircuitBreaker

/-!
# An open breaker throttles dispatch

Between two probes of an open breaker lies a whole cooldown, whatever happens in between: further
failures, a success, calls for other keys. Only `reset`, `resetAgent` and the sweep of a breaker
whose last failure is old end this.
-/

namespace WorkflowBoard.AgentManager

/-! ## What a call does to an open breaker -/

namespace CircuitBreaker

variable {b : CircuitBreaker} {key k : String} {e : CircuitBreakerEntry}
variable {o : BreakerOptions} {now : Date}

theorem isOpen_noteFailure (hopen : e.isOpen = true) (exitCode : Option Int)
    (tail : Option String) (force : Bool) :
    (noteFailure o e now exitCode tail force).2.isOpen = true ∧
      (noteFailure o e now exitCode tail force).2.lastProbeAt = e.lastProbeAt := by
  unfold noteFailure
  dsimp only
  split
  · exact ⟨rfl, rfl⟩
  · exact ⟨hopen, rfl⟩

/-- Another key's entry makes room for itself without this one, unless this one is stale. -/
theorem get_withEntry (hget : b.get key = some e) (hsize : b.size < o.maxKeys)
    (hfresh : b.get k = none → isStale o now e = false) :
    (b.withEntry o now k).get key = some e := by
  unfold withEntry
  split
  · exact hget
  · rename_i hk
    have hne : key ≠ k := by
      rintro rfl
      rw [hget] at hk
      cases hk
    have hroom : ((b.sweepStale o now).2.enforceCap o) = (b.sweepStale o now).2 := by
      have hswept : (b.sweepStale o now).2.size ≤ b.size := InsertMap.size_deleteWhere_le _ _
      unfold enforceCap
      rw [if_pos (by omega)]
    rw [InsertMap.get_set_other hne, hroom]
    refine (InsertMap.get_deleteWhere fun e' he' => ?_).trans hget
    cases hget.symm.trans he'
    exact hfresh hk

/-- A failure leaves the entry open and does not touch the last probe. -/
theorem get_record (hget : b.get key = some e) (hopen : e.isOpen = true)
    (hsize : b.size < o.maxKeys) (hfresh : b.get k = none → isStale o now e = false)
    (exitCode : Option Int) (tail : Option String) (force : Bool) :
    ∃ e', (b.record o now k exitCode tail force).2.get key = some e' ∧ e'.isOpen = true ∧
      e'.lastProbeAt = e.lastProbeAt := by
  have hentry := get_withEntry hget hsize hfresh
  unfold record
  by_cases hk : key = k
  · subst hk
    refine ⟨_, InsertMap.get_set_self _ _ _, ?_⟩
    rw [hentry]
    exact isOpen_noteFailure hopen exitCode tail force
  · exact ⟨e, (InsertMap.get_set_other hk).trans hentry, hopen, rfl⟩

/-- A probe comes a cooldown after the last one and is stamped; a blocked call changes nothing. -/
theorem shouldBlock_cases (o : BreakerOptions) (now : Date) (hget : b.get key = some e)
    (hopen : e.isOpen = true) :
    ((b.shouldBlock o now key).1 = none ∧ e.lastProbeAt + o.cooldownMs ≤ now ∧
      (b.shouldBlock o now key).2 = b.set key { e with lastProbeAt := now }) ∨
    ((b.shouldBlock o now key).1 ≠ none ∧ (b.shouldBlock o now key).2 = b) := by
  unfold shouldBlock
  rw [hget]
  simp only [hopen, if_true]
  split
  · rename_i helapsed
    have hanchor : ∀ opened probed cooldown now : Int, cooldown ≤ now - max opened probed →
        probed + cooldown ≤ now := by omega
    exact .inl ⟨rfl, hanchor _ _ _ _ helapsed, rfl⟩
  · exact .inr ⟨by simp, rfl⟩

theorem get_shouldBlock_other (hne : key ≠ k) : (b.shouldBlock o now k).2.get key = b.get key := by
  unfold shouldBlock
  split
  · rfl
  · split
    · dsimp only
      split
      · exact InsertMap.get_set_other hne
      · rfl
    · rfl

theorem get_reset_other (hne : key ≠ k) : (b.reset k).get key = b.get key :=
  InsertMap.get_delete_other hne

theorem get_recordSuccess (hget : b.get key = some e) (hopen : e.isOpen = true) :
    (b.recordSuccess k).get key = some e := by
  by_cases hk : key = k
  · subst hk
    unfold recordSuccess
    simp only [hget, hopen, if_true]
  · unfold recordSuccess
    split
    · exact (get_reset_other hk).trans hget
    · split
      · exact hget
      · exact (get_reset_other hk).trans hget

end CircuitBreaker

/-! ## Runs -/

/-- The operator clears the breaker of the key. -/
def BreakerCall.clears (key : String) (c : BreakerCall) : Bool :=
  match c.method with
  | .reset k => k = key
  | .resetAgent agentId => CircuitBreaker.isKeyOf agentId key
  | _ => false

/-- The time a call sweeps with: `sweep` itself, and `record` for a key that has no entry. -/
def BreakerCall.sweepTime (b : CircuitBreaker) (c : BreakerCall) : Option Date :=
  match c.method with
  | .sweep now => some now
  | .record k _ _ _ => if b.get k = none then some c.now else none
  | _ => none

/-- The call neither clears the key nor sweeps it more than `staleMs` after its last failure. -/
def BreakerCall.Keeps (o : BreakerOptions) (key : String) (s : BreakerState) (c : BreakerCall) :
    Prop :=
  c.clears key = false ∧ ∀ now, c.sweepTime s.breaker = some now →
    ∀ e, s.breaker.get key = some e → (now - e.lastFailureAt : Int) ≤ o.staleMs

/-- The time of a call that allows dispatch for the key. -/
def BreakerCall.grantTime (key : String) (c : BreakerCall) : Option Date :=
  match c.method with
  | .shouldBlock k none => if k = key then some c.now else none
  | _ => none

def BreakerState.isOpen (s : BreakerState) (key : String) : Prop :=
  ∃ e, s.breaker.get key = some e ∧ e.isOpen = true

/-- The breaker is still open; the probes so far lie a cooldown apart, and the entry knows the
    last one. -/
structure Throttled (o : BreakerOptions) (key : String) (grants : List Date) (s : BreakerState) :
    Prop where
  entry : ∃ e, s.breaker.get key = some e ∧ e.isOpen = true ∧ ∀ g ∈ grants, g ≤ e.lastProbeAt
  past : ∀ g ∈ grants, g ≤ s.now
  apart : grants.Pairwise fun g g' => g + o.cooldownMs ≤ g'

section Runs

variable {o : BreakerOptions} {key : String} {grants : List Date} {s t : BreakerState}
  {c : BreakerCall}

theorem BreakerState.act_ok (h : s.act o c = .ok t) :
    s.now ≤ c.now ∧ s.breaker.size < o.maxKeys ∧ t.now = c.now ∧
      s.breaker.act o c.now c.method = .ok t.breaker := by
  unfold BreakerState.act at h
  split at h
  · cases h
  · rename_i hclock
    split at h
    · cases h
    · rename_i hsize
      split at h
      · rename_i b hb
        cases h
        exact ⟨Int.not_lt.mp hclock, by omega, rfl, hb⟩
      · cases h

/-- A call that allows nothing keeps the throttle if it leaves the entry open and its last probe
    alone. -/
theorem Throttled.quiet (h : Throttled o key grants s) (hclock : s.now ≤ t.now)
    (hgrant : c.grantTime key = none)
    (hentry : ∀ e, s.breaker.get key = some e → e.isOpen = true →
      ∃ e', t.breaker.get key = some e' ∧ e'.isOpen = true ∧ e'.lastProbeAt = e.lastProbeAt) :
    Throttled o key (grants ++ (c.grantTime key).toList) t := by
  obtain ⟨e, hget, hopen, hlast⟩ := h.entry
  obtain ⟨e', hget', hopen', hsame⟩ := hentry e hget hopen
  rw [hgrant, Option.toList_none, List.append_nil]
  exact ⟨⟨e', hget', hopen', fun g hg => by rw [hsame]; exact hlast g hg⟩,
    fun g hg => Int.le_trans (h.past g hg) hclock, h.apart⟩

theorem Throttled.step (h : Throttled o key grants s) (hstep : s.act o c = .ok t)
    (hkeeps : c.Keeps o key s) : Throttled o key (grants ++ (c.grantTime key).toList) t := by
  obtain ⟨hclock, hsize, hnow, hact⟩ := BreakerState.act_ok hstep
  rw [← hnow] at hclock
  obtain ⟨hclears, hsweep⟩ := hkeeps
  obtain ⟨now, method⟩ := c
  cases method with
  | record k exitCode tail force =>
    refine h.quiet hclock rfl fun e hget hopen => ?_
    rw [← Except.ok.inj hact]
    refine CircuitBreaker.get_record hget hopen hsize (fun hk => ?_) exitCode tail force
    have hle := hsweep now (by simp [BreakerCall.sweepTime, hk]) e hget
    simpa [CircuitBreaker.isStale] using hle
  | shouldBlock k answer =>
    simp only [CircuitBreaker.act] at hact
    split at hact
    · rename_i hanswer
      have ht := Except.ok.inj hact
      by_cases hk : k = key
      · subst hk
        obtain ⟨e, hget, hopen, hlast⟩ := h.entry
        obtain ⟨hnone, hcool, hset⟩ | ⟨hsome, hsame⟩ :=
          CircuitBreaker.shouldBlock_cases o now hget hopen
        · -- a probe: every earlier one is at most the last one, which is a cooldown ago
          have hall : ∀ g ∈ grants, g + o.cooldownMs ≤ now := fun g hg =>
            Int.le_trans (Int.add_le_add_right (hlast g hg) _) hcool
          have hgrant : BreakerCall.grantTime k ⟨now, .shouldBlock k answer⟩ = some now := by
            rw [← hanswer, hnone]
            simp [BreakerCall.grantTime]
          rw [hgrant, Option.toList_some]
          refine ⟨⟨{ e with lastProbeAt := now }, ?_, hopen, ?_⟩, ?_, ?_⟩
          · rw [← ht, hset]
            exact InsertMap.get_set_self _ _ _
          · intro g hg
            obtain hg | hg := List.mem_append.mp hg
            · rw [hnow] at hclock
              exact Int.le_trans (h.past g hg) hclock
            · exact Int.le_of_eq (List.mem_singleton.mp hg)
          · intro g hg
            obtain hg | hg := List.mem_append.mp hg
            · exact Int.le_trans (h.past g hg) hclock
            · rw [hnow]
              exact Int.le_of_eq (List.mem_singleton.mp hg)
          · refine List.pairwise_append.mpr ⟨h.apart, List.pairwise_singleton _ _, ?_⟩
            intro g hg g' hg'
            rw [List.mem_singleton.mp hg']
            exact hall g hg
        · refine h.quiet hclock ?_ fun e hget hopen => ⟨e, ?_, hopen, rfl⟩
          · rw [hanswer] at hsome
            cases answer with
            | none => exact absurd rfl hsome
            | some reason => rfl
          · rw [← ht, hsame]
            exact hget
      · refine h.quiet hclock ?_ fun e hget hopen => ⟨e, ?_, hopen, rfl⟩
        · cases answer with
          | none => simp [BreakerCall.grantTime, hk]
          | some reason => rfl
        · rw [← ht, CircuitBreaker.get_shouldBlock_other (Ne.symm hk)]
          exact hget
    · cases hact
  | recordSuccess k =>
    refine h.quiet hclock rfl fun e hget hopen => ⟨e, ?_, hopen, rfl⟩
    rw [← Except.ok.inj hact]
    exact CircuitBreaker.get_recordSuccess hget hopen
  | reset k =>
    refine h.quiet hclock rfl fun e hget hopen => ⟨e, ?_, hopen, rfl⟩
    rw [← Except.ok.inj hact]
    have hne : key ≠ k := by
      rintro rfl
      simp [BreakerCall.clears] at hclears
    exact (CircuitBreaker.get_reset_other hne).trans hget
  | resetAgent agentId =>
    refine h.quiet hclock rfl fun e hget hopen => ⟨e, ?_, hopen, rfl⟩
    rw [← Except.ok.inj hact]
    exact (InsertMap.get_deleteWhere fun _ _ => hclears).trans hget
  | sweep at' =>
    refine h.quiet hclock rfl fun e hget hopen => ⟨e, ?_, hopen, rfl⟩
    rw [← Except.ok.inj hact]
    refine (InsertMap.get_deleteWhere fun e' he' => ?_).trans hget
    simpa [CircuitBreaker.isStale] using hsweep at' rfl e' he'

theorem throttled_path (hopen : s.isOpen key) {cs : List BreakerCall}
    (hp : ((breakerSystem o).restrict fun s c _ => c.Keeps o key s).Path s cs t) :
    Throttled o key (cs.filterMap (BreakerCall.grantTime key)) t := by
  induction hp with
  | nil =>
    obtain ⟨e, hget, hopen⟩ := hopen
    exact ⟨⟨e, hget, hopen, by simp⟩, by simp, List.Pairwise.nil⟩
  | snoc _ hstep ih =>
    rw [filterMap_concat]
    exact ih.step hstep.1 hstep.2

/-- As long as an open breaker is not cleared and not swept as abandoned, any two calls that
    allow dispatch for its key lie a cooldown apart. -/
theorem probes_apart (o : BreakerOptions) (key : String) {s t : BreakerState}
    (hopen : s.isOpen key) {cs : List BreakerCall}
    (hp : ((breakerSystem o).restrict fun s c _ => c.Keeps o key s).Path s cs t) :
    (cs.filterMap (BreakerCall.grantTime key)).Pairwise fun g g' => g + o.cooldownMs ≤ g' :=
  (throttled_path hopen hp).apart

/-- One non-retryable failure at time 0. -/
def trippedBreaker : BreakerState where
  breaker :=
    { entries := [("a:t:r",
        { consecutiveFailures := 1, lastExitCode := some 41, isOpen := true })] }
  now := 0

/-- Two probes of an open breaker, with a success and another key's success in between. -/
theorem probes_apart_twoProbes :
    ∃ t, ((breakerSystem {}).restrict fun s c _ => c.Keeps {} "a:t:r" s).Path trippedBreaker
        [⟨3600000, .shouldBlock "a:t:r" none⟩, ⟨3600001, .recordSuccess "a:t:r"⟩,
          ⟨3600001, .recordSuccess "b:u:r"⟩, ⟨7200000, .shouldBlock "a:t:r" none⟩] t ∧
      ([3600000, 7200000] : List Date).Pairwise fun g g' => g + 3600000 ≤ g' := by
  obtain ⟨t, hpath, -⟩ := Transition.exists_path_guarded
    (M := (breakerSystem {}).restrict fun s c _ => c.Keeps {} "a:t:r" s)
    (C := fun s c => c.clears "a:t:r" = false ∧ c.sweepTime s.breaker = none)
    (fun _ _ _ hok h => ⟨h, hok.1, fun now hnow => by rw [hok.2] at hnow; cases hnow⟩)
    trippedBreaker
    [⟨3600000, .shouldBlock "a:t:r" none⟩, ⟨3600001, .recordSuccess "a:t:r"⟩,
      ⟨3600001, .recordSuccess "b:u:r"⟩, ⟨7200000, .shouldBlock "a:t:r" none⟩] (fun _ => true)
    (by decide +kernel)
  exact ⟨t, hpath, probes_apart {} "a:t:r" ⟨_, rfl, rfl⟩ hpath⟩

/-- An abandoned breaker is swept by another key's failure; dispatch is then allowed twice at
    once. -/
theorem not_always_throttled :
    ¬ ∀ (o : BreakerOptions) (key : String) (s t : BreakerState) (cs : List BreakerCall),
      (breakerSystem o).Reachable s → s.isOpen key →
      ((breakerSystem o).restrict fun _ c _ => c.clears key = false).Path s cs t →
      (cs.filterMap (BreakerCall.grantTime key)).Pairwise fun g g' => g + o.cooldownMs ≤ g' := by
  intro hall
  obtain ⟨t, hpath, -⟩ := Transition.exists_path_guarded
    (M := (breakerSystem {}).restrict fun _ c _ => c.clears "a:t:r" = false)
    (C := fun _ c => c.clears "a:t:r" = false) (fun _ _ _ hok h => ⟨h, hok⟩) trippedBreaker
    [⟨3600001, .record "b:u:r" (some 41) none false⟩, ⟨3600001, .shouldBlock "a:t:r" none⟩,
      ⟨3600001, .shouldBlock "a:t:r" none⟩] (fun _ => true) (by decide +kernel)
  have hreach : (breakerSystem {}).Reachable trippedBreaker := by
    refine .step (a := ⟨0, .record "a:t:r" (some 41) none true⟩)
      (.init (rfl : (breakerSystem {}).init ⟨{}, 0⟩)) ?_
    show BreakerState.act {} _ _ = .ok _
    decide +kernel
  have hpair := hall {} "a:t:r" _ t _ hreach ⟨_, rfl, rfl⟩ hpath
  exact absurd hpair (by decide)

end Runs

end WorkflowBoard.AgentManager
