import WorkflowBoard.ForStd.List
import WorkflowBoard.Native.DispatchRetry

/-!
# One retry at a time (`PendingDispatchRetry`)

For each key at most one attempt is in flight and one timer armed, and `onGiveUp` is called only
after the queued entry has used up its attempts. The map has one slot for a key, and an attempt
looks only whether the slot is taken: all of this holds as long as a key is not registered anew
while the attempt of an entry that was dropped is still in flight.
-/

namespace WorkflowBoard.AgentManager

/-- The attempt awaits `verify` or `onRetry`. -/
def RetryAttempt.inFlight (a : RetryAttempt) : Bool :=
  a.phase = .verifying || a.phase = .retrying

/-- The attempt has not returned. -/
def RetryAttempt.active (a : RetryAttempt) : Bool := a.phase ≠ .returned

theorem RetryAttempt.active_of_inFlight {a : RetryAttempt} (h : a.inFlight = true) :
    a.active = true := by
  obtain ⟨e, phase⟩ := a
  cases phase <;> first | rfl | cases h

/-! ## What is claimed of a state -/

/-- The attempts made for the key since an entry was last created for it. -/
def countEvent (key : String) (n : Nat) : RetryEvent → Nat
  | .registered k => if k = key then 0 else n
  | .attempted k => if k = key then n + 1 else n
  | .gaveUp _ _ _ => n

def attemptsSince (key : String) (events : List RetryEvent) : Nat :=
  events.foldl (countEvent key) 0

namespace PendingDispatchRetry

/-- At most one attempt is in flight for each key. -/
def OneAttempt (s : PendingDispatchRetry) : Prop :=
  ∀ key, (s.attempts.filter fun a => a.inFlight && s.keyOf a.entry = some key).length ≤ 1

/-- At most one timer is armed for each key. -/
def OneTimer (s : PendingDispatchRetry) : Prop :=
  ∀ key, (s.timers.filter fun t => s.keyOf t.entry = some key).length ≤ 1

/-- Whenever `onGiveUp` was called, the attempts of the entry then queued were used up, and that
    entry is the one that was taken out of the map. -/
def GiveUpsEarned (o : RetryOptions) (s : PendingDispatchRetry) : Prop :=
  ∀ pre key e removed post, s.events = pre ++ .gaveUp key e removed :: post →
    o.maxAttempts ≤ attemptsSince key pre ∧ removed = some e

/-- The key of a new entry has no attempt in flight. -/
def RegistersIdle (s : PendingDispatchRetry) : RetryAction → Bool
  | .register m _ => (s.get m.key).isSome ||
      s.attempts.all fun a => !(a.inFlight && s.keyOf a.entry = some m.key)
  | _ => true

end PendingDispatchRetry

/-- The runs in which no key is registered anew while an attempt for it is in flight. -/
def idleRuns (o : RetryOptions) : Transition PendingDispatchRetry RetryAction :=
  (retrySystem o).restrict fun s a _ => s.RegistersIdle a = true

/-! ## The invariant -/

/-- Queued entries have distinct keys; an armed timer belongs to a queued entry and is its current
    one; an entry with an attempt is marked; and a queued entry has the key of an attempt in flight
    only if the attempt is its own. -/
structure RetryInv (o : RetryOptions) (s : PendingDispatchRetry) : Prop where
  bound : ∀ e ∈ s.entries, e < s.heap.length
  keys : ∀ e ∈ s.entries, ∀ e' ∈ s.entries, s.keyOf e = s.keyOf e' → e = e'
  fresh : ∀ t ∈ s.timers, t.handle < s.nextHandle
  handles : (s.timers.map (·.handle)).Nodup
  armed : ∀ t ∈ s.timers, t.entry ∈ s.entries ∧ (s.heap[t.entry]?).bind (·.timer) = some t.handle
  marked : ∀ (i : Nat) (a : RetryAttempt), s.attempts[i]? = some a → a.active = true →
    ∃ entry : PendingRetryEntry, s.heap[a.entry]? = some entry ∧ entry.attempting = true
  single : ∀ (i j : Nat) (a b : RetryAttempt), s.attempts[i]? = some a → s.attempts[j]? = some b →
    a.active = true →
    b.active = true → a.entry = b.entry → i = j
  own : ∀ (i : Nat) (a : RetryAttempt), s.attempts[i]? = some a → a.inFlight = true →
    ∀ e ∈ s.entries, s.keyOf e = s.keyOf a.entry → e = a.entry
  flight : ∀ (i j : Nat) (a b : RetryAttempt), s.attempts[i]? = some a → s.attempts[j]? = some b →
    a.inFlight = true →
    b.inFlight = true → s.keyOf a.entry = s.keyOf b.entry → i = j
  idle : ∀ (i : Nat) (a : RetryAttempt), s.attempts[i]? = some a → a.inFlight = true →
    ∀ t ∈ s.timers, t.entry ≠ a.entry
  counts : ∀ e ∈ s.entries, ∀ entry : PendingRetryEntry, s.heap[e]? = some entry →
    attemptsSince entry.key s.events = entry.attempts
  earned : s.GiveUpsEarned o

section Rules

variable {o : RetryOptions} {s : PendingDispatchRetry} {e i : Nat} {key : String}
  {f : PendingRetryEntry → PendingRetryEntry}

/-! ### Reading the map -/

theorem heap_modify (j : Nat) :
    (s.modify e f).heap[j]? = (s.heap[j]?).map fun x => if e = j then f x else x := by
  show (s.heap.modify e f)[j]? = _
  rw [List.getElem?_modify]
  cases s.heap[j]? with
  | none => rfl
  | some x => rfl

theorem keyOf_modify (hkey : ∀ x, (f x).key = x.key) (j : Nat) :
    (s.modify e f).keyOf j = s.keyOf j := by
  unfold PendingDispatchRetry.keyOf
  rw [heap_modify]
  cases s.heap[j]? with
  | none => rfl
  | some x =>
    show some (if e = j then f x else x).key = some x.key
    split
    · rw [hkey]
    · rfl

variable {entry : PendingRetryEntry} {t : RetryTimer}

theorem keyOf_of_heap (h : s.heap[e]? = some entry) :
    s.keyOf e = some entry.key := by
  unfold PendingDispatchRetry.keyOf
  rw [h]
  rfl

theorem get_spec (h : s.get key = some e) : e ∈ s.entries ∧ s.keyOf e = some key :=
  ⟨List.mem_of_find?_eq_some h, by simpa using List.find?_some h⟩

theorem not_mem_of_get (h : s.get key = none) (he : e ∈ s.entries) : s.keyOf e ≠ some key := by
  have hnot := List.find?_eq_none.mp h e he
  simpa using hnot

theorem mem_delete : e ∈ (s.delete key).entries ↔ e ∈ s.entries ∧ s.keyOf e ≠ some key := by
  show e ∈ s.entries.filter _ ↔ _
  rw [List.mem_filter, decide_eq_true_eq]

theorem mem_clear {h : Option Nat}:
    t ∈ (s.clear h).timers ↔ t ∈ s.timers ∧ some t.handle ≠ h := by
  show t ∈ s.timers.filter _ ↔ _
  rw [List.mem_filter, decide_eq_true_eq]

/-! ### One primitive at a time -/

section

variable (h : RetryInv o s)
include h

/-- A field update of one entry. The timer may change if none is armed for it, and the mark may go
    if it has no attempt. -/
theorem RetryInv.modify (hkey : ∀ x, (f x).key = x.key)
    (hattempts : ∀ x, (f x).attempts = x.attempts)
    (htimer : (∀ x, (f x).timer = x.timer) ∨ ∀ t ∈ s.timers, t.entry ≠ e)
    (hmark : (∀ x, x.attempting = true → (f x).attempting = true) ∨
      ∀ (i : Nat) (a : RetryAttempt), s.attempts[i]? = some a → a.active = true → a.entry ≠ e) :
    RetryInv o (s.modify e f) where
  bound e' he' := by
    show e' < (s.heap.modify e f).length
    rw [List.length_modify]
    exact h.bound e' he'
  keys a ha b hb hab := by
    rw [keyOf_modify hkey, keyOf_modify hkey] at hab
    exact h.keys a ha b hb hab
  fresh := h.fresh
  handles := h.handles
  armed t ht := by
    obtain ⟨hmem, hhandle⟩ := h.armed t ht
    refine ⟨hmem, ?_⟩
    rw [heap_modify]
    cases hx : s.heap[t.entry]? with
    | none => rw [hx] at hhandle; cases hhandle
    | some x =>
      rw [hx] at hhandle
      show (if e = t.entry then f x else x).timer = some t.handle
      split
      · rename_i heq
        obtain hkeep | hnone := htimer
        · rw [hkeep]
          exact hhandle
        · exact absurd heq.symm (hnone t ht)
      · exact hhandle
  marked i a ha hactive := by
    obtain ⟨x, hx, hattempting⟩ := h.marked i a ha hactive
    refine ⟨if e = a.entry then f x else x, by rw [heap_modify, hx]; rfl, ?_⟩
    split
    · rename_i heq
      obtain hkeep | hnone := hmark
      · exact hkeep x hattempting
      · exact absurd heq.symm (hnone i a ha hactive)
    · exact hattempting
  single := h.single
  own i a ha hin e' he' heq := by
    rw [keyOf_modify hkey, keyOf_modify hkey] at heq
    exact h.own i a ha hin e' he' heq
  flight i j a b ha hb hia hib heq := by
    rw [keyOf_modify hkey, keyOf_modify hkey] at heq
    exact h.flight i j a b ha hb hia hib heq
  idle := h.idle
  counts e' he' entry hentry := by
    rw [heap_modify] at hentry
    obtain ⟨x, hx, rfl⟩ := Option.map_eq_some_iff.mp hentry
    have hcount := h.counts e' he' x hx
    split
    · rw [hkey, hattempts]
      exact hcount
    · exact hcount
  earned := h.earned

theorem RetryInv.clear (handle : Option Nat) : RetryInv o (s.clear handle) where
  bound := h.bound
  keys := h.keys
  fresh t ht := h.fresh t (mem_clear.mp ht).1
  handles := h.handles.sublist (List.Sublist.map _ List.filter_sublist)
  armed t ht := h.armed t (mem_clear.mp ht).1
  marked := h.marked
  single := h.single
  own := h.own
  flight := h.flight
  idle i a ha hin t ht := h.idle i a ha hin t (mem_clear.mp ht).1
  counts := h.counts
  earned := h.earned

/-- After its timer is cleared, an entry has none armed. -/
theorem RetryInv.cleared
    (ht : t ∈ (s.clear ((s.heap[e]?).bind (·.timer))).timers) : t.entry ≠ e := by
  obtain ⟨hmem, hne⟩ := mem_clear.mp ht
  intro heq
  have hhandle := (h.armed t hmem).2
  rw [heq] at hhandle
  exact hne hhandle.symm

theorem RetryInv.delete (hnone : ∀ t ∈ s.timers, s.keyOf t.entry ≠ some key) :
    RetryInv o (s.delete key) where
  bound e' he' := h.bound e' (mem_delete.mp he').1
  keys a ha b hb hab := h.keys a (mem_delete.mp ha).1 b (mem_delete.mp hb).1 hab
  fresh := h.fresh
  handles := h.handles
  armed t ht := ⟨mem_delete.mpr ⟨(h.armed t ht).1, hnone t ht⟩, (h.armed t ht).2⟩
  marked := h.marked
  single := h.single
  own i a ha hin e' he' heq := h.own i a ha hin e' (mem_delete.mp he').1 heq
  flight := h.flight
  idle := h.idle
  counts e' he' := h.counts e' (mem_delete.mp he').1
  earned := h.earned

theorem RetryInv.drop : RetryInv o (s.drop key) := by
  unfold PendingDispatchRetry.drop
  split
  · exact h
  · rename_i e hget
    obtain ⟨he, hkey⟩ := get_spec hget
    refine (h.clear _).delete ?_
    intro t ht heq
    -- the only queued entry with the key is the one whose timer was cleared
    have hentry := (h.armed t (mem_clear.mp ht).1).1
    exact h.cleared ht (h.keys t.entry hentry e he (heq.trans hkey.symm))

/-- An attempt goes on to a phase that is not more than it was. -/
theorem RetryInv.setPhase {a b : RetryAttempt} (ha : s.attempts[i]? = some a)
    (hentry : b.entry = a.entry) (hin : b.inFlight = true → a.inFlight = true)
    (hactive : b.active = true → a.active = true) :
    RetryInv o { s with attempts := s.attempts.set i b } := by
  -- whatever is in flight now, or active, was so before, with the same entry
  have hold : ∀ (j : Nat) (c : RetryAttempt), (s.attempts.set i b)[j]? = some c →
      ∃ d : RetryAttempt, s.attempts[j]? = some d ∧ d.entry = c.entry ∧
        (c.inFlight = true → d.inFlight = true) ∧
        (c.active = true → d.active = true) := by
    intro j c hc
    obtain ⟨rfl, rfl⟩ | ⟨-, hc⟩ := getElem?_set_cases hc
    · exact ⟨a, ha, hentry.symm, hin, hactive⟩
    · exact ⟨c, hc, rfl, id, id⟩
  constructor
  · exact h.bound
  · exact h.keys
  · exact h.fresh
  · exact h.handles
  · exact h.armed
  · intro j c hc hact
    obtain ⟨d, hd, hde, -, hdact⟩ := hold j c hc
    rw [← hde]
    exact h.marked j d hd (hdact hact)
  · intro j k c d hc hd hca hda hcd
    obtain ⟨c', hc', hce, -, hca'⟩ := hold j c hc
    obtain ⟨d', hd', hde, -, hda'⟩ := hold k d hd
    exact h.single j k c' d' hc' hd' (hca' hca) (hda' hda) (by rw [hce, hde, hcd])
  · intro j c hc hcin e' he' heq
    obtain ⟨d, hd, hde, hdin, -⟩ := hold j c hc
    rw [← hde] at heq ⊢
    exact h.own j d hd (hdin hcin) e' he' heq
  · intro j k c d hc hd hcin hdin hcd
    obtain ⟨c', hc', hce, hcin', -⟩ := hold j c hc
    obtain ⟨d', hd', hde, hdin', -⟩ := hold k d hd
    refine h.flight j k c' d' hc' hd' (hcin' hcin) (hdin' hdin) ?_
    rw [hce, hde]
    exact hcd
  · intro j c hc hcin t ht
    obtain ⟨d, hd, hde, hdin, -⟩ := hold j c hc
    rw [← hde]
    exact h.idle j d hd (hdin hcin) t ht
  · exact h.counts
  · exact h.earned

/-- An attempt of a queued, unmarked entry begins, after its timer was cleared. -/
theorem RetryInv.begin (he : e ∈ s.entries)
    (hentry : s.heap[e]? = some entry) (hmark : entry.attempting = false)
    (hnone : ∀ t ∈ s.timers, t.entry ≠ e) :
    RetryInv o { s.modify e fun entry => { entry with attempting := true, timer := none } with
      attempts := s.attempts ++ [{ entry := e, phase := .verifying }] } := by
  have hm := h.modify (e := e) (f := fun entry => { entry with attempting := true, timer := none })
    (fun _ => rfl) (fun _ => rfl) (.inr hnone) (.inl fun _ _ => rfl)
  -- no other attempt has the entry, for it would be marked; so none in flight has its key either
  have hother : ∀ (i : Nat) (a : RetryAttempt), s.attempts[i]? = some a → a.active = true →
    a.entry ≠ e := by
    intro i a ha hact heq
    obtain ⟨x, hx, hxm⟩ := h.marked i a ha hact
    rw [heq, hentry] at hx
    rw [← Option.some.inj hx, hmark] at hxm
    cases hxm
  have hkeyOf : ∀ j, (s.modify e fun entry =>
      { entry with attempting := true, timer := none }).keyOf j = s.keyOf j :=
    keyOf_modify fun _ => rfl
  have hkey : ∀ (i : Nat) (a : RetryAttempt), s.attempts[i]? = some a → a.inFlight = true →
    s.keyOf a.entry ≠ s.keyOf e :=
    fun i a ha hin heq => hother i a ha (RetryAttempt.active_of_inFlight hin)
      (h.own i a ha hin e he heq.symm).symm
  constructor
  · exact hm.bound
  · exact hm.keys
  · exact hm.fresh
  · exact hm.handles
  · exact hm.armed
  · intro i a ha hact
    obtain ha | ⟨-, rfl⟩ := getElem?_append_cases ha
    · exact hm.marked i a ha hact
    · refine ⟨{ entry with attempting := true, timer := none }, ?_, rfl⟩
      show (s.modify e _).heap[e]? = _
      rw [heap_modify, hentry]
      simp
  · intro i j a b ha hb hact hbct hab
    obtain ha | ⟨rfl, rfl⟩ := getElem?_append_cases ha <;>
      obtain hb | ⟨rfl, rfl⟩ := getElem?_append_cases hb
    · exact h.single i j a b ha hb hact hbct hab
    · exact absurd hab (hother i a ha hact)
    · exact absurd hab.symm (hother j b hb hbct)
    · rfl
  · intro i a ha hin e' he' heq
    obtain ha | ⟨-, rfl⟩ := getElem?_append_cases ha
    · exact hm.own i a ha hin e' he' heq
    · exact hm.keys e' he' e he heq
  · intro i j a b ha hb hia hib hab
    change PendingDispatchRetry.keyOf (s.modify e _) a.entry =
      PendingDispatchRetry.keyOf (s.modify e _) b.entry at hab
    rw [hkeyOf, hkeyOf] at hab
    obtain ha | ⟨rfl, rfl⟩ := getElem?_append_cases ha <;>
      obtain hb | ⟨rfl, rfl⟩ := getElem?_append_cases hb
    · exact h.flight i j a b ha hb hia hib hab
    · exact absurd hab (hkey i a ha hia)
    · exact absurd hab.symm (hkey j b hb hib)
    · rfl
  · intro i a ha hin t ht
    obtain ha | ⟨-, rfl⟩ := getElem?_append_cases ha
    · exact hm.idle i a ha hin t ht
    · exact hnone t ht
  · exact hm.counts
  · exact hm.earned

/-- The timer of a queued entry without an attempt in flight is armed. -/
theorem RetryInv.arm (he : e ∈ s.entries)
    (hnot : ∀ (i : Nat) (a : RetryAttempt), s.attempts[i]? = some a → a.inFlight = true →
      a.entry ≠ e) : RetryInv o (s.arm e) := by
  unfold PendingDispatchRetry.arm
  cases hentry : s.heap[e]? with
  | none => exact h
  | some entry =>
    have hcleared : ∀ t ∈ (s.clear entry.timer).timers, t.entry ≠ e := by
      intro t ht
      apply h.cleared
      rw [hentry]
      exact ht
    have hm := (h.clear entry.timer).modify (e := e)
      (f := fun entry => { entry with timer := some s.nextHandle })
      (fun _ => rfl) (fun _ => rfl) (.inr hcleared) (.inl fun _ hx => hx)
    have hmem : ∀ t ∈ (s.clear entry.timer).timers ++
        [{ handle := s.nextHandle, entry := e, ms := entry.delayMs }],
        t ∈ (s.clear entry.timer).timers ∨
          t = { handle := s.nextHandle, entry := e, ms := entry.delayMs } := by
      intro t ht
      exact (List.mem_append.mp ht).imp id List.mem_singleton.mp
    constructor
    · exact hm.bound
    · exact hm.keys
    · intro t ht
      show t.handle < s.nextHandle + 1
      obtain ht | rfl := hmem t ht
      · have hlt : t.handle < s.nextHandle := hm.fresh t ht
        omega
      · exact Nat.lt_succ_self _
    · show (((s.clear entry.timer).timers ++ _).map (·.handle)).Nodup
      rw [List.map_append, List.map_singleton]
      refine List.nodup_append.mpr ⟨hm.handles, List.nodup_singleton _, ?_⟩
      intro a ha b hb heq
      obtain ⟨t, ht, rfl⟩ := List.mem_map.mp ha
      obtain rfl := List.mem_singleton.mp hb
      have hlt : t.handle < s.nextHandle := hm.fresh t ht
      change t.handle = s.nextHandle at heq
      omega
    · intro t ht
      obtain ht | rfl := hmem t ht
      · exact hm.armed t ht
      · refine ⟨he, ?_⟩
        show (((s.clear entry.timer).modify e _).heap[e]?).bind (·.timer) = _
        have hclear : (s.clear entry.timer).heap[e]? = some entry := hentry
        rw [heap_modify, hclear]
        simp [PendingDispatchRetry.clear]
    · exact hm.marked
    · exact hm.single
    · exact hm.own
    · exact hm.flight
    · intro i a ha hin t ht
      obtain ht | rfl := hmem t ht
      · exact hm.idle i a ha hin t ht
      · exact (hnot i a ha hin).symm
    · exact hm.counts
    · exact hm.earned

end

/-! ### The log -/

theorem attemptsSince_snoc (key : String) (events : List RetryEvent) (event : RetryEvent) :
    attemptsSince key (events ++ [event]) = countEvent key (attemptsSince key events) event := by
  unfold attemptsSince
  rw [List.foldl_append]
  rfl

/-- An event other than a give-up keeps what is claimed of the log. -/
theorem GiveUpsEarned.snoc {events : List RetryEvent} {event : RetryEvent}
    (h : ∀ pre key e removed post, events = pre ++ .gaveUp key e removed :: post →
      o.maxAttempts ≤ attemptsSince key pre ∧ removed = some e)
    (hevent : ∀ key e removed, event = .gaveUp key e removed →
      o.maxAttempts ≤ attemptsSince key events ∧ removed = some e)
    (pre : List RetryEvent) (key : String) (e : Nat) (removed : Option Nat)
    (post : List RetryEvent) (heq : events ++ [event] = pre ++ .gaveUp key e removed :: post) :
    o.maxAttempts ≤ attemptsSince key pre ∧ removed = some e := by
  -- the give-up is the new event, or it was on the log before
  rcases List.eq_nil_or_concat post with rfl | ⟨post, last, rfl⟩
  · obtain ⟨rfl, hlast⟩ := List.append_inj' heq rfl
    exact hevent key e removed (List.cons.inj hlast).1
  · apply h pre key e removed post
    have hassoc : pre ++ RetryEvent.gaveUp key e removed :: (post ++ [last]) =
        (pre ++ RetryEvent.gaveUp key e removed :: post) ++ [last] := by simp
    rw [List.concat_eq_append, hassoc] at heq
    exact (List.append_inj' heq rfl).1

/-! ### The methods -/

section

variable (h : RetryInv o s)
include h

/-- A key is registered anew only while nothing is in flight for it. -/
theorem RetryInv.register {m : InflightDispatchMeta} {raw : String}
    (hidle : s.RegistersIdle (.register m raw) = true) : RetryInv o (s.register o m raw) := by
  unfold PendingDispatchRetry.register
  split
  · exact h.modify (fun _ => rfl) (fun _ => rfl) (.inl fun _ => rfl) (.inl fun _ hx => hx)
  · rename_i hget
    dsimp only
    have hquiet : ∀ (i : Nat) (a : RetryAttempt), s.attempts[i]? = some a → a.inFlight = true →
        s.keyOf a.entry ≠ some m.key := by
      intro i a ha hin heq
      simp only [PendingDispatchRetry.RegistersIdle, hget, Option.isSome_none, Bool.false_or,
        List.all_eq_true] at hidle
      have hnot := hidle a (List.mem_of_getElem? ha)
      simp [hin, heq] at hnot
    set entry : PendingRetryEntry :=
      { key := m.key, raw, ticketId := m.ticketId, role := m.role, agentId := m.agentId
        attempts := 0, delayMs := o.baseDelayMs, timer := none, attempting := false } with hentry
    have hnew : (s.heap ++ [entry])[s.heap.length]? = some entry := by simp
    have hlt : ∀ (j : Nat) (x : PendingRetryEntry), s.heap[j]? = some x → j < s.heap.length :=
      fun j x hx => (lt_of_getElem? hx)
    -- the numbers in use mean the same entries as before
    have hold : ∀ j, j < s.heap.length → (s.heap ++ [entry])[j]? = s.heap[j]? :=
      fun j hj => List.getElem?_append_left hj
    have hmarked : ∀ (i : Nat) (a : RetryAttempt), s.attempts[i]? = some a → a.active = true →
        a.entry < s.heap.length := by
      intro i a ha hact
      obtain ⟨x, hx, -⟩ := h.marked i a ha hact
      exact hlt _ x hx
    set s' : PendingDispatchRetry := { s with
      heap := s.heap ++ [entry]
      entries := s.entries ++ [s.heap.length]
      events := s.events ++ [RetryEvent.registered m.key] } with hs'
    have hkeyOf : ∀ j, j < s.heap.length → s'.keyOf j = s.keyOf j := by
      intro j hj
      show ((s.heap ++ [entry])[j]?).map (·.key) = _
      rw [hold j hj]
      rfl
    have hkeyNew : s'.keyOf s.heap.length = some m.key := by
      show ((s.heap ++ [entry])[s.heap.length]?).map (·.key) = _
      rw [hnew]
      rfl
    have hmem : ∀ j ∈ s'.entries, j ∈ s.entries ∨ j = s.heap.length := by
      intro j hj
      exact (List.mem_append.mp hj).imp id List.mem_singleton.mp
    have hinv : RetryInv o s' := by
      constructor
      · intro j hj
        show j < (s.heap ++ [entry]).length
        rw [List.length_append, List.length_singleton]
        obtain hj | rfl := hmem j hj
        · exact Nat.lt_succ_of_lt (h.bound j hj)
        · exact Nat.lt_succ_self _
      · intro a ha b hb hab
        obtain ha | rfl := hmem a ha <;> obtain hb | rfl := hmem b hb
        · rw [hkeyOf a (h.bound a ha), hkeyOf b (h.bound b hb)] at hab
          exact h.keys a ha b hb hab
        · rw [hkeyOf a (h.bound a ha), hkeyNew] at hab
          exact absurd hab (not_mem_of_get hget ha)
        · rw [hkeyOf b (h.bound b hb), hkeyNew] at hab
          exact absurd hab.symm (not_mem_of_get hget hb)
        · rfl
      · exact h.fresh
      · exact h.handles
      · intro t ht
        obtain ⟨hin, hhandle⟩ := h.armed t ht
        refine ⟨List.mem_append_left _ hin, ?_⟩
        show ((s.heap ++ [entry])[t.entry]?).bind (·.timer) = _
        rw [hold _ (h.bound _ hin)]
        exact hhandle
      · intro i a ha hact
        obtain ⟨x, hx, hxm⟩ := h.marked i a ha hact
        exact ⟨x, (hold _ (hlt _ x hx)).trans hx, hxm⟩
      · exact h.single
      · intro i a ha hin j hj heq
        have ha' := hmarked i a ha (RetryAttempt.active_of_inFlight hin)
        rw [hkeyOf a.entry ha'] at heq
        obtain hj | rfl := hmem j hj
        · rw [hkeyOf j (h.bound j hj)] at heq
          exact h.own i a ha hin j hj heq
        · rw [hkeyNew] at heq
          exact absurd heq.symm (hquiet i a ha hin)
      · intro i j a b ha hb hia hib hab
        rw [hkeyOf _ (hmarked i a ha (RetryAttempt.active_of_inFlight hia)),
          hkeyOf _ (hmarked j b hb (RetryAttempt.active_of_inFlight hib))] at hab
        exact h.flight i j a b ha hb hia hib hab
      · exact h.idle
      · intro j hj x hx
        show attemptsSince x.key (s.events ++ [_]) = _
        rw [attemptsSince_snoc]
        obtain hj | rfl := hmem j hj
        · have hx' : s.heap[j]? = some x := (hold j (h.bound j hj)).symm.trans hx
          have hne : m.key ≠ x.key := by
            intro heq
            apply not_mem_of_get hget hj
            rw [keyOf_of_heap hx', heq]
          rw [countEvent, if_neg hne]
          exact h.counts j hj x hx'
        · obtain rfl : entry = x := Option.some.inj (hnew.symm.trans hx)
          simp [countEvent, hentry]
      · exact GiveUpsEarned.snoc h.earned nofun
    have hlen : s'.heap.length - 1 = s.heap.length := by
      show (s.heap ++ [entry]).length - 1 = _
      simp
    rw [hlen]
    refine hinv.arm (List.mem_append_right _ (List.mem_singleton.mpr rfl)) ?_
    intro i a ha hin heq
    have hbound := hmarked i a ha (RetryAttempt.active_of_inFlight hin)
    omega

theorem RetryInv.replay (entry : PendingRetryEntry)
    (ha : s.attempts[i]? = some ⟨e, .verifying⟩) (hentry : s.heap[e]? = some entry) :
    RetryInv o (s.replay i e entry.key) := by
  have hp := h.setPhase (b := ⟨e, .retrying⟩) ha rfl (fun _ => rfl) (fun _ => rfl)
  have hkeyOf : ∀ j, (s.modify e fun entry =>
      { entry with attempts := entry.attempts + 1 }).keyOf j = s.keyOf j :=
    keyOf_modify fun _ => rfl
  have hheap : ∀ j, (s.modify e fun entry =>
      { entry with attempts := entry.attempts + 1 }).heap[j]? = _ := heap_modify
  constructor
  · intro j hj
    show j < (s.heap.modify e _).length
    rw [List.length_modify]
    exact h.bound j hj
  · intro a ha b hb hab
    exact h.keys a ha b hb ((hkeyOf a).symm.trans (hab.trans (hkeyOf b)))
  · exact h.fresh
  · exact h.handles
  · intro t ht
    refine ⟨(h.armed t ht).1, ?_⟩
    have hhandle := (h.armed t ht).2
    show ((s.modify e _).heap[t.entry]?).bind (·.timer) = _
    rw [hheap]
    cases hx : s.heap[t.entry]? with
    | none => rw [hx] at hhandle; cases hhandle
    | some x =>
      rw [hx] at hhandle
      show (if e = t.entry then _ else x).timer = _
      split <;> exact hhandle
  · intro j a hj hact
    obtain ⟨x, hx, hxm⟩ := hp.marked j a hj hact
    change s.heap[a.entry]? = some x at hx
    refine ⟨if e = a.entry then { x with attempts := x.attempts + 1 } else x, ?_, ?_⟩
    · show (s.modify e _).heap[a.entry]? = _
      rw [hheap, hx]
      rfl
    · split <;> exact hxm
  · exact hp.single
  · intro j a hj hin e' he' heq
    exact hp.own j a hj hin e' he' ((hkeyOf e').symm.trans (heq.trans (hkeyOf a.entry)))
  · intro j k a b hj hk hia hib hab
    exact hp.flight j k a b hj hk hia hib ((hkeyOf a.entry).symm.trans (hab.trans (hkeyOf b.entry)))
  · exact hp.idle
  · intro e' he' x hx
    show attemptsSince x.key (s.events ++ [_]) = _
    rw [attemptsSince_snoc]
    change (s.modify e _).heap[e']? = some x at hx
    rw [hheap] at hx
    obtain ⟨y, hy, rfl⟩ := Option.map_eq_some_iff.mp hx
    have hcount := h.counts e' he' y hy
    by_cases heq : e = e'
    · subst heq
      obtain rfl : entry = y := Option.some.inj (hentry.symm.trans hy)
      simp [countEvent, hcount]
    · -- the attempt belongs to the only queued entry with its key, if there is one
      have hne : entry.key ≠ y.key := by
        intro hkey
        apply heq
        apply (h.own i _ ha rfl e' he' _).symm
        rw [keyOf_of_heap hy, keyOf_of_heap hentry, hkey]
      simp [countEvent, hne, heq, hcount]
  · exact GiveUpsEarned.snoc h.earned nofun

theorem RetryInv.finish {phase : AttemptPhase}
    (ha : s.attempts[i]? = some ⟨e, phase⟩) (hactive : phase ≠ .returned) :
    RetryInv o (s.finish i e) := by
  have hp := h.setPhase (b := ⟨e, .returned⟩) ha rfl nofun
    nofun
  refine hp.modify (fun _ => rfl) (fun _ => rfl) (.inl fun _ => rfl) (.inr ?_)
  -- it was the only attempt of its entry
  intro j a hj hact heq
  obtain ⟨-, rfl⟩ | ⟨hne, hj⟩ := getElem?_set_cases hj
  · cases hact
  · apply hne
    have hself : (⟨e, phase⟩ : RetryAttempt).active = true := by
      simpa [RetryAttempt.active] using hactive
    exact h.single i j _ a ha hj hself hact heq.symm

/-- An attempt of a queued entry whose timer is not armed. -/
theorem RetryInv.attempt (he : e ∈ s.entries)
    (hnone : ∀ t ∈ s.timers, t.entry ≠ e) : RetryInv o (s.attempt o e) := by
  unfold PendingDispatchRetry.attempt
  cases hentry : s.heap[e]? with
  | none => exact h
  | some entry =>
    dsimp only
    split
    · exact h
    · rename_i hgo
      have hmark : entry.attempting = false := by
        have hnot := fun hx => hgo (.inr hx)
        simpa using hnot
      have hbegin := h.begin he hentry hmark hnone
      split
      · exact hbegin
      · refine hbegin.replay { entry with attempting := true, timer := none } ?_ ?_
        · show (s.attempts ++ [_])[s.attempts.length]? = _
          simp
        · show (s.modify e _).heap[e]? = _
          rw [heap_modify, hentry]
          simp

theorem RetryInv.verified {verdict : Verdict}
    (ha : s.attempts[i]? = some ⟨e, .verifying⟩) : RetryInv o (s.verified i e verdict) := by
  unfold PendingDispatchRetry.verified
  cases hentry : s.heap[e]? with
  | none => exact h
  | some entry =>
    dsimp only
    split
    · exact h.finish ha (by decide)
    · split
      · have hdrop : (s.cancel entry.key).attempts = s.attempts := by
          unfold PendingDispatchRetry.cancel PendingDispatchRetry.drop
          split <;> rfl
        exact RetryInv.finish (s := s.cancel entry.key) h.drop (hdrop ▸ ha) (by decide)
      · exact h.replay _ ha hentry

theorem RetryInv.retried (ha : s.attempts[i]? = some ⟨e, .retrying⟩) :
    RetryInv o (s.retried o i e) := by
  unfold PendingDispatchRetry.retried
  cases hentry : s.heap[e]? with
  | none => exact h
  | some entry =>
    dsimp only
    split
    · exact h.finish ha (by decide)
    · rename_i hget
      -- the slot is taken, and by the entry of the attempt
      obtain ⟨e', hslot⟩ := Option.ne_none_iff_exists'.mp hget
      obtain ⟨he', hkey⟩ := get_spec hslot
      obtain rfl : e' = e := h.own i _ ha rfl e' he' (hkey.trans (keyOf_of_heap hentry).symm)
      split
      · rename_i hmax
        have hnone : ∀ t ∈ s.timers, s.keyOf t.entry ≠ some entry.key := by
          intro t ht heq
          apply h.idle i _ ha rfl t ht
          exact h.own i _ ha rfl t.entry (h.armed t ht).1 (heq.trans (keyOf_of_heap hentry).symm)
        have hp := h.setPhase (b := ⟨e', .givingUp⟩) ha rfl nofun
          (fun _ => rfl)
        have hd : RetryInv o (PendingDispatchRetry.delete _ entry.key) := hp.delete hnone
        refine ⟨hd.bound, hd.keys, hd.fresh, hd.handles, hd.armed, hd.marked, hd.single, hd.own,
          hd.flight, hd.idle, ?_, ?_⟩
        · intro j hj x hx
          show attemptsSince x.key (s.events ++ [_]) = _
          rw [attemptsSince_snoc]
          exact hd.counts j hj x hx
        · refine GiveUpsEarned.snoc h.earned ?_
          intro key j removed hevent
          obtain ⟨rfl, rfl, rfl⟩ := RetryEvent.gaveUp.inj hevent
          rw [h.counts e' he' entry hentry]
          exact ⟨hmax, hslot⟩
      · have hm := h.modify (e := e')
          (f := fun entry => { entry with delayMs := min (entry.delayMs * 2) o.maxDelayMs })
          (fun _ => rfl) (fun _ => rfl) (.inl fun _ => rfl) (.inl fun _ hx => hx)
        set s₁ := s.modify e' fun entry =>
          { entry with delayMs := min (entry.delayMs * 2) o.maxDelayMs } with hs₁
        have ha₁ : s₁.attempts[i]? = some ⟨e', .retrying⟩ := ha
        -- the attempt could as well return before its timer is armed
        have hp := hm.setPhase (b := ⟨e', .returned⟩) ha₁ rfl nofun
          nofun
        have hother : ∀ (j : Nat) (a : RetryAttempt),
            (s₁.attempts.set i ⟨e', .returned⟩)[j]? = some a → a.active = true →
              a.entry ≠ e' := by
          intro j a hj hact heq
          obtain ⟨-, rfl⟩ | ⟨hne, hj⟩ := getElem?_set_cases hj
          · cases hact
          · exact hne (h.single i j _ a ha hj rfl hact heq.symm)
        have harm := hp.arm (e := e') he' fun j a hj hin =>
          hother j a hj (RetryAttempt.active_of_inFlight hin)
        have hcomm : (s₁.arm e').finish i e' =
            (({ s₁ with attempts := s₁.attempts.set i ⟨e', .returned⟩ } :
              PendingDispatchRetry).arm e').modify e' fun entry =>
                { entry with attempting := false } := by
          unfold PendingDispatchRetry.arm
          cases s₁.heap[e']? with
          | none => rfl
          | some x => rfl
        rw [hcomm]
        refine harm.modify (fun _ => rfl) (fun _ => rfl) (.inl fun _ => rfl) (.inr ?_)
        intro j a hj
        apply hother j a
        unfold PendingDispatchRetry.arm at hj
        cases hx : s₁.heap[e']? with
        | none => simp only [hx] at hj; exact hj
        | some x => simp only [hx] at hj; exact hj

end

theorem attempt_entries : (s.attempt o e).entries = s.entries := by
  unfold PendingDispatchRetry.attempt
  split
  · rfl
  · dsimp only
    split
    · rfl
    · split <;> rfl

theorem wakeEntry_entries : (s.wakeEntry o e).entries = s.entries := by
  unfold PendingDispatchRetry.wakeEntry
  split
  · rfl
  · split
    · rfl
    · exact attempt_entries

theorem RetryInv.wakeEntry (h : RetryInv o s) (he : e ∈ s.entries) :
    RetryInv o (s.wakeEntry o e) := by
  unfold PendingDispatchRetry.wakeEntry
  cases hentry : s.heap[e]? with
  | none => exact h
  | some entry =>
    dsimp only
    split
    · exact h
    · have hcleared : ∀ t ∈ (s.clear entry.timer).timers, t.entry ≠ e := by
        intro t ht
        apply h.cleared
        rw [hentry]
        exact ht
      have hm := (h.clear entry.timer).modify (e := e)
        (f := fun entry => { entry with timer := none })
        (fun _ => rfl) (fun _ => rfl) (.inr hcleared) (.inl fun _ hx => hx)
      exact hm.attempt he hcleared

theorem RetryInv.wake (h : RetryInv o s) : RetryInv o (s.wake o) := by
  -- the loop goes over a copy of the map, which no turn changes
  have hloop : ∀ (l : List Nat) (t : PendingDispatchRetry), RetryInv o t → t.entries = s.entries →
      (∀ e ∈ l, e ∈ s.entries) → RetryInv o (l.foldl (PendingDispatchRetry.wakeEntry o) t) := by
    intro l
    induction l with
    | nil => exact fun _ ht _ _ => ht
    | cons e l ih =>
      intro t ht hentries hl
      refine ih _ (ht.wakeEntry ?_) (wakeEntry_entries.trans hentries) fun e' he' =>
        hl e' (List.mem_cons_of_mem _ he')
      rw [hentries]
      exact hl e List.mem_cons_self
  exact hloop s.entries s h rfl fun _ he => he

theorem RetryInv.cancelByTicket (h : RetryInv o s) (ticketId : String) :
    RetryInv o (s.cancelByTicket ticketId) := by
  unfold PendingDispatchRetry.cancelByTicket
  generalize s.entries = l
  induction l generalizing s with
  | nil => exact h
  | cons e l ih =>
    apply ih
    unfold PendingDispatchRetry.cancelEntry
    split
    · exact h
    · split
      · exact h.drop
      · exact h

/-- A timer that fires is the only one of its entry. -/
theorem RetryInv.fire (h : RetryInv o s) (ht : t ∈ s.timers) :
    RetryInv o (s.fire o t) := by
  unfold PendingDispatchRetry.fire
  refine (h.clear _).attempt (h.armed t ht).1 ?_
  intro t' ht' heq
  obtain ⟨hmem, hne⟩ := mem_clear.mp ht'
  have hhandle := (h.armed t' hmem).2
  rw [heq, (h.armed t ht).2] at hhandle
  exact hne hhandle.symm

end Rules

variable {o : RetryOptions} {s : PendingDispatchRetry}

theorem RetryInv.act {s t : PendingDispatchRetry} {a : RetryAction}
    (h : RetryInv o s) (hidle : s.RegistersIdle a = true) (hact : s.act o a = .ok t) :
    RetryInv o t := by
  cases a with
  | register m raw =>
    cases hact
    exact h.register hidle
  | resolve m =>
    cases hact
    exact h.drop
  | cancel key =>
    cases hact
    exact h.drop
  | cancelByTicket ticketId =>
    cases hact
    exact h.cancelByTicket ticketId
  | wake =>
    cases hact
    exact h.wake
  | fire timer =>
    simp only [PendingDispatchRetry.act] at hact
    split at hact
    · rename_i harmed
      cases hact
      exact h.fire harmed
    · cases hact
  | verified i verdict =>
    simp only [PendingDispatchRetry.act] at hact
    split at hact
    · rename_i e ha
      cases hact
      exact h.verified ha
    · cases hact
  | retried i =>
    simp only [PendingDispatchRetry.act] at hact
    split at hact
    · rename_i e ha
      cases hact
      exact h.retried ha
    · cases hact
  | gaveUp i =>
    simp only [PendingDispatchRetry.act] at hact
    split at hact
    · rename_i e ha
      cases hact
      exact h.finish ha (by decide)
    · cases hact

theorem retryInv_reachable (h : (idleRuns o).Reachable s) : RetryInv o s := by
  refine h.invariant ?_ fun _ _ _ _ hinv hstep => hinv.act hstep.2 hstep.1
  rintro s rfl
  constructor <;> simp [PendingDispatchRetry.GiveUpsEarned]

/-! ## Main result -/

theorem RetryInv.oneAttempt (h : RetryInv o s) :
    s.OneAttempt := by
  intro key
  apply length_filter_le_one
  intro i j a b ha hb hpa hpb
  simp only [Bool.and_eq_true, decide_eq_true_eq] at hpa hpb
  exact h.flight i j a b ha hb hpa.1 hpb.1 (hpa.2.trans hpb.2.symm)

theorem RetryInv.oneTimer (h : RetryInv o s) :
    s.OneTimer := by
  intro key
  apply length_filter_le_one
  intro i j a b ha hb hpa hpb
  simp only [decide_eq_true_eq] at hpa hpb
  have hma := List.mem_of_getElem? ha
  have hmb := List.mem_of_getElem? hb
  -- the key has one queued entry, the entry one timer, and a handle one position
  have hentry := h.keys _ (h.armed a hma).1 _ (h.armed b hmb).1 (hpa.trans hpb.symm)
  have hhandle : a.handle = b.handle := by
    have hha := (h.armed a hma).2
    rw [hentry, (h.armed b hmb).2] at hha
    exact (Option.some.inj hha).symm
  have hi : (s.timers.map (·.handle))[i]? = some a.handle := by simp [ha]
  have hj : (s.timers.map (·.handle))[j]? = some a.handle := by simp [hb, hhandle]
  obtain ⟨hlt, hi⟩ := List.getElem?_eq_some_iff.mp hi
  obtain ⟨hlt', hj⟩ := List.getElem?_eq_some_iff.mp hj
  exact (List.Nodup.getElem_inj_iff h.handles).mp (hi.trans hj.symm)

/-- In every state of a run in which no key is registered anew while an attempt for it is in
    flight: at most one attempt is in flight and one timer armed for each key; `onGiveUp` was only
    called after `maxAttempts` attempts since the entry it took out of the map was registered. -/
theorem retry_single_flight {o : RetryOptions} {s : PendingDispatchRetry}
    (h : (idleRuns o).Reachable s) : s.OneAttempt ∧ s.OneTimer ∧ s.GiveUpsEarned o :=
  have hinv := retryInv_reachable h
  ⟨hinv.oneAttempt, hinv.oneTimer, hinv.earned⟩

def emptyRetry : PendingDispatchRetry where
  heap := []
  entries := []
  timers := []
  nextHandle := 0
  attempts := []
  events := []

/-- One attempt is allowed: after it the queue gives up. -/
theorem retry_single_flight_oneAttempt :
    ∃ s, (idleRuns { maxAttempts := 1 }).Reachable s ∧
      s.events = [.registered "t:r:a", .attempted "t:r:a", .gaveUp "t:r:a" 0 (some 0)] ∧
      s.OneAttempt ∧ s.OneTimer ∧ s.GiveUpsEarned { maxAttempts := 1 } := by
  obtain ⟨s, hreach, hs⟩ := Transition.exists_reachable_guarded (M := idleRuns { maxAttempts := 1 })
    (C := fun s a => s.RegistersIdle a = true) (s := emptyRetry)
    (fun _ _ _ hok h => ⟨h, hok⟩) rfl
    [.register ⟨"t", "r", "a"⟩ "{}", .fire ⟨0, 0, 30000⟩, .verified 0 .eligible, .retried 0]
    (fun s => s.events =
      [.registered "t:r:a", .attempted "t:r:a", .gaveUp "t:r:a" 0 (some 0)])
    (by decide +kernel)
  exact ⟨s, hreach, of_decide_eq_true hs, retry_single_flight hreach⟩

/-- While the attempt of an entry awaits `onRetry`, the entry is resolved and the key registered
    again. The attempt finds the slot taken and arms its own timer next to the new one. -/
theorem not_always_single_flight :
    ¬ ∀ (o : RetryOptions) (s : PendingDispatchRetry), (retrySystem o).Reachable s →
      s.OneAttempt ∧ s.OneTimer ∧ s.GiveUpsEarned o := by
  intro hall
  have hrun : ∀ s a t, PendingDispatchRetry.act {} s a = .ok t →
      (retrySystem {}).step s a t := fun _ _ _ h => h
  obtain ⟨s, hpath, hs⟩ := Transition.exists_path_of_run hrun emptyRetry
    [.register ⟨"t", "r", "a"⟩ "{}", .fire ⟨0, 0, 30000⟩, .verified 0 .eligible,
      .resolve ⟨"t", "r", "a"⟩, .register ⟨"t", "r", "a"⟩ "{}", .retried 0]
    (fun s => (s.timers.filter fun t => s.keyOf t.entry = some "t:r:a").length = 2)
    (by decide +kernel)
  have htwo := (hall {} s (.path (.init rfl) hpath)).2.1 "t:r:a"
  rw [of_decide_eq_true hs] at htwo
  omega

end WorkflowBoard.AgentManager
