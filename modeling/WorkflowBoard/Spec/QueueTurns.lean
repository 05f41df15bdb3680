import WorkflowBoard.ForStd.List
import WorkflowBoard.Native.SqljsQueue

/-!
# Turns of the sql.js work queue do not overlap

The turns that have begun are the first `order.length` ones. All of them but the last are
released, and a turn counts exactly its started work whose `finally` has not run, so work in
progress belongs to the last one. Work joins a turn only through the `AsyncLocalStorage`
value of a piece of work of that turn, and only while the turn is active.

## 
-/

namespace WorkflowBoard.Sqljs

variable {s s' : QueueState}

/-! ## Invariant -/

/-- The started work of turn `t` whose `finally` has not run. -/
def pendingWork (work : List Work) (t : Nat) : Nat :=
  work.countP fun w => w.turn == some t && w.phase.isPending

/-- What is known of turn `t` when `begun` turns have begun. -/
structure TurnOk (work : List Work) (begun t : Nat) (turn : SqljsTurn) : Prop where
  ahead_eq : turn.ahead = if t = 0 then none else some (t - 1)
  pending_eq : turn.pending = pendingWork work t
  releases_eq : turn.releases = if t < begun ∧ pendingWork work t = 0 then 1 else 0
  active_eq : turn.active = decide (turn.releases = 0)
  handed_on : t + 1 < begun → turn.releases = 1
  opener_turn : ∃ w, work[turn.opener]? = some w ∧ w.turn = some t ∧
    (begun ≤ t → w.phase = .queued)

/-- What is known of the piece of work `i`. -/
structure WorkOk (s : QueueState) (i : Nat) (w : Work) : Prop where
  turn_lt : ∀ t, w.turn = some t → t < s.turns.length
  store_eq : ∀ t, w.turn = some t → w.store = some t
  started : w.phase ≠ .queued → ∀ t, w.turn = some t ∨ w.store = some t → t < s.order.length
  queued : w.phase = .queued →
    ∃ t turn, w.turn = some t ∧ s.turns[t]? = some turn ∧ turn.opener = i ∧ s.order.length ≤ t
  lineage : ∀ t turn, w.turn = some t → s.turns[t]? = some turn →
    turn.opener = i ∨ getStore s w.origin = some t

structure QueueInv (s : QueueState) : Prop where
  order_eq : s.order = List.range s.order.length
  order_le : s.order.length ≤ s.turns.length
  tail_eq : s.tail = if s.turns.length = 0 then none else some (s.turns.length - 1)
  turn_ok : ∀ t turn, s.turns[t]? = some turn → TurnOk s.work s.order.length t turn
  work_ok : ∀ i w, s.work[i]? = some w → WorkOk s i w

theorem queueInv_empty : QueueInv .empty where
  order_eq := rfl
  order_le := Nat.le_refl _
  tail_eq := rfl
  turn_ok := by
    intro t turn h
    cases h
  work_ok := by
    intro i w h
    cases h

/-! ## Counting -/

variable {i : Nat} {w : Work} {work : List Work} {t : Nat} {turn : SqljsTurn} {origin : Option Nat}

/-- A piece of work that changes its phase moves the count of its own turn only. -/
theorem pendingWork_setPhase (h : work[i]? = some w) (p : WorkPhase) (t : Nat) :
    pendingWork (work.set i { w with phase := p }) t +
        (if w.turn = some t ∧ w.phase.isPending = true then 1 else 0) =
      pendingWork work t + (if w.turn = some t ∧ p.isPending = true then 1 else 0) := by
  have hcount := countP_set_add (b := { w with phase := p }) h
    (fun w => w.turn == some t && w.phase.isPending)
  simp only [Bool.and_eq_true, beq_iff_eq] at hcount
  exact hcount

theorem pendingWork_append (work : List Work) (w : Work) (t : Nat) :
    pendingWork (work ++ [w]) t =
      pendingWork work t + (if w.turn = some t ∧ w.phase.isPending = true then 1 else 0) := by
  unfold pendingWork
  rw [List.countP_append, List.countP_singleton]
  simp

/-- Work of a turn that has started and not been finalized makes its count positive. -/
theorem pendingWork_pos {i t : Nat} (h : work[i]? = some w)
    (ht : w.turn = some t) (hp : w.phase.isPending = true) : 0 < pendingWork work t :=
  List.countP_pos_iff.mpr ⟨w, List.mem_of_getElem? h, by simp [ht, hp]⟩

/-! ## What the invariant gives -/

namespace QueueInv

theorem releases_le {t : Nat} {turn : SqljsTurn} (hinv : QueueInv s)
    (h : s.turns[t]? = some turn) : turn.releases ≤ 1 := by
  rw [(hinv.turn_ok t turn h).releases_eq]
  split <;> omega

theorem exists_turn {t : Nat} (hinv : QueueInv s) (ht : t < s.order.length) :
    ∃ turn, s.turns[t]? = some turn := by
  have := hinv.order_le
  exact ⟨s.turns[t], List.getElem?_eq_getElem (by omega)⟩

theorem mem_order {t : Nat} (hinv : QueueInv s) : t ∈ s.order ↔ t < s.order.length := by
  have h := hinv.order_eq
  constructor
  · intro ht
    rw [h] at ht
    exact List.mem_range.mp ht
  · intro ht
    rw [h]
    exact List.mem_range.mpr ht

/-- Started work that is not finalized belongs to the turn that began last. -/
theorem pending_last {i t : Nat} {w : Work} (hinv : QueueInv s) (hw : s.work[i]? = some w)
    (ht : w.turn = some t) (hp : w.phase.isPending = true) : s.order.length = t + 1 := by
  have hne : w.phase ≠ .queued := by
    intro hq
    rw [hq] at hp
    cases hp
  have hlt := (hinv.work_ok i w hw).started hne t (.inl ht)
  obtain ⟨turn, hturn⟩ := hinv.exists_turn hlt
  have hok := hinv.turn_ok t turn hturn
  have hcount := pendingWork_pos hw ht hp
  have hrel := hok.releases_eq
  rw [if_neg (by omega)] at hrel
  by_contra hlast
  have := hok.handed_on (by omega)
  omega

end QueueInv

/-! ## Frames

No step removes a turn, changes its opener or lowers the number of turns that have begun, and
a piece of work keeps its turn and its store. -/

/-- Every turn of `s` is a turn of `s'`, opened by the same work. -/
def TurnsKept (s s' : QueueState) : Prop :=
  ∀ (t : Nat) (turn : SqljsTurn), s.turns[t]? = some turn →
    ∃ turn' : SqljsTurn, s'.turns[t]? = some turn' ∧ turn'.opener = turn.opener

def StoresKept (s s' : QueueState) : Prop :=
  ∀ origin t, getStore s origin = some t → getStore s' origin = some t

theorem WorkOk.queued_le {i t : Nat} (h : WorkOk s i w) (hq : w.phase = .queued)
    (ht : w.turn = some t) : s.order.length ≤ t := by
  obtain ⟨t', _, ht', _, _, hle⟩ := h.queued hq
  have hsame : t = t' := Option.some.inj (ht.symm.trans ht')
  omega

theorem WorkOk.turn_lt_kept {i t : Nat} (h : WorkOk s i w) (hturns : TurnsKept s s')
    (ht : w.turn = some t) : t < s'.turns.length := by
  obtain ⟨turn', h', _⟩ := hturns t _ (List.getElem?_eq_getElem (h.turn_lt t ht))
  exact lt_of_getElem? h'

theorem WorkOk.lineage_kept {i t : Nat} {turn' : SqljsTurn} (h : WorkOk s i w)
    (hturns : TurnsKept s s') (hstores : StoresKept s s') (ht : w.turn = some t)
    (hturn' : s'.turns[t]? = some turn') :
    turn'.opener = i ∨ getStore s' w.origin = some t := by
  have hturn := List.getElem?_eq_getElem (h.turn_lt t ht)
  obtain ⟨turn'', h₁, h₂⟩ := hturns t _ hturn
  have hsame : turn'' = turn' := Option.some.inj (h₁.symm.trans hturn')
  subst hsame
  rcases h.lineage t _ ht hturn with ho | hstore
  · exact .inl (h₂.trans ho)
  · exact .inr (hstores _ _ hstore)

/-- Work that does not move keeps what is known of it. -/
theorem WorkOk.mono (h : WorkOk s i w) (hturns : TurnsKept s s')
    (hstores : StoresKept s s') (horder : s.order.length ≤ s'.order.length)
    (hqueued : w.phase = .queued → ∀ t, w.turn = some t → s'.order.length ≤ t) :
    WorkOk s' i w where
  turn_lt := fun _ ht => h.turn_lt_kept hturns ht
  store_eq := h.store_eq
  started := fun hne t ht => Nat.lt_of_lt_of_le (h.started hne t ht) horder
  queued := by
    intro hq
    obtain ⟨t, turn, ht, hturn, hopen, _⟩ := h.queued hq
    obtain ⟨turn', hturn', hopen'⟩ := hturns t turn hturn
    exact ⟨t, turn', ht, hturn', hopen'.trans hopen, hqueued hq t ht⟩
  lineage := fun _ _ ht hturn' => h.lineage_kept hturns hstores ht hturn'

/-- Work that moves to a phase other than `queued`, in a turn that has begun. -/
theorem WorkOk.setPhase {p : WorkPhase} (h : WorkOk s i w)
    (hturns : TurnsKept s s') (hstores : StoresKept s s') (hp : p ≠ .queued)
    (hstarted : ∀ t, w.turn = some t ∨ w.store = some t → t < s'.order.length) :
    WorkOk s' i { w with phase := p } where
  turn_lt := fun _ ht => h.turn_lt_kept hturns ht
  store_eq := h.store_eq
  started := fun _ t ht => hstarted t ht
  queued := fun hq => absurd hq hp
  lineage := fun _ _ ht hturn' => h.lineage_kept hturns hstores ht hturn'

theorem storesKept_append (h : s'.work = s.work ++ [w]) : StoresKept s s' := by
  intro origin t ht
  simp only [getStore, Option.bind_eq_some_iff] at ht ⊢
  obtain ⟨o, ho, v, hv, hvt⟩ := ht
  have hlt : o < s.work.length := lt_of_getElem? hv
  exact ⟨o, ho, v, by rw [h, List.getElem?_append_left hlt, hv], hvt⟩

theorem storesKept_set {w w' : Work} (h : s'.work = s.work.set i w')
    (hw : s.work[i]? = some w) (hstore : w'.store = w.store) : StoresKept s s' := by
  intro origin t ht
  simp only [getStore, Option.bind_eq_some_iff] at ht ⊢
  obtain ⟨o, ho, v, hv, hvt⟩ := ht
  by_cases hio : i = o
  · subst hio
    have hsame : v = w := Option.some.inj (hv.symm.trans hw)
    have hlt : i < s.work.length := lt_of_getElem? hv
    exact ⟨i, ho, w', by rw [h, List.getElem?_set_self hlt], by rw [hstore, ← hsame, hvt]⟩
  · exact ⟨o, ho, v, by rw [h, List.getElem?_set_ne hio, hv], hvt⟩

theorem turnsKept_modify {f : SqljsTurn → SqljsTurn}
    (h : s'.turns = s.turns.modify t f) (hf : ∀ turn, (f turn).opener = turn.opener) :
    TurnsKept s s' := by
  intro u turn hu
  rw [h]
  by_cases htu : t = u
  · subst htu
    exact ⟨f turn, getElem?_modify_self hu, hf turn⟩
  · exact ⟨turn, (getElem?_modify_other htu).trans hu, rfl⟩

theorem SqljsTurn.finish_opener (turn : SqljsTurn) : turn.finish.opener = turn.opener := by
  unfold SqljsTurn.finish
  dsimp only
  split <;> rfl

/-- A turn keeps what is known of it when a piece of work is added that it does not count. -/
theorem TurnOk.append {begun t : Nat}
    (h : TurnOk work begun t turn) (hw : ¬ (w.turn = some t ∧ w.phase.isPending = true)) :
    TurnOk (work ++ [w]) begun t turn := by
  have hcount : pendingWork (work ++ [w]) t = pendingWork work t := by
    rw [pendingWork_append, if_neg hw, Nat.add_zero]
  obtain ⟨v, hv, hturn, hq⟩ := h.opener_turn
  have hlt : turn.opener < work.length := lt_of_getElem? hv
  exact ⟨h.ahead_eq, hcount ▸ h.pending_eq, hcount ▸ h.releases_eq, h.active_eq, h.handed_on,
    v, by rw [List.getElem?_append_left hlt, hv], hturn, hq⟩

/-! ## Calls -/

section

variable (hinv : QueueInv s)
include hinv

section

variable (hstarted : origin.all (hasStarted s) = true)
include hstarted

/-- The store a started piece of work hands down names a turn that has begun. -/
theorem QueueInv.store_begun (h : getStore s origin = some t) :
    t < s.order.length := by
  simp only [getStore, Option.bind_eq_some_iff] at h
  obtain ⟨o, rfl, v, hv, hvt⟩ := h
  have hne : v.phase ≠ .queued := by simpa [hasStarted, hv] using hstarted
  exact (hinv.work_ok o v hv).started hne t (.inr hvt)

/-- The turn a chain holds has begun and is not released. -/
theorem QueueInv.held (h : heldTurn s origin = some t) :
    ∃ turn, s.turns[t]? = some turn ∧ turn.releases = 0 ∧ t < s.order.length ∧
      getStore s origin = some t := by
  simp only [heldTurn, Option.filter_eq_some_iff, Option.any_eq_true] at h
  obtain ⟨hstore, turn, hturn, hactive⟩ := h
  have hreleases : turn.releases = 0 := by
    rw [(hinv.turn_ok t turn hturn).active_eq] at hactive
    exact of_decide_eq_true hactive
  exact ⟨turn, hturn, hreleases, hinv.store_begun hstarted hstore, hstore⟩

theorem QueueInv.read :
    QueueInv { s with work := s.work ++ [⟨origin, getStore s origin, none, .running⟩] } where
  order_eq := hinv.order_eq
  order_le := hinv.order_le
  tail_eq := hinv.tail_eq
  turn_ok := fun t turn h => (hinv.turn_ok t turn h).append (by simp)
  work_ok := by
    intro i w h
    rcases getElem?_append_cases h with h | ⟨rfl, rfl⟩
    · have hok := hinv.work_ok i w h
      exact hok.mono (fun t turn h => ⟨turn, h, rfl⟩) (storesKept_append rfl) (Nat.le_refl _)
        (fun hq t ht => hok.queued_le hq ht)
    · refine ⟨by simp, by simp, ?_, by simp, by simp⟩
      intro _ t ht
      have hstore : getStore s origin = some t := by simpa using ht
      exact hinv.store_begun hstarted hstore

theorem QueueInv.within (hheld : heldTurn s origin = some t) :
    QueueInv { s with
      turns := s.turns.modify t (·.hold)
      work := s.work ++ [⟨origin, some t, some t, .running⟩] } := by
  obtain ⟨turn, hturn, hreleases, hbegun, hstore⟩ := hinv.held hstarted hheld
  refine ⟨hinv.order_eq, by simpa using hinv.order_le, by simpa using hinv.tail_eq, ?_, ?_⟩
  · intro u turn' hu
    rcases getElem?_modify_cases hu with ⟨rfl, old, hold, rfl⟩ | ⟨htu, hu⟩
    · have hok := hinv.turn_ok t old hold
      have hsame : old = turn := Option.some.inj (hold.symm.trans hturn)
      subst hsame
      have hcount : pendingWork (s.work ++ [⟨origin, some t, some t, .running⟩]) t =
          pendingWork s.work t + 1 := by
        rw [pendingWork_append]
        simp [WorkPhase.isPending]
      obtain ⟨v, hv, hvturn, hq⟩ := hok.opener_turn
      have hlt : old.opener < s.work.length := lt_of_getElem? hv
      refine ⟨hok.ahead_eq, ?_, ?_, hok.active_eq, hok.handed_on, v, ?_, hvturn, hq⟩
      · have hhold : old.hold.pending = old.pending + 1 := rfl
        rw [hcount, hhold, hok.pending_eq]
        omega
      · -- the turn is not released, before and after
        rw [hcount, if_neg (by omega)]
        exact hreleases
      · rw [SqljsTurn.hold, List.getElem?_append_left hlt, hv]
    · exact (hinv.turn_ok u turn' hu).append (by simp [htu])
  · intro i w h
    have hturns : TurnsKept s { s with
        turns := s.turns.modify t (·.hold)
        work := s.work ++ [⟨origin, some t, some t, .running⟩] } :=
      turnsKept_modify rfl (fun _ => rfl)
    rcases getElem?_append_cases h with h | ⟨rfl, rfl⟩
    · have hok := hinv.work_ok i w h
      exact hok.mono hturns (storesKept_append rfl) (Nat.le_refl _)
        (fun hq t ht => hok.queued_le hq ht)
    · have hlt : t < s.turns.length := lt_of_getElem? hturn
      refine ⟨?_, fun _ hu => hu, ?_, by simp, ?_⟩
      · intro u hu
        cases hu
        simpa using hlt
      · intro _ u hu
        simp only [or_self, Option.some.injEq] at hu
        exact hu ▸ hbegun
      · intro u _ hu _
        cases hu
        exact .inr (storesKept_append rfl _ _ hstore)

end

/-- Work from outside any held turn opens the last turn. -/
theorem QueueInv.openTurn (origin : Option Nat) :
    QueueInv { s with
      turns := s.turns ++ [⟨true, 0, s.tail, s.work.length, 0⟩]
      work := s.work ++ [⟨origin, some s.turns.length, some s.turns.length, .queued⟩]
      tail := some s.turns.length } := by
  have hle := hinv.order_le
  refine ⟨hinv.order_eq, ?_, by simp, ?_, ?_⟩
  · simp only [List.length_append, List.length_singleton]
    omega
  · intro t turn h
    rcases getElem?_append_cases h with h | ⟨rfl, rfl⟩
    · exact (hinv.turn_ok t turn h).append (by simp [WorkPhase.isPending])
    · have hnone : pendingWork s.work s.turns.length = 0 := by
        refine List.countP_eq_zero.mpr ?_
        intro w hw
        obtain ⟨i, hi⟩ := List.getElem?_of_mem hw
        simp only [Bool.and_eq_true, beq_iff_eq, not_and]
        intro hturn
        exact absurd ((hinv.work_ok i w hi).turn_lt _ hturn) (Nat.lt_irrefl _)
      have hcount : pendingWork (s.work ++
          [⟨origin, some s.turns.length, some s.turns.length, .queued⟩]) s.turns.length = 0 := by
        rw [pendingWork_append, hnone]
        simp [WorkPhase.isPending]
      refine ⟨hinv.tail_eq, by rw [hcount]; rfl, ?_, rfl, ?_, ?_⟩
      · rw [if_neg]
        dsimp only
        omega
      · dsimp only
        omega
      · exact ⟨_, List.getElem?_concat_length, rfl, fun _ => rfl⟩
  · intro i w h
    have hturns : TurnsKept s { s with
        turns := s.turns ++ [⟨true, 0, s.tail, s.work.length, 0⟩]
        work := s.work ++ [⟨origin, some s.turns.length, some s.turns.length, .queued⟩]
        tail := some s.turns.length } := by
      intro t turn ht
      have hlt : t < s.turns.length := lt_of_getElem? ht
      exact ⟨turn, by rw [List.getElem?_append_left hlt, ht], rfl⟩
    rcases getElem?_append_cases h with h | ⟨rfl, rfl⟩
    · have hok := hinv.work_ok i w h
      exact hok.mono hturns (storesKept_append rfl) (Nat.le_refl _)
        (fun hq t ht => hok.queued_le hq ht)
    · refine ⟨?_, fun _ ht => ht, fun hne => absurd rfl hne, ?_, ?_⟩
      · intro t ht
        cases ht
        simp
      · intro _
        exact ⟨_, _, rfl, List.getElem?_concat_length, rfl, hle⟩
      · intro t turn ht hturn
        cases ht
        simp only [List.getElem?_concat_length, Option.some.injEq] at hturn
        exact .inl (by rw [← hturn])

theorem QueueInv.enqueue
    (hstarted : origin.all (hasStarted s) = true) : QueueInv (enqueue s origin) := by
  unfold Sqljs.enqueue
  cases hheld : heldTurn s origin with
  | some t => exact hinv.within hstarted hheld
  | none => exact hinv.openTurn origin

theorem QueueInv.call {c : SqljsCall}
    (hstarted : origin.all (hasStarted s) = true) (h : call s origin c = .ok s') :
    QueueInv s' := by
  cases c with
  | method =>
    cases h
    exact hinv.enqueue hstarted
  | query sql =>
    cases h
    split
    · exact hinv.read hstarted
    · exact hinv.enqueue hstarted
  | startTransaction =>
    simp only [Sqljs.call, bind_eq_ok, pure_eq_ok] at h
    obtain ⟨_, _, rfl⟩ := h
    exact hinv

/-! ## A turn begins -/

theorem QueueInv.next_turn (hturn : s.turns[t]? = some turn) (hw : s.work[turn.opener]? = some w)
    (hahead : isReleased s turn.ahead = true) (hq : w.phase = .queued) :
    w.turn = some t ∧ t = s.order.length ∧
      ∀ prev, t = prev + 1 → ∃ p, s.turns[prev]? = some p ∧ p.releases = 1 := by
  have hok := hinv.turn_ok t turn hturn
  obtain ⟨v, hv, hvt, _⟩ := hok.opener_turn
  have hsame : v = w := Option.some.inj (hv.symm.trans hw)
  subst hsame
  have hge := (hinv.work_ok _ v hw).queued_le hq hvt
  rw [hok.ahead_eq] at hahead
  -- the turn ahead is the one before, and it is released
  have hprev : ∀ prev, t = prev + 1 → ∃ p, s.turns[prev]? = some p ∧ p.releases = 1 := by
    rintro prev rfl
    simp only [Nat.add_one_ne_zero, if_false, Nat.add_sub_cancel, isReleased, Option.all_some,
      Option.any_eq_true, decide_eq_true_eq] at hahead
    obtain ⟨p, hp, hpos⟩ := hahead
    have := hinv.releases_le hp
    exact ⟨p, hp, by omega⟩
  refine ⟨hvt, ?_, hprev⟩
  cases t with
  | zero => omega
  | succ prev =>
    obtain ⟨p, hp, hrel⟩ := hprev prev rfl
    have hbegun := (hinv.turn_ok prev p hp).releases_eq
    rw [hrel] at hbegun
    by_cases hlt : prev < s.order.length
    · omega
    · rw [if_neg (by omega)] at hbegun
      omega

theorem QueueInv.beginTurn (h : beginTurn s t = .ok s') :
    QueueInv s' := by
  simp only [Sqljs.beginTurn, bind_eq_ok, orThrow_eq_ok, require_eq_ok, Bool.and_eq_true,
    beq_iff_eq, pure_eq_ok] at h
  obtain ⟨turn, hturn, w, hw, _, ⟨hahead, hq⟩, rfl⟩ := h
  obtain ⟨hwt, ht, hprev⟩ := hinv.next_turn hturn hw hahead hq
  have hlt : t < s.turns.length := lt_of_getElem? hturn
  have hlen : (s.order ++ [t]).length = s.order.length + 1 := by simp
  have hcount : ∀ u, pendingWork (s.work.set turn.opener { w with phase := .running }) u =
      pendingWork s.work u + if u = t then 1 else 0 := by
    intro u
    have hset := pendingWork_setPhase hw .running u
    rw [if_neg (by simp [hq, WorkPhase.isPending]), Nat.add_zero] at hset
    rw [hset, hwt]
    simp [WorkPhase.isPending, eq_comm]
  refine ⟨?_, ?_, by simpa using hinv.tail_eq, ?_, ?_⟩
  · have horder := hinv.order_eq
    rw [hlen, List.range_succ, ← horder, ← ht]
  · simp only [hlen, List.length_modify]
    omega
  · intro u turn' hu
    simp only [hlen]
    rcases getElem?_modify_cases hu with ⟨rfl, old, hold, rfl⟩ | ⟨htu, hu⟩
    · have hok := hinv.turn_ok t old hold
      have hsame : old = turn := Option.some.inj (hold.symm.trans hturn)
      subst hsame
      have hopener : old.opener < s.work.length := lt_of_getElem? hw
      have hrel : old.releases = 0 := by
        rw [hok.releases_eq, if_neg (by omega)]
      refine ⟨hok.ahead_eq, ?_, ?_, hok.active_eq, fun h => by omega, ?_⟩
      · have hhold : old.hold.pending = old.pending + 1 := rfl
        rw [hcount, if_pos rfl, hhold, hok.pending_eq]
        omega
      · rw [hcount, if_pos rfl, if_neg (by omega)]
        exact hrel
      · exact ⟨_, List.getElem?_set_self hopener, hwt, fun h => by omega⟩
    · have hok := hinv.turn_ok u turn' hu
      have hcount : pendingWork (s.work.set turn.opener { w with phase := .running }) u =
          pendingWork s.work u := by
        rw [hcount, if_neg (Ne.symm htu), Nat.add_zero]
      obtain ⟨v, hv, hvt, hvq⟩ := hok.opener_turn
      refine ⟨hok.ahead_eq, hcount ▸ hok.pending_eq, ?_, hok.active_eq, ?_, v, ?_, hvt, ?_⟩
      · rw [hcount, hok.releases_eq]
        have hiff : u < s.order.length + 1 ↔ u < s.order.length := by omega
        simp only [hiff]
      · intro hlt
        by_cases hlast : t = u + 1
        · obtain ⟨p, hp, hrel⟩ := hprev u hlast
          have hsame : p = turn' := Option.some.inj (hp.symm.trans hu)
          exact hsame ▸ hrel
        · exact hok.handed_on (by omega)
      · -- the opener of another turn is another piece of work
        have hne : turn.opener ≠ turn'.opener := by
          intro heq
          rw [heq, hv] at hw
          have hsame : v = w := Option.some.inj hw
          rw [hsame, hwt] at hvt
          exact htu (Option.some.inj hvt)
        rw [List.getElem?_set_ne hne, hv]
      · exact fun h => hvq (by omega)
  · intro i v hv
    have hturns : TurnsKept s { s with
        turns := s.turns.modify t (·.hold)
        work := s.work.set turn.opener { w with phase := .running }
        order := s.order ++ [t] } :=
      turnsKept_modify rfl (fun _ => rfl)
    have hstores : StoresKept s { s with
        turns := s.turns.modify t (·.hold)
        work := s.work.set turn.opener { w with phase := .running }
        order := s.order ++ [t] } :=
      storesKept_set rfl hw rfl
    rcases getElem?_set_cases hv with ⟨rfl, rfl⟩ | ⟨hne, hv⟩
    · refine (hinv.work_ok _ w hw).setPhase hturns hstores (by simp) ?_
      intro u hu
      rw [(hinv.work_ok _ w hw).store_eq t hwt, hwt, or_self] at hu
      cases hu
      simp only [hlen]
      omega
    · have hok := hinv.work_ok i v hv
      refine hok.mono hturns hstores (by simp) ?_
      intro hvq u hu
      have hge := hok.queued_le hvq hu
      obtain ⟨u', turn', hu', hturn', hopen, _⟩ := hok.queued hvq
      -- `u = t` would make `i` the opener of `t`
      have hut : u ≠ t := by
        rintro rfl
        have hsame : u = u' := Option.some.inj (hu.symm.trans hu')
        subst hsame
        have hsame : turn' = turn := Option.some.inj (hturn'.symm.trans hturn)
        exact hne (hsame ▸ hopen)
      simp only [hlen]
      omega

end

/-! ## Work settles -/

/-- The opener of a turn, after some started piece of work has changed its phase. -/
theorem TurnOk.opener_setPhase {begun t i : Nat}
    (h : TurnOk work begun t turn) (hw : work[i]? = some w) (hne : w.phase ≠ .queued)
    (p : WorkPhase) :
    ∃ v, (work.set i { w with phase := p })[turn.opener]? = some v ∧ v.turn = some t ∧
      (begun ≤ t → v.phase = .queued) := by
  obtain ⟨v, hv, hvt, hvq⟩ := h.opener_turn
  by_cases hi : i = turn.opener
  · subst hi
    have hsame : v = w := Option.some.inj (hv.symm.trans hw)
    subst hsame
    have hlt := lt_of_getElem? hv
    exact ⟨_, List.getElem?_set_self hlt, hvt, fun h => absurd (hvq h) hne⟩
  · exact ⟨v, by rw [List.getElem?_set_ne hi, hv], hvt, hvq⟩

/-- The work, after a started piece of it has changed its phase. -/
theorem QueueInv.work_setPhase {p : WorkPhase} (hinv : QueueInv s)
    (hw : s.work[i]? = some w) (hne : w.phase ≠ .queued) (hp : p ≠ .queued)
    (hwork : s'.work = s.work.set i { w with phase := p }) (horder : s'.order = s.order)
    (hturns : TurnsKept s s') : ∀ j v, s'.work[j]? = some v → WorkOk s' j v := by
  intro j v hv
  have hstores : StoresKept s s' := storesKept_set hwork hw rfl
  rw [hwork] at hv
  rcases getElem?_set_cases hv with ⟨rfl, rfl⟩ | ⟨_, hv⟩
  · have hok := hinv.work_ok i w hw
    exact hok.setPhase hturns hstores hp (horder ▸ hok.started hne)
  · have hok := hinv.work_ok j v hv
    exact hok.mono hturns hstores (Nat.le_of_eq (by rw [horder]))
      (fun hq t ht => horder ▸ hok.queued_le hq ht)

theorem QueueInv.settle {ok : Bool} (hinv : QueueInv s)
    (h : settle s i ok = .ok s') : QueueInv s' := by
  simp only [Sqljs.settle, bind_eq_ok, orThrow_eq_ok, require_eq_ok, beq_iff_eq,
    pure_eq_ok] at h
  obtain ⟨w, hw, _, hrun, rfl⟩ := h
  have hne : w.phase ≠ .queued := by simp [hrun]
  -- settled work is counted until its `finally` has run
  have hcount : ∀ t, pendingWork (s.work.set i { w with phase := .settled ok }) t =
      pendingWork s.work t := by
    intro t
    have hset := pendingWork_setPhase hw (.settled ok) t
    simp only [hrun, WorkPhase.isPending] at hset
    exact Nat.add_right_cancel hset
  refine ⟨hinv.order_eq, hinv.order_le, hinv.tail_eq, ?_, ?_⟩
  · intro t turn hturn
    have hok := hinv.turn_ok t turn hturn
    exact ⟨hok.ahead_eq, (hcount t).symm ▸ hok.pending_eq, (hcount t).symm ▸ hok.releases_eq,
      hok.active_eq, hok.handed_on, hok.opener_setPhase hw hne _⟩
  · exact hinv.work_setPhase hw hne (by simp) rfl rfl (fun t turn h => ⟨turn, h, rfl⟩)

/-- The `finally` of `within` takes one off the count of a turn, and releases it at zero. -/
theorem TurnOk.finish {work work' : List Work} {begun t : Nat}
    (h : TurnOk work begun t turn) (ht : t < begun)
    (hcount : pendingWork work t = pendingWork work' t + 1)
    (hopener : ∃ v, work'[turn.opener]? = some v ∧ v.turn = some t ∧
      (begun ≤ t → v.phase = .queued)) : TurnOk work' begun t turn.finish := by
  have hrel : turn.releases = 0 := by
    rw [h.releases_eq, if_neg (by omega)]
  have hlast : ¬ t + 1 < begun := by
    intro hlt
    have := h.handed_on hlt
    omega
  have hpending : turn.pending - 1 = pendingWork work' t := by
    rw [h.pending_eq, hcount]
    omega
  unfold SqljsTurn.finish
  simp only [hpending]
  by_cases hzero : pendingWork work' t = 0
  · rw [if_pos (by omega)]
    refine ⟨h.ahead_eq, rfl, ?_, ?_, fun hlt => absurd hlt hlast, hopener⟩
    · rw [if_pos ⟨ht, hzero⟩]
      simp [SqljsTurn.release, hrel]
    · simp [SqljsTurn.release]
  · rw [if_neg (by omega)]
    refine ⟨h.ahead_eq, rfl, ?_, h.active_eq, fun hlt => absurd hlt hlast, hopener⟩
    rw [if_neg (by omega)]
    exact hrel

theorem QueueInv.finalize (hinv : QueueInv s) (h : finalize s i = .ok s') :
    QueueInv s' := by
  simp only [Sqljs.finalize, bind_eq_ok, orThrow_eq_ok, pure_eq_ok] at h
  obtain ⟨w, hw, t, ht, ok, hsettled, rfl⟩ := h
  have hphase : w.phase = .settled ok := by
    split at hsettled <;> simp_all
  have hne : w.phase ≠ .queued := by simp [hphase]
  have hbegun := (hinv.work_ok i w hw).started hne t (.inl ht)
  have hset := pendingWork_setPhase hw (.finalized ok)
  simp only [hphase, ht, WorkPhase.isPending, Option.some.injEq, and_true, Bool.false_eq_true,
    and_false, if_false, Nat.add_zero] at hset
  refine ⟨hinv.order_eq, by simpa using hinv.order_le, by simpa using hinv.tail_eq, ?_, ?_⟩
  · intro u turn' hu
    rcases getElem?_modify_cases hu with ⟨rfl, turn, hturn, rfl⟩ | ⟨htu, hu⟩
    · have hok := hinv.turn_ok t turn hturn
      refine hok.finish hbegun ?_ (hok.opener_setPhase hw hne _)
      rw [← hset t, if_pos rfl, ht]
    · have hok := hinv.turn_ok u turn' hu
      have hcount : pendingWork (s.work.set i { w with phase := .finalized ok }) u =
          pendingWork s.work u := by
        rw [← hset u, if_neg htu, Nat.add_zero, ht]
      exact ⟨hok.ahead_eq, hcount.symm ▸ hok.pending_eq, hcount.symm ▸ hok.releases_eq,
        hok.active_eq, hok.handed_on, hok.opener_setPhase hw hne _⟩
  · exact hinv.work_setPhase hw hne (by simp) rfl rfl
      (turnsKept_modify rfl SqljsTurn.finish_opener)

/-! ## Runs -/

/-- Every step of the queue keeps the invariant. -/
theorem QueueInv.run {a : QueueAction} (hinv : QueueInv s) (h : a.run s = .ok s') :
    QueueInv s' := by
  cases a with
  | call origin c =>
    simp only [QueueAction.run, bind_eq_ok, require_eq_ok] at h
    obtain ⟨_, hstarted, h⟩ := h
    exact hinv.call hstarted h
  | beginTurn t => exact hinv.beginTurn h
  | settle i ok => exact hinv.settle h
  | finalize i => exact hinv.finalize h

theorem queueInv_reachable (h : queueSystem.Reachable s) : QueueInv s := by
  refine h.invariant ?_ ?_
  · rintro s rfl
    exact queueInv_empty
  · intro s a s' _ hinv hstep
    exact hinv.run hstep

/-! ## Release -/

/-- A turn is released exactly when it has begun and the `finally` of all its work has run. -/
theorem QueueInv.released_iff (hinv : QueueInv s) (hturn : s.turns[t]? = some turn) :
    turn.releases = 1 ↔ t ∈ s.order ∧
      ∀ w ∈ s.work, w.turn = some t → ∃ ok, w.phase = .finalized ok := by
  have hrel := (hinv.turn_ok t turn hturn).releases_eq
  have hiff : turn.releases = 1 ↔ t < s.order.length ∧ pendingWork s.work t = 0 := by
    rw [hrel]
    split <;> simp_all
  rw [hiff, hinv.mem_order]
  refine and_congr_right fun hlt => ?_
  constructor
  · intro hzero w hw ht
    obtain ⟨i, hi⟩ := List.getElem?_of_mem hw
    have hnot : ¬ w.phase.isPending = true := by
      intro hp
      have := pendingWork_pos hi ht hp
      omega
    cases hp : w.phase with
    | queued =>
      have := (hinv.work_ok i w hi).queued_le hp ht
      omega
    | running | settled => simp [hp, WorkPhase.isPending] at hnot
    | finalized ok => exact ⟨ok, rfl⟩
  · intro hall
    refine List.countP_eq_zero.mpr ?_
    intro w hw
    simp only [Bool.and_eq_true, beq_iff_eq, not_and]
    intro ht
    obtain ⟨ok, hp⟩ := hall w hw ht
    simp [hp, WorkPhase.isPending]

/-- When all work of a turn that has begun has settled, returned or thrown, its `finally`
    callbacks release the turn. -/
theorem finalize_releases (hinv : QueueInv s) (ht : t < s.order.length)
    (hsettled : ∀ w ∈ s.work, w.turn = some t → w.phase.hasSettled = true) :
    ∃ as s', queueSystem.Path s as s' ∧ (∀ a ∈ as, ∃ i, a = .finalize i) ∧
      ∃ turn : SqljsTurn, s'.turns[t]? = some turn ∧ turn.releases = 1 := by
  -- induction on the work the turn still counts
  induction hn : pendingWork s.work t generalizing s with
  | zero =>
    obtain ⟨turn, hturn⟩ := hinv.exists_turn ht
    have hrel := (hinv.turn_ok t turn hturn).releases_eq
    rw [if_pos ⟨ht, hn⟩] at hrel
    exact ⟨[], s, .nil s, by simp, turn, hturn, hrel⟩
  | succ n ih =>
    have hpos : 0 < pendingWork s.work t := by omega
    obtain ⟨w, hw, hcounted⟩ := List.countP_pos_iff.mp hpos
    simp only [Bool.and_eq_true, beq_iff_eq] at hcounted
    obtain ⟨hwt, hpending⟩ := hcounted
    obtain ⟨i, hi⟩ := List.getElem?_of_mem hw
    obtain ⟨ok, hphase⟩ : ∃ ok, w.phase = .settled ok := by
      have := hsettled w hw hwt
      cases hp : w.phase <;> simp_all [WorkPhase.hasSettled, WorkPhase.isPending]
    have hstep : finalize s i = .ok { s with
        turns := s.turns.modify t (·.finish)
        work := s.work.set i { w with phase := .finalized ok } } := by
      simp only [Sqljs.finalize, bind_eq_ok, orThrow_eq_ok, pure_eq_ok]
      exact ⟨w, hi, t, hwt, ok, by rw [hphase], rfl⟩
    have hcount := pendingWork_setPhase hi (.finalized ok) t
    simp only [hwt, hphase, WorkPhase.isPending, and_self, if_true, Bool.false_eq_true, and_false,
      if_false, Nat.add_zero] at hcount
    have hset : ∀ v ∈ s.work.set i { w with phase := .finalized ok }, v.turn = some t →
        v.phase.hasSettled = true := by
      intro v hv hvt
      rcases List.mem_or_eq_of_mem_set hv with hv | rfl
      · exact hsettled v hv hvt
      · rfl
    obtain ⟨as, s', hpath, has, hrel⟩ := ih (hinv.finalize hstep) ht hset (by
      dsimp only
      rw [hwt]
      omega)
    have hfirst : queueSystem.Path s [.finalize i] _ := .snoc (.nil s) hstep
    refine ⟨_, s', hfirst.append hpath, ?_, hrel⟩
    intro a ha
    rcases List.mem_append.mp ha with ha | ha
    · exact ⟨i, List.mem_singleton.mp ha⟩
    · exact has a ha

/-! ## Main result -/

/-- The calls that go through `enqueue`: all but read statements and `startTransaction`. -/
def SqljsCall.isQueued : SqljsCall → Bool
  | .method => true
  | .query sql => !isSqljsReadStatement sql
  | .startTransaction => false

/-- Work of the turns before one that has begun has settled. -/
theorem QueueInv.earlier_settled {t u : Nat} (hinv : QueueInv s) (hu : u ∈ s.order)
    (htu : t < u) (hw : w ∈ s.work) (ht : w.turn = some t) : w.phase.hasSettled = true := by
  have hlt := hinv.mem_order.mp hu
  obtain ⟨turn, hturn⟩ := hinv.exists_turn (t := t) (by omega)
  have hrel := (hinv.turn_ok t turn hturn).handed_on (by omega)
  obtain ⟨ok, hp⟩ := ((hinv.released_iff hturn).mp hrel).2 w hw ht
  simp [hp, WorkPhase.hasSettled]

/-- A call from the tree of a released turn opens a turn at the tail. -/
theorem QueueInv.late_call {origin t : Nat} {c : SqljsCall}
    (hinv : QueueInv s) (hstore : getStore s (some origin) = some t)
    (hturn : s.turns[t]? = some turn) (hrel : turn.releases = 1) (hc : c.isQueued = true)
    (h : Sqljs.call s (some origin) c = .ok s') :
    s'.work = s.work ++
        [⟨some origin, some s.turns.length, some s.turns.length, .queued⟩] ∧
      s'.tail = some s.turns.length := by
  have hinactive : turn.active = false := by
    rw [(hinv.turn_ok t turn hturn).active_eq, hrel]
    rfl
  have hheld : heldTurn s (some origin) = none := by
    simp [heldTurn, hstore, hturn, hinactive, Option.filter]
  have hs' : s' = Sqljs.enqueue s (some origin) := by
    cases c with
    | method => exact (Except.ok.inj h).symm
    | query sql =>
      have hread : isSqljsReadStatement sql = false := by simpa [SqljsCall.isQueued] using hc
      have h := Except.ok.inj h
      rw [if_neg (by simp [hread])] at h
      exact h.symm
    | startTransaction => cases hc
  subst hs'
  unfold Sqljs.enqueue
  rw [hheld]
  exact ⟨rfl, rfl⟩

/-- In every reachable state of the queue:
    work in progress belongs to one turn;
    when a turn has begun, all work of the turns before it has settled;
    turns begin in the order they were queued;
    no turn is released twice, and it is released exactly when it has begun and the `finally`
    of all its work has run, which comes about once all that work has returned or thrown;
    a call from the tree of a released turn is queued as a new turn;
    and the work of a turn is its opener and what was started under that turn's store. -/
theorem turns_serialized (h : queueSystem.Reachable s) :
    (∀ v ∈ s.work, ∀ w ∈ s.work, ∀ t u, v.turn = some t → w.turn = some u →
      v.phase.isPending = true → w.phase.isPending = true → t = u) ∧
    (∀ t u, u ∈ s.order → t < u → ∀ w ∈ s.work, w.turn = some t → w.phase.hasSettled = true) ∧
    s.order = List.range s.order.length ∧
    (∀ (t : Nat) (turn : SqljsTurn), s.turns[t]? = some turn → turn.releases ≤ 1 ∧
      (turn.releases = 1 ↔ t ∈ s.order ∧
        ∀ w ∈ s.work, w.turn = some t → ∃ ok, w.phase = .finalized ok)) ∧
    (∀ t ∈ s.order, (∀ w ∈ s.work, w.turn = some t → w.phase.hasSettled = true) →
      ∃ as s', queueSystem.Path s as s' ∧ (∀ a ∈ as, ∃ i, a = .finalize i) ∧
        ∃ turn : SqljsTurn, s'.turns[t]? = some turn ∧ turn.releases = 1) ∧
    (∀ (origin t : Nat) (turn : SqljsTurn) (c : SqljsCall) (s' : QueueState),
      getStore s (some origin) = some t → s.turns[t]? = some turn → turn.releases = 1 →
      c.isQueued = true → (QueueAction.call (some origin) c).run s = .ok s' →
        s'.work = s.work ++
          [⟨some origin, some s.turns.length, some s.turns.length, .queued⟩] ∧
        s'.tail = some s.turns.length) ∧
    (∀ (i : Nat) (w : Work) (t : Nat) (turn : SqljsTurn), s.work[i]? = some w →
      w.turn = some t → s.turns[t]? = some turn →
        turn.opener = i ∨ getStore s w.origin = some t) := by
  have hinv := queueInv_reachable h
  refine ⟨?_, ?_, hinv.order_eq, ?_, ?_, ?_, ?_⟩
  · intro v hv w hw t u hvt hwu hvp hwp
    obtain ⟨i, hi⟩ := List.getElem?_of_mem hv
    obtain ⟨j, hj⟩ := List.getElem?_of_mem hw
    have h₁ := hinv.pending_last hi hvt hvp
    have h₂ := hinv.pending_last hj hwu hwp
    omega
  · intro t u hu htu w hw ht
    exact hinv.earlier_settled hu htu hw ht
  · intro t turn hturn
    exact ⟨hinv.releases_le hturn, hinv.released_iff hturn⟩
  · intro t ht hsettled
    exact finalize_releases hinv (hinv.mem_order.mp ht) hsettled
  · intro origin t turn c s' hstore hturn hrel hc hrun
    simp only [QueueAction.run, bind_eq_ok] at hrun
    obtain ⟨_, _, hcall⟩ := hrun
    exact hinv.late_call hstore hturn hrel hc hcall
  · intro i w t turn hw ht hturn
    exact (hinv.work_ok i w hw).lineage t turn ht hturn

/-- A transaction whose body throws while work it did not await still runs; another caller
    waits for that work too; and the late work's own tree then calls again. -/
def unawaitedWork : List QueueAction :=
  [.call none .method, .beginTurn 0, .call (some 0) .method, .call none .method, .settle 0 false,
    .finalize 0, .settle 1 true, .finalize 1, .beginTurn 1, .call (some 1) .method]

/-- The turn of the transaction was released once, after the work that it left behind. -/
theorem turns_serialized_unawaited : ∃ s, queueSystem.Reachable s ∧
    s.turns.map (·.releases) = [1, 0, 0] ∧ s.order = [0, 1] ∧
    (∀ w ∈ s.work, w.turn = some 0 → w.phase.hasSettled = true) := by
  obtain ⟨s, hpath, hs⟩ := Transition.exists_path_of_run (M := queueSystem)
    (fun s a t (h : QueueAction.run s a = .ok t) => h) .empty unawaitedWork
    (fun s => s.turns.map (·.releases) == [1, 0, 0] && s.order == [0, 1]) (by decide)
  have hempty : queueSystem.init .empty := rfl
  have hreach : queueSystem.Reachable s := (Transition.Reachable.init hempty).path hpath
  simp only [Bool.and_eq_true, beq_iff_eq] at hs
  obtain ⟨hrel, horder⟩ := hs
  refine ⟨s, hreach, hrel, horder, ?_⟩
  exact (turns_serialized hreach).2.1 0 1 (by simp [horder]) (by decide)

/-! ## The queue drains -/

def QueueAction.isCall : QueueAction → Bool
  | .call _ _ => true
  | _ => false

/-- Every turn has begun and is released, and its work has run through its `finally`. -/
structure Drained (s : QueueState) : Prop where
  finalized : ∀ w ∈ s.work, ∀ t, w.turn = some t → ∃ ok, w.phase = .finalized ok
  begun : s.order.length = s.turns.length
  released : ∀ turn ∈ s.turns, turn.releases = 1

section

variable (hinv : QueueInv s)
include hinv

/-- When nothing runs and no `finally` is due, the next turn can begin. -/
theorem QueueInv.can_begin (hidle : ∀ w ∈ s.work, w.phase.isPending = true → w.turn = none)
    (hlt : s.order.length < s.turns.length) :
    ∃ s', Sqljs.beginTurn s s.order.length = .ok s' := by
  have hturn := List.getElem?_eq_getElem hlt
  have hok := hinv.turn_ok _ _ hturn
  obtain ⟨w, hw, -, hqueued⟩ := hok.opener_turn
  have hnone : ∀ t, pendingWork s.work t = 0 := by
    intro t
    refine List.countP_eq_zero.mpr fun w hw => ?_
    simp only [Bool.and_eq_true, beq_iff_eq, not_and]
    intro ht hp
    rw [hidle w hw hp] at ht
    cases ht
  have hahead : isReleased s (s.turns[s.order.length]).ahead = true := by
    rw [hok.ahead_eq]
    split
    · rfl
    · rename_i hne
      have hprev := List.getElem?_eq_getElem (l := s.turns) (i := s.order.length - 1) (by omega)
      have hrel := (hinv.turn_ok _ _ hprev).releases_eq
      rw [if_pos ⟨by omega, hnone _⟩] at hrel
      simp [isReleased, hprev, hrel]
  simp only [Sqljs.beginTurn, bind_eq_ok, orThrow_eq_ok, require_eq_ok, Bool.and_eq_true,
    beq_iff_eq, pure_eq_ok]
  exact ⟨_, _, hturn, w, hw, (), ⟨hahead, hqueued (Nat.le_refl _)⟩, rfl⟩

/-- When no work settles, no `finally` runs and no turn begins, all is done. -/
theorem QueueInv.drained
    (hstuck : ∀ (a : QueueAction) (s' : QueueState), a.isCall = false → a.run s ≠ .ok s') :
    Drained s := by
  have hrunning : ∀ w ∈ s.work, w.phase ≠ .running := by
    intro w hw hrun
    obtain ⟨i, hi⟩ := List.getElem?_of_mem hw
    obtain ⟨s', hs'⟩ : ∃ s', Sqljs.settle s i true = .ok s' := by
      simp [Sqljs.settle, bind_eq_ok, orThrow_eq_ok, hi, hrun]
    exact hstuck (.settle i true) s' rfl hs'
  have hsettled : ∀ w ∈ s.work, ∀ ok, w.phase = .settled ok → w.turn = none := by
    intro w hw ok hp
    obtain ⟨i, hi⟩ := List.getElem?_of_mem hw
    cases ht : w.turn with
    | none => rfl
    | some t =>
      obtain ⟨s', hs'⟩ : ∃ s', Sqljs.finalize s i = .ok s' := by
        cases ok <;> simp [Sqljs.finalize, bind_eq_ok, orThrow_eq_ok, hi, ht, hp]
      exact absurd hs' (hstuck (.finalize i) s' rfl)
  have hidle : ∀ w ∈ s.work, w.phase.isPending = true → w.turn = none := by
    intro w hw hp
    cases hphase : w.phase with
    | running => exact absurd hphase (hrunning w hw)
    | settled ok => exact hsettled w hw ok hphase
    | queued | finalized => rw [hphase] at hp; cases hp
  have hbegun : s.order.length = s.turns.length := by
    by_contra hne
    have hle := hinv.order_le
    obtain ⟨s', hs'⟩ := hinv.can_begin hidle (by omega)
    exact hstuck (.beginTurn _) s' rfl hs'
  have hqueued : ∀ w ∈ s.work, w.phase ≠ .queued := by
    intro w hw hq
    obtain ⟨i, hi⟩ := List.getElem?_of_mem hw
    obtain ⟨t, turn, -, hturn, -, hle⟩ := (hinv.work_ok i w hi).queued hq
    have hlt := lt_of_getElem? hturn
    omega
  have hfinal : ∀ w ∈ s.work, ∀ t, w.turn = some t → ∃ ok, w.phase = .finalized ok := by
    intro w hw t ht
    cases hphase : w.phase with
    | finalized ok => exact ⟨ok, rfl⟩
    | queued => exact absurd hphase (hqueued w hw)
    | running => exact absurd hphase (hrunning w hw)
    | settled ok => rw [hsettled w hw ok hphase] at ht; cases ht
  refine ⟨hfinal, hbegun, fun turn hturn => ?_⟩
  obtain ⟨t, ht⟩ := List.getElem?_of_mem hturn
  have hlt := lt_of_getElem? ht
  exact (hinv.released_iff ht).mpr ⟨hinv.mem_order.mpr (by omega), fun w hw => hfinal w hw t⟩

end

/-- The queue never gets stuck: in every reachable state work can settle, its `finally` can run or
    the next turn can begin, without a new call, until all is done. -/
theorem queue_never_stuck (h : queueSystem.Reachable s) :
    Drained s ∨ ∃ (a : QueueAction) (s' : QueueState), a.isCall = false ∧ a.run s = .ok s' := by
  refine or_iff_not_imp_right.mpr fun hnone => (queueInv_reachable h).drained ?_
  exact fun a s' ha hrun => hnone ⟨a, s', ha, hrun⟩

theorem queue_never_stuck_waiting : ∃ s, s.turns.length = 2 ∧ s.order = [0] ∧
    (Drained s ∨ ∃ (a : QueueAction) (s' : QueueState), a.isCall = false ∧ a.run s = .ok s') := by
  obtain ⟨s, hpath, hs⟩ := Transition.exists_path_of_run (M := queueSystem)
    (fun s a t (h : QueueAction.run s a = .ok t) => h) .empty
    [.call none .method, .beginTurn 0, .call none .method]
    (fun s => s.turns.length = 2 && s.order = [0]) (by decide)
  rw [Bool.and_eq_true, decide_eq_true_eq, decide_eq_true_eq] at hs
  exact ⟨s, hs.1, hs.2, queue_never_stuck ((Transition.Reachable.init rfl).path hpath)⟩

end WorkflowBoard.Sqljs
