import WorkflowBoard.ForStd.List
import WorkflowBoard.Native.Outbox

/-!
# What leaves the outbox

A flush remembers the first entry, awaits its send and then removes whatever is first. At the
cap an `enqueue` in between drops the entry that is being sent, and the return of the send
removes the next one, which nobody has sent (`not_always_delivered`).

`outbox_delivery`: as long as an entry is still first when its send returns `ok` or
`permanent`, an entry leaves the queue only for one of the reasons of `Leaves`; and in every
run entries are handed over in the order they were enqueued, one send is in flight at most,
and the file holds the queue unless its last write failed.
-/

namespace WorkflowBoard.AgentManager

variable {P : Type}

/-- The entry that a flush is sending. -/
def FlushPhase.entry? : FlushPhase P → Option (OutboxEntry P)
  | .sending entry => some entry
  | _ => none

/-- A flush that has not returned. -/
def FlushPhase.active : FlushPhase P → Bool
  | .returned => false
  | _ => true

/-- Why a step may take `e` out of the queue: its own send returned `ok` or `permanent`, the
    flush found it expired or without a sender, it was the oldest at an overflow, or the process
    died after a write of the file had failed. -/
inductive Leaves (s : Outbox P) (e : OutboxEntry P) : OutboxAction P → Prop where
  | sent {i : Nat} {entry : OutboxEntry P} {outcome : OutboxSendOutcome} {writeOk : Bool} :
      s.flushes[i]? = some (.sending entry) → entry.id = e.id →
      outcome = .ok ∨ outcome = .permanent → Leaves s e (.settle i outcome writeOk)
  | dropped {i : Nat} {writeOk : Bool} :
      s.entries.head? = some e → Outbox.expired s.now e = true ∨ e.kind ∉ s.senders →
      Leaves s e (.turn i writeOk)
  | overflow {kind : OutboxKind} {payload : P} {writeOk : Bool} :
      s.entries.length = outboxMaxEntries → s.entries.head? = some e →
      Leaves s e (.enqueue kind payload writeOk)
  | unwritten : s.written = false → Leaves s e .restart

/-- The condition on a step: an entry whose send returns `ok` or `permanent` is still first. -/
def Outbox.SettlesFirst (s : Outbox P) : OutboxAction P → Prop
  | .settle i outcome _ => outcome = .ok ∨ outcome = .permanent →
      ∀ entry ∈ s.flushes[i]?.bind FlushPhase.entry?,
        s.entries.head?.map (·.id) = some entry.id
  | _ => True

instance (s : Outbox P) (a : OutboxAction P) : Decidable (s.SettlesFirst a) :=
  match a with
  | .settle i outcome _ => inferInstanceAs (Decidable (outcome = .ok ∨ outcome = .permanent →
      ∀ entry ∈ s.flushes[i]?.bind FlushPhase.entry?,
        s.entries.head?.map (·.id) = some entry.id))
  | .tick _ => .isTrue trivial
  | .setSenders _ => .isTrue trivial
  | .enqueue _ _ _ => .isTrue trivial
  | .flush _ => .isTrue trivial
  | .turn _ _ => .isTrue trivial
  | .restart => .isTrue trivial

/-- Runs in which no entry is dropped by an overflow while it is being sent with success. -/
def firstRuns (P : Type) : Transition (Outbox P) (OutboxAction P) :=
  (outboxSystem P).restrict fun s a _ => s.SettlesFirst a

/-! ## Queues -/

/-- A queue as the outbox keeps it: oldest first, ids below `n`, within the cap. -/
structure QueueOk (n : Nat) (l : List (OutboxEntry P)) : Prop where
  sorted : (l.map (·.id)).Pairwise (· < ·)
  entry : ∀ e ∈ l, e.id < n ∧ 0 < e.enqueued_at_ms
  length : l.length ≤ outboxMaxEntries

section Queue

variable {n : Nat} {l : List (OutboxEntry P)} {e : OutboxEntry P}

theorem QueueOk.sublist {l' : List (OutboxEntry P)} (h : QueueOk n l) (hsub : l'.Sublist l) :
    QueueOk n l' where
  sorted := h.sorted.sublist (hsub.map _)
  entry e he := h.entry e (hsub.mem he)
  length := Nat.le_trans hsub.length_le h.length

theorem QueueOk.mono {m : Nat} (h : QueueOk n l) (hle : n ≤ m) : QueueOk m l where
  sorted := h.sorted
  entry e he := ⟨Nat.lt_of_lt_of_le (h.entry e he).1 hle, (h.entry e he).2⟩
  length := h.length

theorem map_id_countAttempt (id : Nat) (l : List (OutboxEntry P)) :
    (Outbox.countAttempt id l).map (·.id) = l.map (·.id) := by
  unfold Outbox.countAttempt
  rw [List.map_map]
  apply List.map_congr_left
  intro e _
  show OutboxEntry.id (if e.id = id then { e with attempts := e.attempts + 1 } else e) = e.id
  split <;> rfl

theorem mem_countAttempt {id : Nat} (h : e ∈ Outbox.countAttempt id l) :
    ∃ e₀ ∈ l, e₀.id = e.id ∧ e₀.enqueued_at_ms = e.enqueued_at_ms := by
  obtain ⟨e₀, he₀, rfl⟩ := List.mem_map.mp h
  refine ⟨e₀, he₀, ?_⟩
  split <;> exact ⟨rfl, rfl⟩

theorem QueueOk.countAttempt (h : QueueOk n l) (id : Nat) :
    QueueOk n (Outbox.countAttempt id l) where
  sorted := by
    rw [map_id_countAttempt]
    exact h.sorted
  entry := by
    intro e he
    obtain ⟨e₀, he₀, hid, htime⟩ := mem_countAttempt he
    rw [← hid, ← htime]
    exact h.entry e₀ he₀
  length := by
    unfold Outbox.countAttempt
    rw [List.length_map]
    exact h.length

/-- What is left when the cap has been applied to a queue with one entry more. -/
theorem cap_append (h : QueueOk n l) (e : OutboxEntry P) :
    (l.length = outboxMaxEntries ∧ Outbox.cap (l ++ [e]) = l.tail ++ [e]) ∨
      (l.length < outboxMaxEntries ∧ Outbox.cap (l ++ [e]) = l ++ [e]) := by
  have hle := h.length
  unfold Outbox.cap
  rw [List.length_append, List.length_singleton]
  by_cases hfull : l.length = outboxMaxEntries
  · refine .inl ⟨hfull, ?_⟩
    rw [show l.length + 1 - outboxMaxEntries = 1 by omega, List.drop_one]
    cases l with
    | nil => cases hfull
    | cons a l => rfl
  · refine .inr ⟨by omega, ?_⟩
    rw [show l.length + 1 - outboxMaxEntries = 0 by omega, List.drop_zero]

theorem mem_of_mem_cap (h : e ∈ Outbox.cap l) : e ∈ l :=
  List.mem_of_mem_drop h

/-- The oldest entries fall out behind a new one. -/
theorem QueueOk.cap (h : QueueOk n l) (hid : e.id = n) (htime : 0 < e.enqueued_at_ms) :
    QueueOk (n + 1) (Outbox.cap (l ++ [e])) := by
  have hsorted : ((l ++ [e]).map (·.id)).Pairwise (· < ·) := by
    rw [List.map_append, List.pairwise_append]
    refine ⟨h.sorted, List.pairwise_singleton _ _, ?_⟩
    intro a ha b hb
    obtain ⟨e₀, he₀, rfl⟩ := List.mem_map.mp ha
    obtain rfl := List.mem_singleton.mp hb
    show e₀.id < e.id
    rw [hid]
    exact (h.entry e₀ he₀).1
  have hentry : ∀ e₀ ∈ l ++ [e], e₀.id < n + 1 ∧ 0 < e₀.enqueued_at_ms := by
    intro e₀ he₀
    obtain he₀ | he₀ := List.mem_append.mp he₀
    · exact (h.mono (Nat.le_succ n)).entry e₀ he₀
    · obtain rfl := List.mem_singleton.mp he₀
      exact ⟨by omega, htime⟩
  obtain ⟨hfull, heq⟩ | ⟨hlt, heq⟩ := cap_append h e
  · have hsub : (l.tail ++ [e]).Sublist (l ++ [e]) := (List.tail_sublist l).append_right _
    rw [heq]
    refine ⟨hsorted.sublist (hsub.map _), fun e₀ he₀ => hentry e₀ (hsub.mem he₀), ?_⟩
    rw [List.length_append, List.length_tail, List.length_singleton]
    have : outboxMaxEntries = 500 := rfl
    omega
  · rw [heq]
    refine ⟨hsorted, hentry, ?_⟩
    rw [List.length_append, List.length_singleton]
    omega

theorem QueueOk.map_loadEntry (h : QueueOk n l) (now : Date) :
    l.map (Outbox.loadEntry now) = l := by
  have hsame : ∀ e ∈ l, Outbox.loadEntry now e = id e := by
    intro e he
    have htime := (h.entry e he).2
    unfold Outbox.loadEntry
    rw [if_neg (Int.ne_of_gt htime)]
    rfl
  rw [List.map_congr_left hsame, List.map_id]

end Queue

-- from here on only `cap_append` and `QueueOk.cap` look into it
attribute [local irreducible] Outbox.cap

/-! ## The invariant -/

/-- Queue and file, and what was handed over. -/
structure StoreInv (s : Outbox P) : Prop where
  clock : 0 < s.now
  entries : QueueOk s.nextId s.entries
  file : QueueOk s.nextId (s.file.getD [])
  stored : s.written = true → s.file.getD [] = s.entries
  handed : s.handed.Pairwise (· ≤ ·)
  past : ∀ id ∈ s.handed, id < s.nextId ∧ ∀ e ∈ s.entries, id ≤ e.id

/-- Only the flush that set the flag is running. -/
def FlushInv (s : Outbox P) : Prop :=
  s.flushes.countP FlushPhase.active ≤ if s.flushing then 1 else 0

section Steps

variable {s t : Outbox P} {i : Nat}

section

variable (h : StoreInv s)
include h

theorem StoreInv.of_eq (hnow : t.now = s.now) (hentries : t.entries = s.entries)
    (hfile : t.file = s.file) (hnext : t.nextId = s.nextId) (hhanded : t.handed = s.handed)
    (hwritten : t.written = s.written) : StoreInv t := by
  obtain ⟨h₁, h₂, h₃, h₄, h₅, h₆⟩ := h
  rw [← hnow] at h₁
  rw [← hnext, ← hentries] at h₂
  rw [← hnext, ← hfile] at h₃
  rw [← hwritten, ← hfile, ← hentries] at h₄
  rw [← hhanded] at h₅
  rw [← hhanded, ← hnext, ← hentries] at h₆
  exact ⟨h₁, h₂, h₃, h₄, h₅, h₆⟩

/-- A change of the queue that is persisted, successfully or not. -/
theorem StoreInv.persist {entries : List (OutboxEntry P)} {n : Nat}
    (hn : s.nextId ≤ n) (hqueue : QueueOk n entries)
    (hpast : ∀ id ∈ s.handed, ∀ e ∈ entries, id ≤ e.id) (writeOk : Bool) :
    StoreInv ({ s with entries, nextId := n }.persist writeOk) := by
  refine ⟨h.clock, hqueue, ?_, ?_, h.handed, ?_⟩
  · cases writeOk
    · exact h.file.mono hn
    · exact hqueue
  · intro hwritten
    cases writeOk
    · cases hwritten
    · rfl
  · intro id hid
    exact ⟨Nat.lt_of_lt_of_le (h.past id hid).1 hn, hpast id hid⟩

theorem StoreInv.persist_tail (writeOk : Bool) :
    StoreInv ({ s with entries := s.entries.tail }.persist writeOk) := by
  apply h.persist (Nat.le_refl _) (h.entries.sublist (List.tail_sublist _))
  intro id hid e he
  exact (h.past id hid).2 e (List.mem_of_mem_tail he)

theorem StoreInv.enqueue (kind : OutboxKind) (payload : P) (writeOk : Bool) :
    StoreInv (s.enqueue kind payload writeOk) := by
  apply h.persist (Nat.le_succ _) (h.entries.cap rfl h.clock)
  intro id hid e he
  obtain he | he := List.mem_append.mp (mem_of_mem_cap he)
  · exact (h.past id hid).2 e he
  · obtain rfl := List.mem_singleton.mp he
    exact Nat.le_of_lt (h.past id hid).1

theorem StoreInv.flush (reason : String) : StoreInv (s.flush reason) := by
  unfold Outbox.flush
  split
  · exact h.of_eq rfl rfl rfl rfl rfl rfl
  · split
    · exact h
    · exact h.of_eq rfl rfl rfl rfl rfl rfl

theorem StoreInv.finish (i : Nat) : StoreInv (s.finish i) := by
  have hdone : StoreInv { s with flushing := false, flushes := s.flushes.set i .returned } :=
    h.of_eq rfl rfl rfl rfl rfl rfl
  unfold Outbox.finish
  dsimp only
  split
  · exact hdone
  · split
    · exact hdone
    · have hagain : StoreInv { s with
          flushing := false, flushes := s.flushes.set i .returned, flushAgain := none } :=
        h.of_eq rfl rfl rfl rfl rfl rfl
      exact hagain.flush _

/-- The flush takes the head, drops it if it is old, or is done. -/
theorem StoreInv.turn (i : Nat) (writeOk : Bool) :
    StoreInv (s.turn i writeOk) := by
  unfold Outbox.turn
  split
  · exact h.finish i
  · rename_i entry rest hentries
    have hdrop := h.persist_tail writeOk
    rw [hentries] at hdrop
    split
    · exact hdrop
    · split
      · -- the first entry is handed over: nothing in the queue is older
        refine ⟨h.clock, h.entries, h.file, h.stored, ?_, ?_⟩
        · show (s.handed ++ [entry.id]).Pairwise (· ≤ ·)
          rw [List.pairwise_append]
          refine ⟨h.handed, List.pairwise_singleton _ _, ?_⟩
          intro a ha b hb
          obtain rfl := List.mem_singleton.mp hb
          exact (h.past a ha).2 entry (hentries ▸ List.mem_cons_self)
        · intro id hid
          obtain hid | hid := List.mem_append.mp hid
          · exact h.past id hid
          · obtain rfl := List.mem_singleton.mp hid
            refine ⟨(h.entries.entry entry (hentries ▸ List.mem_cons_self)).1, ?_⟩
            intro e he
            have he : e ∈ s.entries := he
            have hsorted := h.entries.sorted
            rw [hentries] at he hsorted
            obtain rfl | he := List.mem_cons.mp he
            · exact Nat.le_refl _
            · have hlt := (List.pairwise_cons.mp hsorted).1 e.id (List.mem_map_of_mem he)
              exact Nat.le_of_lt hlt
      · exact hdrop

/-- The answer of a send takes the head out, or counts the attempt. -/
theorem StoreInv.settle (i : Nat) (entry : OutboxEntry P)
    (outcome : OutboxSendOutcome) (writeOk : Bool) :
    StoreInv (s.settle i entry outcome writeOk) := by
  have hretry : StoreInv ({ s with entries := Outbox.countAttempt entry.id s.entries }.persist
      writeOk) := by
    apply h.persist (Nat.le_refl _) (h.entries.countAttempt _)
    intro id hid e he
    obtain ⟨e₀, he₀, heq, -⟩ := mem_countAttempt he
    rw [← heq]
    exact (h.past id hid).2 e₀ he₀
  have hremoved := h.persist_tail writeOk
  cases outcome with
  | retryable => exact hretry.finish i
  | threw => exact hretry.finish i
  | ok => exact hremoved.of_eq rfl rfl rfl rfl rfl rfl
  | permanent => exact hremoved.of_eq rfl rfl rfl rfl rfl rfl

theorem StoreInv.restart : StoreInv s.restart := by
  have hload := h.file.map_loadEntry s.now
  refine ⟨h.clock, ?_, h.file, ?_, List.Pairwise.nil, ?_⟩
  · show QueueOk s.nextId ((s.file.getD []).map (Outbox.loadEntry s.now))
    rw [hload]
    exact h.file
  · intro _
    exact hload.symm
  · intro id hid
    cases hid

end

/-! ### One flush at a time -/

theorem FlushInv.of_eq (h : FlushInv s) (hflushing : t.flushing = s.flushing)
    (hflushes : t.flushes = s.flushes) : FlushInv t := by
  unfold FlushInv
  rw [hflushing, hflushes]
  exact h

theorem FlushInv.flush (h : FlushInv s) (reason : String) : FlushInv (s.flush reason) := by
  unfold Outbox.flush
  split
  · exact h
  · split
    · exact h
    · rename_i hflushing _
      unfold FlushInv at h ⊢
      rw [if_neg hflushing] at h
      show (s.flushes ++ [FlushPhase.looping]).countP FlushPhase.active ≤ 1
      rw [List.countP_append]
      have hone : [(FlushPhase.looping : FlushPhase P)].countP FlushPhase.active = 1 := rfl
      omega

theorem FlushInv.set (h : FlushInv s) {phase : FlushPhase P} (phase' : FlushPhase P)
    (hphase : s.flushes[i]? = some phase) (hactive : phase.active = true) :
    s.flushing = true ∧ (s.flushes.set i phase').countP FlushPhase.active ≤
      if phase'.active then 1 else 0 := by
  have hcount := countP_set_add (b := phase') hphase FlushPhase.active
  rw [if_pos hactive] at hcount
  unfold FlushInv at h
  cases hflushing : s.flushing with
  | true =>
    rw [hflushing, if_pos rfl] at h
    exact ⟨rfl, by omega⟩
  | false =>
    rw [hflushing] at h
    have hpos : 0 < s.flushes.countP FlushPhase.active :=
      List.countP_pos_iff.mpr ⟨phase, List.mem_of_getElem? hphase, hactive⟩
    simp only [Bool.false_eq_true, if_false] at h
    omega

theorem FlushInv.finish (h : FlushInv s) {phase : FlushPhase P}
    (hphase : s.flushes[i]? = some phase) (hactive : phase.active = true) :
    FlushInv (s.finish i) := by
  have hdone : FlushInv { s with flushing := false, flushes := s.flushes.set i .returned } :=
    (h.set .returned hphase hactive).2
  unfold Outbox.finish
  dsimp only
  split
  · exact hdone
  · split
    · exact hdone
    · have hagain : FlushInv { s with
          flushing := false, flushes := s.flushes.set i .returned, flushAgain := none } := hdone
      exact hagain.flush _

/-- The flush that is looping is the only one. -/
theorem FlushInv.turn (h : FlushInv s) (hphase : s.flushes[i]? = some .looping) (writeOk : Bool) :
    FlushInv (s.turn i writeOk) := by
  unfold Outbox.turn
  split
  · exact h.finish hphase rfl
  · rename_i entry rest _
    split
    · exact h
    · split
      · obtain ⟨hflushing, hcount⟩ := h.set (.sending entry) hphase rfl
        unfold FlushInv
        rw [hflushing]
        exact hcount
      · exact h

theorem FlushInv.settle (h : FlushInv s) {entry : OutboxEntry P}
    (hphase : s.flushes[i]? = some (.sending entry)) (outcome : OutboxSendOutcome)
    (writeOk : Bool) : FlushInv (s.settle i entry outcome writeOk) := by
  have hremoved : FlushInv
      ({ s with entries := s.entries.tail, flushes := s.flushes.set i .looping }.persist
        writeOk) := by
    obtain ⟨hflushing, hcount⟩ := h.set .looping hphase rfl
    unfold FlushInv Outbox.persist
    rw [hflushing]
    exact hcount
  cases outcome with
  | retryable => exact FlushInv.finish (s := Outbox.persist _ writeOk) h hphase rfl
  | threw => exact FlushInv.finish (s := Outbox.persist _ writeOk) h hphase rfl
  | ok => exact hremoved
  | permanent => exact hremoved

/-! ### Every step -/

structure OutboxInv (s : Outbox P) : Prop where
  store : StoreInv s
  flush : FlushInv s

/-- Each step keeps the queue, the file and the flush in line. -/
theorem OutboxInv.act (h : OutboxInv s) {a : OutboxAction P} (hact : s.act a = .ok t) :
    OutboxInv t := by
  cases a with
  | tick now =>
    simp only [Outbox.act] at hact
    split at hact
    · rename_i hpos
      cases hact
      exact ⟨⟨hpos, h.store.entries, h.store.file, h.store.stored, h.store.handed, h.store.past⟩,
        h.flush⟩
    · cases hact
  | setSenders kinds =>
    cases hact
    exact ⟨h.store.of_eq rfl rfl rfl rfl rfl rfl, h.flush⟩
  | enqueue kind payload writeOk =>
    cases hact
    exact ⟨h.store.enqueue kind payload writeOk, h.flush.of_eq rfl rfl⟩
  | flush reason =>
    cases hact
    exact ⟨h.store.flush reason, h.flush.flush reason⟩
  | turn i writeOk =>
    simp only [Outbox.act] at hact
    split at hact
    · rename_i hphase
      cases hact
      exact ⟨h.store.turn i writeOk, h.flush.turn hphase writeOk⟩
    · cases hact
  | settle i outcome writeOk =>
    simp only [Outbox.act] at hact
    split at hact
    · rename_i entry hphase
      cases hact
      exact ⟨h.store.settle i entry outcome writeOk, h.flush.settle hphase outcome writeOk⟩
    · cases hact
  | restart =>
    cases hact
    exact ⟨h.store.restart, Nat.zero_le _⟩

theorem outboxInv_reachable (h : (outboxSystem P).Reachable s) : OutboxInv s := by
  refine h.invariant ?_ ?_
  · rintro s ⟨hnow, hfile, hsorted, hentry, hlength, hflushing, -, hflushes, hhanded, -⟩
    have hqueue : QueueOk s.nextId s.entries := ⟨hsorted, hentry, hlength⟩
    refine ⟨⟨hnow, hqueue, hfile ▸ hqueue, fun _ => hfile.symm, ?_, ?_⟩, ?_⟩
    · rw [hhanded]
      exact List.Pairwise.nil
    · rw [hhanded]
      intro id hid
      cases hid
    · unfold FlushInv
      rw [hflushes]
      exact Nat.zero_le _
  · intro s a t _ hinv hstep
    exact hinv.act hstep

end Steps

/-! ## What leaves -/

section Leaving

variable {s t : Outbox P} {e : OutboxEntry P}

theorem head_of_not_mem_tail {l : List (OutboxEntry P)} (he : e ∈ l)
    (hgone : e.id ∉ l.tail.map (·.id)) : l.head? = some e := by
  cases l with
  | nil => cases he
  | cons a l =>
    obtain rfl | he := List.mem_cons.mp he
    · rfl
    · exact absurd (List.mem_map_of_mem he) hgone

@[simp] theorem entries_flush (s : Outbox P) (reason : String) :
    (s.flush reason).entries = s.entries := by
  unfold Outbox.flush
  split
  · rfl
  · split <;> rfl

@[simp] theorem entries_finish (s : Outbox P) (i : Nat) : (s.finish i).entries = s.entries := by
  unfold Outbox.finish
  dsimp only
  split
  · rfl
  · split
    · rfl
    · exact entries_flush _ _

theorem entries_enqueue (s : Outbox P) (kind : OutboxKind) (payload : P) (writeOk : Bool) :
    (s.enqueue kind payload writeOk).entries = Outbox.cap (s.entries ++
      [{ id := s.nextId, kind, enqueued_at_ms := s.now, attempts := 0, payload }]) :=
  rfl

variable {writeOk : Bool}

/-- The capacity drops the oldest entries. -/
theorem leaves_of_enqueue (hinv : StoreInv s) {kind : OutboxKind} {payload : P}
    (he : e ∈ s.entries) (hgone : e.id ∉ (s.enqueue kind payload writeOk).entries.map (·.id)) :
    Leaves s e (.enqueue kind payload writeOk) := by
  rw [entries_enqueue] at hgone
  obtain ⟨hfull, heq⟩ | ⟨-, heq⟩ := cap_append hinv.entries
    { id := s.nextId, kind, enqueued_at_ms := s.now, attempts := 0, payload }
  · rw [heq, List.map_append] at hgone
    exact .overflow hfull
      (head_of_not_mem_tail he fun hmem => hgone (List.mem_append_left _ hmem))
  · rw [heq, List.map_append] at hgone
    exact absurd (List.mem_append_left _ (List.mem_map_of_mem he)) hgone

theorem leaves_of_turn {i : Nat} (he : e ∈ s.entries)
    (hgone : e.id ∉ (s.turn i writeOk).entries.map (·.id)) : Leaves s e (.turn i writeOk) := by
  unfold Outbox.turn at hgone
  split at hgone
  · rw [entries_finish] at hgone
    exact absurd (List.mem_map_of_mem he) hgone
  · rename_i entry rest hentries
    have hfirst : e.id ∉ rest.map (·.id) → e = entry := by
      intro hnot
      rw [hentries] at he
      obtain rfl | he := List.mem_cons.mp he
      · rfl
      · exact absurd (List.mem_map_of_mem he) hnot
    split at hgone
    · rename_i hexpired
      obtain rfl := hfirst hgone
      exact .dropped (hentries ▸ rfl) (.inl hexpired)
    · split at hgone
      · exact absurd (List.mem_map_of_mem he) hgone
      · rename_i hsender
        obtain rfl := hfirst hgone
        exact .dropped (hentries ▸ rfl) (.inr hsender)

theorem leaves_of_settle {i : Nat} {entry : OutboxEntry P} {outcome : OutboxSendOutcome}
    (hphase : s.flushes[i]? = some (.sending entry))
    (hfirst : s.SettlesFirst (.settle i outcome writeOk)) (he : e ∈ s.entries)
    (hgone : e.id ∉ (s.settle i entry outcome writeOk).entries.map (·.id)) :
    Leaves s e (.settle i outcome writeOk) := by
  have hretry : e.id ∈ (Outbox.countAttempt entry.id s.entries).map (·.id) := by
    rw [map_id_countAttempt]
    exact List.mem_map_of_mem he
  have hsent : outcome = .ok ∨ outcome = .permanent → e.id ∉ s.entries.tail.map (·.id) →
      Leaves s e (.settle i outcome writeOk) := by
    intro houtcome hnot
    have hhead := hfirst houtcome entry (by rw [hphase]; rfl)
    rw [head_of_not_mem_tail he hnot] at hhead
    exact .sent hphase (Option.some.inj hhead).symm houtcome
  cases outcome with
  | ok => exact hsent (.inl rfl) hgone
  | permanent => exact hsent (.inr rfl) hgone
  | retryable =>
    simp only [Outbox.settle, entries_finish] at hgone
    exact absurd hretry hgone
  | threw =>
    simp only [Outbox.settle, entries_finish] at hgone
    exact absurd hretry hgone

/-- An entry leaves in one of these ways only. -/
theorem leaves_of_act {a : OutboxAction P} (hinv : StoreInv s) (hfirst : s.SettlesFirst a)
    (hact : s.act a = .ok t) (he : e ∈ s.entries) (hgone : e.id ∉ t.entries.map (·.id)) :
    Leaves s e a := by
  cases a with
  | tick now =>
    simp only [Outbox.act] at hact
    split at hact
    · cases hact
      exact absurd (List.mem_map_of_mem he) hgone
    · cases hact
  | setSenders kinds =>
    cases hact
    exact absurd (List.mem_map_of_mem he) hgone
  | enqueue kind payload writeOk =>
    cases hact
    exact leaves_of_enqueue hinv he hgone
  | flush reason =>
    cases hact
    rw [entries_flush] at hgone
    exact absurd (List.mem_map_of_mem he) hgone
  | turn i writeOk =>
    simp only [Outbox.act] at hact
    split at hact
    · cases hact
      exact leaves_of_turn he hgone
    · cases hact
  | settle i outcome writeOk =>
    simp only [Outbox.act] at hact
    split at hact
    · rename_i entry hphase
      cases hact
      exact leaves_of_settle hphase hfirst he hgone
    · cases hact
  | restart =>
    cases hact
    cases hwritten : s.written with
    | false => exact .unwritten hwritten
    | true =>
      have hgone : e.id ∉ ((s.file.getD []).map (Outbox.loadEntry s.now)).map (·.id) := hgone
      rw [hinv.file.map_loadEntry, hinv.stored hwritten] at hgone
      exact absurd (List.mem_map_of_mem he) hgone

end Leaving

/-! ## Main result -/

/-- In every state of a run in which an entry is still first in the queue whenever its send
    returns `ok` or `permanent`:
    a step takes an entry out of the queue only for one of the reasons of `Leaves`;
    the entries were handed to senders in the order they were enqueued, and nothing older than a
    handed entry is waiting;
    one send is in flight at most;
    the file holds the queue, unless its last write failed. -/
theorem outbox_delivery {s : Outbox P} (h : (firstRuns P).Reachable s) :
    (∀ a t, (firstRuns P).step s a t → ∀ e ∈ s.entries, e.id ∉ t.entries.map (·.id) →
      Leaves s e a) ∧
    s.handed.Pairwise (· ≤ ·) ∧ (∀ id ∈ s.handed, ∀ e ∈ s.entries, id ≤ e.id) ∧
    s.flushes.countP (fun phase => phase.entry?.isSome) ≤ 1 ∧
    (s.written = true → s.file.getD [] = s.entries) := by
  have hinv := outboxInv_reachable h.of_restrict
  refine ⟨?_, hinv.store.handed, fun id hid => (hinv.store.past id hid).2, ?_, hinv.store.stored⟩
  · rintro a t ⟨hact, hfirst⟩ e he hgone
    exact leaves_of_act hinv.store hfirst hact he hgone
  · have hactive : s.flushes.countP (fun phase => phase.entry?.isSome) ≤
        s.flushes.countP FlushPhase.active := by
      apply List.countP_mono_left
      intro phase _ hphase
      cases phase with
      | sending entry => rfl
      | looping => rfl
      | returned => cases hphase
    have hone := hinv.flush
    unfold FlushInv at hone
    split at hone <;> omega

/-- An outbox without entries or a file. -/
def emptyOutbox : Outbox Unit where
  entries := []
  senders := []
  flushing := false
  flushAgain := none
  flushes := []
  file := none
  now := 1
  nextId := 0
  handed := []
  written := true

/-- Two messages are buffered and replayed. -/
theorem outbox_delivery_twoSent :
    ∃ s, (firstRuns Unit).Reachable s ∧ s.handed = [0, 1] ∧ s.handed.Pairwise (· ≤ ·) ∧
      (s.written = true → s.file.getD [] = s.entries) := by
  have hinit : (outboxSystem Unit).init emptyOutbox :=
    ⟨by decide, rfl, .nil, nofun, Nat.zero_le _, rfl, rfl, rfl, rfl, rfl⟩
  obtain ⟨s, hreach, hs⟩ := Transition.exists_reachable_guarded (M := firstRuns Unit)
    (C := Outbox.SettlesFirst) (fun _ _ _ hok h => ⟨h, hok⟩) hinit
    [.setSenders [.chat_message], .enqueue .chat_message () true, .enqueue .chat_message () true,
      .flush "reconnect", .turn 0 true, .settle 0 .ok true, .turn 0 true]
    (fun s => s.handed = [0, 1]) (by decide +kernel)
  have hdelivery := outbox_delivery hreach
  exact ⟨s, hreach, of_decide_eq_true hs, hdelivery.2.1, hdelivery.2.2.2.2⟩

/-- As many messages as the outbox holds. -/
def fullQueue : List (OutboxEntry Unit) :=
  (List.range outboxMaxEntries).map fun n =>
    { id := n, kind := .chat_message, enqueued_at_ms := 1, attempts := 0, payload := () }

theorem fullQueue_ok : QueueOk outboxMaxEntries fullQueue := by
  have hids : fullQueue.map (·.id) = List.range outboxMaxEntries := by
    unfold fullQueue
    rw [List.map_map]
    exact List.map_id _
  refine ⟨?_, ?_, ?_⟩
  · rw [hids]
    exact List.pairwise_lt_range
  · intro e he
    obtain ⟨n, hn, rfl⟩ := List.mem_map.mp he
    exact ⟨List.mem_range.mp hn, Int.zero_lt_one⟩
  · unfold fullQueue
    rw [List.length_map, List.length_range]

attribute [local irreducible] fullQueue

def fullOutbox : Outbox Unit :=
  { emptyOutbox with entries := fullQueue, file := some fullQueue, nextId := outboxMaxEntries }

theorem fullOutbox_init : (outboxSystem Unit).init fullOutbox :=
  ⟨Int.zero_lt_one, rfl, fullQueue_ok.sorted, fullQueue_ok.entry, fullQueue_ok.length, rfl, rfl,
    rfl, rfl, rfl⟩

/-- At the cap: entry 0 is being sent, a new message drops it, and the return of the send removes
    entry 1, which no sender was given. -/
theorem not_always_delivered :
    ¬ ∀ s, (outboxSystem Unit).Reachable s → ∀ a t, (outboxSystem Unit).step s a t →
      ∀ e ∈ s.entries, e.id ∉ t.entries.map (·.id) → Leaves s e a := by
  intro hall
  have hrun : ∀ s a t, Outbox.act s a = .ok t → (outboxSystem Unit).step s a t :=
    fun _ _ _ h => h
  obtain ⟨s, hpath, hs⟩ := Transition.exists_path_of_run hrun fullOutbox
    [.setSenders [.chat_message], .flush "reconnect", .turn 0 true,
      .enqueue .chat_message () true]
    (fun s => s.entries.head?.map (·.id) = some 1 ∧
      s.flushes = [.sending ⟨0, .chat_message, 1, 0, ()⟩]) (by decide +kernel)
  have hreach : (outboxSystem Unit).Reachable s := .path (.init fullOutbox_init) hpath
  obtain ⟨hhead, hflushes⟩ := of_decide_eq_true hs
  obtain ⟨e, hfirst, hid⟩ := Option.map_eq_some_iff.mp hhead
  obtain ⟨rest, hentries⟩ : ∃ rest, s.entries = e :: rest := by
    cases hl : s.entries with
    | nil => rw [hl] at hfirst; cases hfirst
    | cons a rest => rw [hl] at hfirst; exact ⟨rest, by rw [Option.some.inj hfirst]⟩
  have hphase : s.flushes[0]? = some (.sending ⟨0, .chat_message, 1, 0, ()⟩) := by
    rw [hflushes]
    rfl
  have hstep : s.act (.settle 0 .ok true) =
      .ok (s.settle 0 ⟨0, .chat_message, 1, 0, ()⟩ .ok true) := by
    simp only [Outbox.act, hphase]
  have hgone : e.id ∉ s.entries.tail.map (·.id) := by
    have hsorted := (outboxInv_reachable hreach).store.entries.sorted
    rw [hentries] at hsorted ⊢
    intro hmem
    exact Nat.lt_irrefl _ ((List.pairwise_cons.mp hsorted).1 _ hmem)
  have hleaves := hall s hreach _ _ hstep e (hentries ▸ List.mem_cons_self) hgone
  cases hleaves with
  | sent hsending heq _ =>
    rw [hphase] at hsending
    cases hsending
    rw [hid] at heq
    cases heq

end WorkflowBoard.AgentManager
