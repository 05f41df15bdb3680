import WorkflowBoard.ForStd.List
import WorkflowBoard.Native.SessionDefer

/-!
# No deferred intent is lost

An intent that was accepted while no earlier replay of its key was outstanding leaves the
store only with a cancel, a clear or the acknowledgement of a replay that started after the
acceptance, and a timer at the end of its window hands it over, unless a replay that started
after the acceptance is running or has thrown (`intent_kept_until_replayed`). A thrown replay
keeps its key: the intent waits for the next process (`thrown_replay_not_handed`).

The proof is about the numbers of acceptances and replays. A key is put in flight, and a
replay started, under the current number; an acceptance that finds the key free is numbered
before every replay that comes later (`Ahead`).
-/

namespace WorkflowBoard.AgentManager

/-! ## Intents as the claim sees them -/

/-- An intent with the agent of its window. -/
structure IntentView where
  agentId : String
  key : String
  ticketId : String
  accepted : List (Nat × Bool)

def SessionDeferIntent.view (agentId : String) (it : SessionDeferIntent) : IntentView :=
  ⟨agentId, it.key, it.ticketId, it.accepted⟩

def viewOf (windows : List AgentDeferRecord) : List IntentView :=
  windows.flatMap fun window => window.intents.map (·.view window.agentId)

def DeferStore.view (s : DeferStore) : List IntentView := viewOf s.byAgent

/-- The store has the intent, and it counts the acceptance `p`. -/
def DeferStore.Holds (s : DeferStore) (v : IntentView) (p : Nat × Bool) : Prop :=
  ∃ v' ∈ s.view, v'.agentId = v.agentId ∧ v'.key = v.key ∧ p ∈ v'.accepted

/-- Why a step may take out an intent accepted under the number `n`. -/
inductive Removes (s : DeferStore) (v : IntentView) (n : Nat) : DeferAction → Prop where
  | cancelled {writeOk : Bool} : Removes s v n (.cancelByTicket v.ticketId writeOk)
  | cleared {writeOk : Bool} : Removes s v n (.clear v.agentId writeOk)
  | acknowledged {i : Nat} {r : Replay} {writeOk : Bool} : s.replays[i]? = some r →
      r.key = v.key → n < r.startedAt → Removes s v n (.resolve i writeOk)
  | unwritten : s.written = false → Removes s v n .restart

section View

variable {windows : List AgentDeferRecord} {v : IntentView}

theorem mem_viewOf : v ∈ viewOf windows ↔
    ∃ window ∈ windows, ∃ it ∈ window.intents, it.view window.agentId = v := by
  simp [viewOf]

/-- Windows that change neither their agent nor what is seen of their intents. -/
theorem viewOf_map {f : AgentDeferRecord → AgentDeferRecord}
    (hagent : ∀ window, (f window).agentId = window.agentId)
    (hintents : ∀ window, (f window).intents.map (·.view window.agentId) =
      window.intents.map (·.view window.agentId)) : viewOf (windows.map f) = viewOf windows := by
  unfold viewOf
  rw [List.flatMap_map]
  apply List.flatMap_congr
  intro window _
  show (f window).intents.map (·.view (f window).agentId) = _
  rw [hagent, hintents]

theorem map_view_map {f : SessionDeferIntent → SessionDeferIntent} {agentId : String}
    (h : ∀ it, (f it).view agentId = it.view agentId) (intents : List SessionDeferIntent) :
    (intents.map f).map (·.view agentId) = intents.map (·.view agentId) := by
  rw [List.map_map]
  apply List.map_congr_left
  intro it _
  exact h it

end View

/-! ## The drain -/

section Drain

open DeferStore

/-- The keys and numbers of replays that start at `n`. -/
def starts (n : Nat) : List SessionDeferIntent → List (String × Nat)
  | [] => []
  | it :: rest => (it.key, n) :: starts (n + 1) rest

theorem starts_append (n : Nat) (l l' : List SessionDeferIntent) :
    starts n (l ++ l') = starts n l ++ starts (n + l.length) l' := by
  induction l generalizing n with
  | nil => simp [starts]
  | cons it l ih =>
    simp only [List.cons_append, starts, List.length_cons]
    rw [ih, Nat.add_assoc, Nat.add_comm 1]

/-- What a part of the drain adds: some replays, their keys with their numbers. -/
def Extends (d d' : Drain) : Prop :=
  ∃ new, d'.toReplay = d.toReplay ++ new ∧
    d'.inFlightReplay = d.inFlightReplay ++ starts d.ticks new ∧
    d'.ticks = d.ticks + new.length

theorem Extends.refl (d : Drain) : Extends d d := ⟨[], by simp, by simp [starts], rfl⟩

theorem Extends.trans {d₁ d₂ d₃ : Drain} (h₁ : Extends d₁ d₂) (h₂ : Extends d₂ d₃) :
    Extends d₁ d₃ := by
  obtain ⟨new₁, hr₁, hf₁, ht₁⟩ := h₁
  obtain ⟨new₂, hr₂, hf₂, ht₂⟩ := h₂
  refine ⟨new₁ ++ new₂, ?_, ?_, ?_⟩
  · rw [hr₂, hr₁, List.append_assoc]
  · rw [hf₂, hf₁, ht₁, starts_append, List.append_assoc]
  · rw [ht₂, ht₁, List.length_append, Nat.add_assoc]

/-- The key is in flight. -/
def HasKey (d : Drain) (key : String) : Prop := ∃ q ∈ d.inFlightReplay, q.1 = key

theorem Extends.hasKey {d d' : Drain} {key : String} (h : Extends d d') (hkey : HasKey d key) :
    HasKey d' key := by
  obtain ⟨new, -, hf, -⟩ := h
  obtain ⟨q, hq, hk⟩ := hkey
  exact ⟨q, hf ▸ List.mem_append_left _ hq, hk⟩

theorem drainIntent_spec (d : Drain) (it : SessionDeferIntent) (agentId : String) :
    Extends d (drainIntent d it).1 ∧ HasKey (drainIntent d it).1 it.key ∧
      (drainIntent d it).2.view agentId = it.view agentId := by
  unfold drainIntent
  split
  · rename_i hany
    obtain ⟨q, hq, hk⟩ := List.any_eq_true.mp hany
    exact ⟨.refl d, ⟨q, hq, of_decide_eq_true hk⟩, rfl⟩
  · refine ⟨⟨[{ it with status := .dispatching }], rfl, rfl, rfl⟩, ?_, rfl⟩
    exact ⟨(it.key, d.ticks), List.mem_append_right _ List.mem_cons_self, rfl⟩

theorem drainIntents_spec (d : Drain) (its : List SessionDeferIntent) (agentId : String) :
    Extends d (drainIntents d its).1 ∧ (∀ it ∈ its, HasKey (drainIntents d its).1 it.key) ∧
      (drainIntents d its).2.map (·.view agentId) = its.map (·.view agentId) := by
  induction its generalizing d with
  | nil => exact ⟨.refl d, nofun, rfl⟩
  | cons it rest ih =>
    obtain ⟨hext, hhas, hview⟩ := drainIntent_spec d it agentId
    obtain ⟨hext', hhas', hview'⟩ := ih (drainIntent d it).1
    refine ⟨hext.trans hext', ?_, ?_⟩
    · intro it' hit'
      obtain rfl | hit' := List.mem_cons.mp hit'
      · exact hext'.hasKey hhas
      · exact hhas' it' hit'
    · simp only [drainIntents, List.map_cons]
      rw [hview, hview']

theorem drainRecord_spec (now : Int) (d : Drain) (window : AgentDeferRecord) :
    Extends d (drainRecord now d window).1 ∧
      (window.deferUntilMs ≤ now → ∀ it ∈ window.intents,
        HasKey (drainRecord now d window).1 it.key) ∧
      (drainRecord now d window).2.agentId = window.agentId ∧
      (drainRecord now d window).2.intents.map (·.view window.agentId) =
        window.intents.map (·.view window.agentId) := by
  unfold drainRecord
  split
  · rename_i hlive
    exact ⟨.refl d, fun hend => absurd hlive (Int.not_lt.mpr hend), rfl, rfl⟩
  · obtain ⟨hext, hhas, hview⟩ := drainIntents_spec d window.intents window.agentId
    exact ⟨hext, fun _ => hhas, rfl, hview⟩

/-- The drain puts in flight what is due, and leaves the intents to be seen. -/
theorem drainRecords_spec (now : Int) (d : Drain) (windows : List AgentDeferRecord) :
    Extends d (drainRecords now d windows).1 ∧
      (∀ window ∈ windows, window.deferUntilMs ≤ now → ∀ it ∈ window.intents,
        HasKey (drainRecords now d windows).1 it.key) ∧
      viewOf (drainRecords now d windows).2 = viewOf windows ∧
      (drainRecords now d windows).2.map (·.agentId) = windows.map (·.agentId) := by
  induction windows generalizing d with
  | nil => exact ⟨.refl d, nofun, rfl, rfl⟩
  | cons window rest ih =>
    obtain ⟨hext, hhas, hagent, hview⟩ := drainRecord_spec now d window
    obtain ⟨hext', hhas', hview', hagent'⟩ := ih (drainRecord now d window).1
    refine ⟨hext.trans hext', ?_, ?_, ?_⟩
    · intro window' hwindow' hend it hit
      obtain rfl | hwindow' := List.mem_cons.mp hwindow'
      · exact hext'.hasKey (hhas hend it hit)
      · exact hhas' window' hwindow' hend it hit
    · simp only [drainRecords, viewOf, List.flatMap_cons]
      rw [hagent, hview]
      exact congrArg _ hview'
    · simp only [drainRecords, List.map_cons]
      rw [hagent, hagent']

end Drain

/-! ## The replays of a drain -/

section Start

open DeferStore

variable {s : DeferStore}

theorem startReplay_view (s : DeferStore) (it : SessionDeferIntent) (n : Nat) :
    (s.startReplay it n).view = s.view := by
  apply viewOf_map
  · intro window
    rfl
  · intro window
    apply map_view_map
    intro i
    split <;> (split <;> rfl)

/-- What starting replays leaves alone. -/
structure SameStore (s t : DeferStore) : Prop where
  view : t.view = s.view
  agents : t.byAgent.map (·.agentId) = s.byAgent.map (·.agentId)
  inFlight : t.inFlightReplay = s.inFlightReplay
  file : t.file = s.file
  ticks : t.ticks = s.ticks
  written : t.written = s.written

theorem SameStore.refl (s : DeferStore) : SameStore s s := ⟨rfl, rfl, rfl, rfl, rfl, rfl⟩

theorem SameStore.trans {s t u : DeferStore} (h₁ : SameStore s t) (h₂ : SameStore t u) :
    SameStore s u :=
  ⟨h₂.view.trans h₁.view, h₂.agents.trans h₁.agents, h₂.inFlight.trans h₁.inFlight,
    h₂.file.trans h₁.file, h₂.ticks.trans h₁.ticks, h₂.written.trans h₁.written⟩

theorem startReplay_same (s : DeferStore) (it : SessionDeferIntent) (n : Nat) :
    SameStore s (s.startReplay it n) := by
  refine ⟨startReplay_view s it n, ?_, rfl, rfl, rfl, rfl⟩
  unfold startReplay
  rw [List.map_map]
  rfl

/-- To start replays leaves the intents, the keys and the file. -/
theorem startReplays_same (s : DeferStore) (n : Nat) (its : List SessionDeferIntent) :
    SameStore s (s.startReplays n its) := by
  induction its generalizing s n with
  | nil => exact .refl s
  | cons it rest ih => exact (startReplay_same s it n).trans (ih _ _)

theorem replays_startReplay (s : DeferStore) (it : SessionDeferIntent) (n : Nat) :
    (s.startReplay it n).replays = s.replays ++ [⟨it.key, it.agentId, n, .running⟩] :=
  rfl

variable {s : DeferStore}

theorem mem_startReplays_of_mem {r : Replay} (its : List SessionDeferIntent)
    {n : Nat} (h : r ∈ s.replays) : r ∈ (s.startReplays n its).replays := by
  induction its generalizing s n with
  | nil => exact h
  | cons it rest ih => exact ih (replays_startReplay s it n ▸ List.mem_append_left _ h)

/-- What a firing starts is numbered from its own number on. -/
theorem of_mem_startReplays {r : Replay} (its : List SessionDeferIntent) {n : Nat}
    (h : r ∈ (s.startReplays n its).replays) : r ∈ s.replays ∨ n ≤ r.startedAt := by
  induction its generalizing s n with
  | nil => exact .inl h
  | cons it rest ih =>
    obtain hmem | hle := ih h
    · rw [replays_startReplay] at hmem
      obtain hmem | hmem := List.mem_append.mp hmem
      · exact .inl hmem
      · obtain rfl := List.mem_singleton.mp hmem
        exact .inr (Nat.le_refl n)
    · exact .inr (Nat.le_of_succ_le hle)

/-- Every key that was put in flight has its replay. -/
theorem exists_started {q : String × Nat} (its : List SessionDeferIntent) {n : Nat}
    (h : q ∈ starts n its) : n ≤ q.2 ∧ ∃ r ∈ (s.startReplays n its).replays,
      r.key = q.1 ∧ r.startedAt = q.2 ∧ r.phase = .running := by
  induction its generalizing s n with
  | nil => cases h
  | cons it rest ih =>
    obtain rfl | h := List.mem_cons.mp h
    · refine ⟨Nat.le_refl n, ⟨it.key, it.agentId, n, .running⟩, ?_, rfl, rfl, rfl⟩
      apply mem_startReplays_of_mem rest (s := s.startReplay it n)
      rw [replays_startReplay]
      exact List.mem_append_right _ List.mem_cons_self
    · obtain ⟨hle, hr⟩ := ih (s := s.startReplay it n) h
      exact ⟨Nat.le_of_succ_le hle, hr⟩

end Start

/-! ## The invariant -/

/-- An acceptance is numbered in the past; one that found its key free is numbered before every
    replay that holds the key or is running. -/
def AcceptedBefore (s : DeferStore) (key : String) (p : Nat × Bool) : Prop :=
  p.1 < s.ticks ∧ (p.2 = true → (∀ q ∈ s.inFlightReplay, q.1 = key → p.1 < q.2) ∧
    ∀ r ∈ s.replays, r.phase = .running → r.key = key → p.1 < r.startedAt)

structure DeferInv (s : DeferStore) : Prop where
  named : ∀ window ∈ s.byAgent, window.agentId ≠ ""
  accepted : ∀ v ∈ s.view, ∀ p ∈ v.accepted, AcceptedBefore s v.key p
  fileAccepted : ∀ v ∈ viewOf (s.file.getD []), ∀ p ∈ v.accepted, p.1 < s.ticks
  fileNamed : ∀ window ∈ s.file.getD [], window.agentId ≠ ""
  stored : s.written = true → viewOf (s.file.getD []) = s.view
  held : ∀ q ∈ s.inFlightReplay, ∃ r ∈ s.replays, r.key = q.1 ∧ r.startedAt = q.2 ∧
    r.phase ≠ .acked

/-- Later keys in flight and later replays have later numbers. -/
structure Ahead (s t : DeferStore) : Prop where
  ticks : s.ticks ≤ t.ticks
  inFlight : ∀ q ∈ t.inFlightReplay, q ∈ s.inFlightReplay ∨ s.ticks ≤ q.2
  replays : ∀ r ∈ t.replays, r.phase = .running → r ∈ s.replays ∨ s.ticks ≤ r.startedAt

section Inv

variable {s t : DeferStore}

theorem Ahead.acceptedBefore (h : Ahead s t) {key : String} {p : Nat × Bool}
    (hp : AcceptedBefore s key p) : AcceptedBefore t key p := by
  obtain ⟨hlt, hclean⟩ := hp
  refine ⟨Nat.lt_of_lt_of_le hlt h.ticks, fun hp => ⟨?_, ?_⟩⟩
  · intro q hq hkey
    obtain hq | hle := h.inFlight q hq
    · exact (hclean hp).1 q hq hkey
    · exact Nat.lt_of_lt_of_le hlt hle
  · intro r hr hrunning hkey
    obtain hr | hle := h.replays r hr hrunning
    · exact (hclean hp).2 r hr hrunning hkey
    · exact Nat.lt_of_lt_of_le hlt hle

/-- The file after a step: it has what the store has, or it is the old one. -/
def FileStep (s t : DeferStore) : Prop :=
  (viewOf (t.file.getD []) = t.view ∧ ∀ window ∈ t.file.getD [], window.agentId ≠ "") ∨
    (t.file = s.file ∧ (t.written = true → s.written = true ∧ t.view = s.view))

theorem FileStep.same (hfile : t.file = s.file) (hwritten : t.written = s.written)
    (hview : t.view = s.view) : FileStep s t :=
  .inr ⟨hfile, fun h => ⟨hwritten ▸ h, hview⟩⟩

theorem FileStep.persisted (writeOk : Bool)
    (hfile : t.file = if writeOk then some t.byAgent else s.file) (hwritten : t.written = writeOk)
    (hnamed : ∀ window ∈ t.byAgent, window.agentId ≠ "") : FileStep s t := by
  cases writeOk with
  | true =>
    refine .inl ⟨?_, ?_⟩
    · rw [hfile]
      rfl
    · rw [hfile]
      exact hnamed
  | false =>
    refine .inr ⟨hfile, ?_⟩
    intro h
    rw [hwritten] at h
    cases h

/-- Every key in flight belongs to a replay that is running or has thrown. -/
def KeysHeld (s : DeferStore) : Prop :=
  ∀ q ∈ s.inFlightReplay, ∃ r ∈ s.replays, r.key = q.1 ∧ r.startedAt = q.2 ∧ r.phase ≠ .acked

/-- What a step has to show: it adds no acceptance that a replay precedes. -/
theorem DeferInv.step (hinv : DeferInv s) (hticks : s.ticks ≤ t.ticks)
    (hnamed : ∀ window ∈ t.byAgent, window.agentId ≠ "")
    (hview : ∀ v ∈ t.view, ∀ p ∈ v.accepted, AcceptedBefore t v.key p)
    (hfile : FileStep s t) (hheld : KeysHeld t) : DeferInv t := by
  refine ⟨hnamed, hview, ?_, ?_, ?_, hheld⟩
  · obtain ⟨hsame, -⟩ | ⟨hfile, -⟩ := hfile
    · rw [hsame]
      intro v hv p hp
      exact (hview v hv p hp).1
    · rw [hfile]
      intro v hv p hp
      exact Nat.lt_of_lt_of_le (hinv.fileAccepted v hv p hp) hticks
  · obtain ⟨-, hfileNamed⟩ | ⟨hfile, -⟩ := hfile
    · exact hfileNamed
    · rw [hfile]
      exact hinv.fileNamed
  · intro hwritten
    obtain ⟨hsame, -⟩ | ⟨hfile, hsame⟩ := hfile
    · exact hsame
    · obtain ⟨hold, hviewEq⟩ := hsame hwritten
      rw [hfile, hviewEq]
      exact hinv.stored hold

/-- A step that only forgets intents, keys and running replays. -/
theorem DeferInv.shrink (hinv : DeferInv s) (hticks : t.ticks = s.ticks)
    (hnamed : ∀ window ∈ t.byAgent, window.agentId ≠ "") (hview : ∀ v ∈ t.view, v ∈ s.view)
    (hkeys : ∀ q ∈ t.inFlightReplay, q ∈ s.inFlightReplay)
    (hreplays : ∀ r ∈ t.replays, r.phase = .running → r ∈ s.replays)
    (hfile : FileStep s t) (hheld : KeysHeld t) : DeferInv t := by
  have hahead : Ahead s t :=
    ⟨Nat.le_of_eq hticks.symm, fun q hq => .inl (hkeys q hq), fun r hr h => .inl (hreplays r hr h)⟩
  apply hinv.step (Nat.le_of_eq hticks.symm) hnamed _ hfile hheld
  intro v hv p hp
  exact hahead.acceptedBefore (hinv.accepted v (hview v hv) p hp)

/-- A step that leaves intents, keys and replays as they are. -/
theorem DeferInv.quiet (hinv : DeferInv s) (hticks : t.ticks = s.ticks)
    (hnamed : ∀ window ∈ t.byAgent, window.agentId ≠ "") (hview : t.view = s.view)
    (hkeys : t.inFlightReplay = s.inFlightReplay) (hreplays : t.replays = s.replays)
    (hfile : FileStep s t) : DeferInv t := by
  apply hinv.shrink hticks hnamed (fun v hv => hview ▸ hv) (fun q hq => hkeys ▸ hq)
    (fun r hr _ => hreplays ▸ hr) hfile
  unfold KeysHeld
  rw [hkeys, hreplays]
  exact hinv.held

/-! ## Each method -/

variable {f : AgentDeferRecord → AgentDeferRecord} {kind : SessionDeferIntentKind} {v : IntentView}

theorem view_modifyRecord (s : DeferStore) (agentId : String)
    (hagent : ∀ w, (f w).agentId = w.agentId)
    (hintents : ∀ w, (f w).intents = w.intents) : (s.modifyRecord agentId f).view = s.view := by
  apply viewOf_map
  · intro w
    split
    · exact hagent w
    · rfl
  · intro w
    split
    · rw [hintents]
    · rfl

theorem named_map {windows : List AgentDeferRecord}
    (hnamed : ∀ window ∈ windows, window.agentId ≠ "") (hagent : ∀ w, (f w).agentId = w.agentId) :
    ∀ window ∈ windows.map f, window.agentId ≠ "" := by
  intro window hwindow
  obtain ⟨w, hw, rfl⟩ := List.mem_map.mp hwindow
  rw [hagent]
  exact hnamed w hw

theorem named_modifyRecord (agentId : String)
    (hnamed : ∀ window ∈ s.byAgent, window.agentId ≠ "") (hagent : ∀ w, (f w).agentId = w.agentId) :
    ∀ window ∈ (s.modifyRecord agentId f).byAgent, window.agentId ≠ "" := by
  apply named_map hnamed
  intro w
  split
  · exact hagent w
  · rfl

theorem DeferInv.recordSessionLimit (hinv : DeferInv s) (agentId : String) (deferUntilMs : Int)
    (nowMs : Option Int) (writeOk : Bool) :
    DeferInv (s.recordSessionLimit agentId deferUntilMs nowMs writeOk) ∧
      (s.recordSessionLimit agentId deferUntilMs nowMs writeOk).view = s.view := by
  unfold DeferStore.recordSessionLimit
  split
  · exact ⟨hinv, rfl⟩
  · rename_i hskip
    split
    · split
      · have hview := view_modifyRecord s agentId
          (f := fun window => { window with deferUntilMs }) (fun _ => rfl) (fun _ => rfl)
        have hnamed := named_modifyRecord agentId
          (f := fun window => { window with deferUntilMs }) hinv.named fun _ => rfl
        exact ⟨hinv.quiet rfl hnamed hview rfl rfl (.persisted writeOk rfl rfl hnamed), hview⟩
      · exact ⟨hinv, rfl⟩
    · have hview : viewOf (s.byAgent ++ [⟨agentId, deferUntilMs, []⟩]) = s.view := by
        unfold viewOf
        rw [List.flatMap_append]
        exact List.append_nil _
      have hnamed : ∀ window ∈ s.byAgent ++ [⟨agentId, deferUntilMs, []⟩],
          window.agentId ≠ "" := by
        intro window hwindow
        obtain hwindow | hwindow := List.mem_append.mp hwindow
        · exact hinv.named window hwindow
        · obtain rfl := List.mem_singleton.mp hwindow
          exact fun hempty => hskip (.inl hempty)
      exact ⟨hinv.quiet rfl hnamed hview rfl rfl (.persisted writeOk rfl rfl hnamed), hview⟩

/-! ### `addPendingIntent` -/

section Add

variable {m : InflightDispatchMeta} {raw : String} {kind : SessionDeferIntentKind}
  {acceptance : Nat × Bool} {window : AgentDeferRecord}

theorem add_agentId : (window.add m raw kind acceptance).agentId = window.agentId := by
  unfold AgentDeferRecord.add
  dsimp only
  split <;> rfl

theorem coalesce_fields (it : SessionDeferIntent) :
    (coalesce it raw kind).key = it.key ∧ (coalesce it raw kind).ticketId = it.ticketId := by
  unfold coalesce
  split <;> exact ⟨rfl, rfl⟩

/-- An intent of the window stays, with its acceptances. -/
theorem exists_mem_add (m : InflightDispatchMeta) (raw : String) (kind : SessionDeferIntentKind)
    (acceptance : Nat × Bool) {it : SessionDeferIntent} (hit : it ∈ window.intents) :
    ∃ it' ∈ (window.add m raw kind acceptance).intents, it'.key = it.key ∧
      ∀ p ∈ it.accepted, p ∈ it'.accepted := by
  unfold AgentDeferRecord.add
  dsimp only
  split
  · refine ⟨_, List.mem_map_of_mem hit, ?_⟩
    split
    · exact ⟨(coalesce_fields it).1, fun p hp => List.mem_append_left _ hp⟩
    · exact ⟨rfl, fun p hp => hp⟩
  · exact ⟨it, List.mem_append_left _ hit, rfl, fun p hp => hp⟩

/-- An intent of the window afterwards has old acceptances, and the new one if it has the key. -/
theorem of_mem_add {it' : SessionDeferIntent}
    (hit : it' ∈ (window.add m raw kind acceptance).intents) :
    ∀ p ∈ it'.accepted, (∃ it ∈ window.intents, it.key = it'.key ∧ p ∈ it.accepted) ∨
      (it'.key = m.key ∧ p = acceptance) := by
  unfold AgentDeferRecord.add at hit
  dsimp only at hit
  split at hit
  · obtain ⟨it, hit₀, rfl⟩ := List.mem_map.mp hit
    split
    · rename_i hkey
      intro p hp
      obtain hp | hp := List.mem_append.mp hp
      · exact .inl ⟨it, hit₀, (coalesce_fields it).1.symm, hp⟩
      · exact .inr ⟨(coalesce_fields it).1.trans hkey, List.mem_singleton.mp hp⟩
    · intro p hp
      exact .inl ⟨it, hit₀, rfl, hp⟩
  · obtain hit | hit := List.mem_append.mp hit
    · intro p hp
      exact .inl ⟨it', hit, rfl, hp⟩
    · obtain rfl := List.mem_singleton.mp hit
      intro p hp
      exact .inr ⟨rfl, List.mem_singleton.mp hp⟩

end Add

/-- A key that is not outstanding has no entry and no running replay. -/
theorem not_outstanding {key : String} (h : s.outstanding key = false) :
    (∀ q ∈ s.inFlightReplay, q.1 ≠ key) ∧
      ∀ r ∈ s.replays, r.phase = .running → r.key ≠ key := by
  obtain ⟨hkeys, hreplays⟩ := Bool.or_eq_false_iff.mp h
  constructor
  · intro q hq hkey
    exact absurd (decide_eq_true hkey) (List.any_eq_false.mp hkeys q hq)
  · intro r hr hrunning hkey
    exact absurd (decide_eq_true ⟨hkey, hrunning⟩) (List.any_eq_false.mp hreplays r hr)

/-- What is seen after an intent was added to the windows of an agent. -/
theorem of_mem_view_add {agentId : String} {m : InflightDispatchMeta} {raw : String}
    {acceptance : Nat × Bool}
    (hv : v ∈ (s.modifyRecord agentId (·.add m raw kind acceptance)).view) :
    ∀ p ∈ v.accepted, (∃ v₀ ∈ s.view, v₀.key = v.key ∧ p ∈ v₀.accepted) ∨
      (v.key = m.key ∧ p = acceptance) := by
  obtain ⟨window', hwindow', it', hit', rfl⟩ := mem_viewOf.mp hv
  obtain ⟨window, hwindow, rfl⟩ := List.mem_map.mp hwindow'
  split at hit'
  · intro p hp
    obtain ⟨it, hit, hkey, hp⟩ | hnew := of_mem_add hit' p hp
    · exact .inl ⟨it.view window.agentId, mem_viewOf.mpr ⟨window, hwindow, it, hit, rfl⟩, hkey, hp⟩
    · exact .inr hnew
  · intro p hp
    exact .inl ⟨it'.view window.agentId, mem_viewOf.mpr ⟨window, hwindow, it', hit', rfl⟩, rfl, hp⟩

theorem holds_add {agentId : String} {m : InflightDispatchMeta} {raw : String}
    {acceptance : Nat × Bool} (hv : v ∈ s.view)
    {p : Nat × Bool} (hp : p ∈ v.accepted) :
    (s.modifyRecord agentId (·.add m raw kind acceptance)).Holds v p := by
  obtain ⟨window, hwindow, it, hit, rfl⟩ := mem_viewOf.mp hv
  by_cases hagent : window.agentId = agentId
  · obtain ⟨it', hit', hkey, hsub⟩ := exists_mem_add m raw kind acceptance hit
    have hmem : window.add m raw kind acceptance ∈
        (s.modifyRecord agentId (·.add m raw kind acceptance)).byAgent :=
      List.mem_map.mpr ⟨window, hwindow, if_pos hagent⟩
    exact ⟨it'.view _, mem_viewOf.mpr ⟨_, hmem, it', hit', rfl⟩, add_agentId, hkey, hsub p hp⟩
  · have hmem : window ∈ (s.modifyRecord agentId (·.add m raw kind acceptance)).byAgent :=
      List.mem_map.mpr ⟨window, hwindow, if_neg hagent⟩
    exact ⟨it.view _, mem_viewOf.mpr ⟨_, hmem, it, hit, rfl⟩, rfl, rfl, hp⟩

/-- An intent is added, or joins the one with its key. -/
theorem DeferInv.addPendingIntent (hinv : DeferInv s) (agentId : String) (m : InflightDispatchMeta)
    (raw : String) (kind : SessionDeferIntentKind) (nowMs : Option Int) (writeOk : Bool) :
    DeferInv (s.addPendingIntent agentId m raw kind nowMs writeOk) ∧
      ∀ v ∈ s.view, ∀ p ∈ v.accepted,
        (s.addPendingIntent agentId m raw kind nowMs writeOk).Holds v p := by
  unfold DeferStore.addPendingIntent
  dsimp only
  split
  · refine ⟨?_, fun v hv p hp => holds_add hv hp⟩
    have hnamed := named_modifyRecord agentId
      (f := (·.add m raw kind (s.ticks, !s.outstanding m.key))) hinv.named fun _ => add_agentId
    refine hinv.step (Nat.le_succ _) hnamed ?_ (.persisted writeOk rfl rfl hnamed) hinv.held
    · intro v hv p hp
      obtain ⟨v₀, hv₀, hkey, hp⟩ | ⟨hkey, rfl⟩ := of_mem_view_add hv p hp
      · have hold := hinv.accepted v₀ hv₀ p hp
        rw [hkey] at hold
        exact ⟨Nat.lt_succ_of_lt hold.1, hold.2⟩
      · refine ⟨Nat.lt_succ_self _, fun hclean => ?_⟩
        have hfree : s.outstanding m.key = false := by simpa using hclean
        obtain ⟨hkeys, hreplays⟩ := not_outstanding hfree
        rw [hkey]
        exact ⟨fun q hq h => absurd h (hkeys q hq), fun r hr hrun h =>
          absurd h (hreplays r hr hrun)⟩
  · exact ⟨hinv, fun v hv p hp => ⟨v, hv, rfl, rfl, hp⟩⟩

/-! ### Cancel, clear and acknowledgement -/

theorem keysHeld_forget (hinv : DeferInv s) (keys : List String) : KeysHeld (s.forget keys) := by
  intro q hq
  exact hinv.held q (List.mem_of_mem_filter hq)

/-- A cancel takes out the intents of its ticket only. -/
theorem DeferInv.cancelByTicket (hinv : DeferInv s) (ticketId : String) (writeOk : Bool) :
    DeferInv (s.cancelByTicket ticketId writeOk) ∧ ∀ v ∈ s.view, v.ticketId ≠ ticketId →
      v ∈ (s.cancelByTicket ticketId writeOk).view := by
  unfold DeferStore.cancelByTicket
  dsimp only
  split
  · exact ⟨hinv, fun v hv _ => hv⟩
  · constructor
    · have hnamed := named_map (f := fun window => { window with
        intents := window.intents.filter (·.ticketId ≠ ticketId) }) hinv.named fun _ => rfl
      refine hinv.shrink rfl hnamed ?_ ?_ ?_ (.persisted writeOk rfl rfl hnamed)
        (keysHeld_forget hinv _)
      · intro v hv
        obtain ⟨window, hwindow, it, hit, rfl⟩ := mem_viewOf.mp hv
        obtain ⟨w, hw, rfl⟩ := List.mem_map.mp hwindow
        exact mem_viewOf.mpr ⟨w, hw, it, List.mem_of_mem_filter hit, rfl⟩
      · intro q hq
        exact List.mem_of_mem_filter hq
      · intro r hr _
        exact hr
    · intro v hv hticket
      obtain ⟨w, hw, it, hit, rfl⟩ := mem_viewOf.mp hv
      refine mem_viewOf.mpr ⟨_, List.mem_map_of_mem hw, it, ?_, rfl⟩
      exact List.mem_filter.mpr ⟨hit, decide_eq_true hticket⟩

/-- A clear takes out the intents of its agent only. -/
theorem DeferInv.clear (hinv : DeferInv s) (agentId : String) (writeOk : Bool) :
    DeferInv (s.clear agentId writeOk) ∧ ∀ v ∈ s.view, v.agentId ≠ agentId →
      v ∈ (s.clear agentId writeOk).view := by
  unfold DeferStore.clear
  split
  · exact ⟨hinv, fun v hv _ => hv⟩
  · constructor
    · have hnamed : ∀ window ∈ s.byAgent.filter (·.agentId ≠ agentId), window.agentId ≠ "" :=
        fun window hwindow => hinv.named window (List.mem_of_mem_filter hwindow)
      refine hinv.shrink rfl hnamed ?_ ?_ ?_ (.persisted writeOk rfl rfl hnamed)
        (keysHeld_forget hinv _)
      · intro v hv
        obtain ⟨window, hwindow, it, hit, rfl⟩ := mem_viewOf.mp hv
        exact mem_viewOf.mpr ⟨window, List.mem_of_mem_filter hwindow, it, hit, rfl⟩
      · intro q hq
        exact List.mem_of_mem_filter hq
      · intro r hr _
        exact hr
    · intro v hv hagent
      obtain ⟨w, hw, it, hit, rfl⟩ := mem_viewOf.mp hv
      exact mem_viewOf.mpr ⟨w, List.mem_filter.mpr ⟨hw, decide_eq_true hagent⟩, it, hit, rfl⟩

theorem mem_set_phase (phase : ReplayPhase) {i : Nat} {r r' : Replay}
    (hr : s.replays[i]? = some r) (hr' : r' ∈ s.replays) :
    r' ∈ s.replays.set i { r with phase } ∨ r' = r := by
  obtain ⟨j, hj⟩ := List.getElem?_of_mem hr'
  by_cases hij : i = j
  · subst hij
    rw [hr] at hj
    exact .inr (Option.some.inj hj).symm
  · exact .inl (List.mem_of_getElem? (List.getElem?_set_ne hij ▸ hj))

theorem DeferInv.throwReplay (hinv : DeferInv s) {i : Nat} {r : Replay}
    (hr : s.replays[i]? = some r) :
    DeferInv { s with replays := s.replays.set i { r with phase := .threw } } := by
  refine hinv.shrink rfl hinv.named (fun v hv => hv) (fun q hq => hq) ?_ (.same rfl rfl rfl) ?_
  · intro r' hr' hrunning
    obtain hr' | rfl := List.mem_or_eq_of_mem_set hr'
    · exact hr'
    · cases hrunning
  · intro q hq
    obtain ⟨r', hr', hkey, hstart, hphase⟩ := hinv.held q hq
    obtain hmem | rfl := mem_set_phase .threw hr hr'
    · exact ⟨r', hmem, hkey, hstart, hphase⟩
    · have hlt := lt_of_getElem? hr
      exact ⟨_, List.mem_set hlt _, hkey, hstart, nofun⟩

/-- The intents of other keys survive an acknowledgement. -/
theorem mem_view_ackIntent {r : Replay} {writeOk : Bool} (hv : v ∈ s.view)
    (hkey : v.key ≠ r.key) : v ∈ (s.ackIntent r writeOk).view := by
  obtain ⟨w, hw, it, hit, rfl⟩ := mem_viewOf.mp hv
  have hkept : ∀ intents : List SessionDeferIntent, it ∈ intents → intents ≠ [] := by
    intro intents hmem hempty
    rw [hempty] at hmem
    cases hmem
  by_cases hagent : w.agentId = r.agentId
  · have hit' : it ∈ w.intents.filter (·.key ≠ r.key) :=
      List.mem_filter.mpr ⟨hit, decide_eq_true hkey⟩
    refine mem_viewOf.mpr
      ⟨{ w with intents := w.intents.filter (·.key ≠ r.key) }, ?_, it, hit', rfl⟩
    refine List.mem_filter.mpr ⟨List.mem_map.mpr ⟨w, hw, if_pos hagent⟩, ?_⟩
    simp only [Bool.not_eq_true', decide_eq_false_iff_not]
    exact fun hdone => hkept _ hit' hdone.2.1
  · refine mem_viewOf.mpr ⟨w, ?_, it, hit, rfl⟩
    refine List.mem_filter.mpr ⟨List.mem_map.mpr ⟨w, hw, if_neg hagent⟩, ?_⟩
    simp only [Bool.not_eq_true', decide_eq_false_iff_not]
    exact fun hdone => hagent hdone.1

theorem of_mem_ackIntent (s : DeferStore) (r : Replay) (writeOk : Bool) :
    (∀ v ∈ (s.ackIntent r writeOk).view, v ∈ s.view) ∧
      ∀ window ∈ (s.ackIntent r writeOk).byAgent, ∃ w ∈ s.byAgent, w.agentId = window.agentId := by
  have hwindow : ∀ window ∈ (s.ackIntent r writeOk).byAgent, ∃ w ∈ s.byAgent,
      w.agentId = window.agentId ∧ ∀ it ∈ window.intents, it ∈ w.intents := by
    intro window hwindow
    obtain ⟨w, hw, rfl⟩ := List.mem_map.mp (List.mem_of_mem_filter hwindow)
    refine ⟨w, hw, ?_⟩
    split
    · exact ⟨rfl, fun it hit => List.mem_of_mem_filter hit⟩
    · exact ⟨rfl, fun it hit => hit⟩
  constructor
  · intro v hv
    obtain ⟨window, hmem, it, hit, rfl⟩ := mem_viewOf.mp hv
    obtain ⟨w, hw, hagent, hsub⟩ := hwindow window hmem
    rw [← hagent]
    exact mem_viewOf.mpr ⟨w, hw, it, hsub it hit, rfl⟩
  · intro window hmem
    obtain ⟨w, hw, hagent, -⟩ := hwindow window hmem
    exact ⟨w, hw, hagent⟩

/-- The acknowledgement of a replay takes out the intent of its key only. -/
theorem DeferInv.resolve (hinv : DeferInv s) {i : Nat} {r : Replay}
    (hr : s.replays[i]? = some r) (writeOk : Bool) :
    DeferInv ({ s with replays := s.replays.set i { r with phase := .acked } }.ackIntent r
      writeOk) := by
  obtain ⟨hview, hagents⟩ := of_mem_ackIntent
    { s with replays := s.replays.set i { r with phase := .acked } } r writeOk
  have hnamed : ∀ window ∈ ({ s with
      replays := s.replays.set i { r with phase := .acked } }.ackIntent r writeOk).byAgent,
      window.agentId ≠ "" := by
    intro window hwindow
    obtain ⟨w, hw, hagent⟩ := hagents window hwindow
    rw [← hagent]
    exact hinv.named w hw
  refine hinv.shrink rfl hnamed hview ?_ ?_ (.persisted writeOk rfl rfl hnamed) ?_
  · intro q hq
    exact List.mem_of_mem_filter hq
  · intro r' hr' hrunning
    obtain hr' | rfl := List.mem_or_eq_of_mem_set hr'
    · exact hr'
    · cases hrunning
  · intro q hq
    obtain ⟨hq, hfree⟩ := List.mem_filter.mp hq
    have hne : q.1 ≠ r.key := by simpa using hfree
    obtain ⟨r', hr', hkey, hrest⟩ := hinv.held q hq
    obtain hmem | rfl := mem_set_phase .acked hr hr'
    · exact ⟨r', hmem, hkey, hrest⟩
    · exact absurd hkey.symm hne

/-! ### The other steps -/

theorem DeferInv.spawned (hinv : DeferInv s) (r : Replay) (pid : Option Nat) (writeOk : Bool) :
    DeferInv (s.spawned r pid writeOk) ∧ (s.spawned r pid writeOk).view = s.view := by
  unfold DeferStore.spawned
  split
  · have hview : viewOf (s.byAgent.map (DeferStore.recordPid r pid)) = s.view := by
      apply viewOf_map
      · intro window
        rfl
      · intro window
        apply map_view_map
        intro it
        split <;> rfl
    have hnamed := named_map (f := DeferStore.recordPid r pid) hinv.named fun _ => rfl
    exact ⟨hinv.quiet rfl hnamed hview rfl rfl (.persisted writeOk rfl rfl hnamed), hview⟩
  · exact ⟨hinv, rfl⟩

theorem view_restart (hinv : DeferInv s) : s.restart.view = viewOf (s.file.getD []) := by
  have hall : (s.file.getD []).filter (·.agentId ≠ "") = s.file.getD [] := by
    rw [List.filter_eq_self]
    intro window hwindow
    exact decide_eq_true (hinv.fileNamed window hwindow)
  show viewOf (((s.file.getD []).filter (·.agentId ≠ "")).map fun window =>
    { window with intents := window.intents.map DeferStore.loadIntent }) = _
  rw [hall]
  apply viewOf_map
  · intro window
    rfl
  · intro window
    apply map_view_map
    intro it
    rfl

/-- After a restart the file is what is left, and nothing is in flight. -/
theorem DeferInv.restart (hinv : DeferInv s) : DeferInv s.restart := by
  have hview := view_restart hinv
  have hnamed : ∀ window ∈ s.restart.byAgent, window.agentId ≠ "" := by
    intro window hwindow
    obtain ⟨w, hw, rfl⟩ := List.mem_map.mp hwindow
    exact hinv.fileNamed w (List.mem_of_mem_filter hw)
  refine ⟨hnamed, ?_, hinv.fileAccepted, hinv.fileNamed, fun _ => hview.symm, ?_⟩
  · intro v hv p hp
    rw [hview] at hv
    refine ⟨hinv.fileAccepted v hv p hp, fun _ => ⟨?_, ?_⟩⟩
    · intro q hq
      cases hq
    · intro r hr
      cases hr
  · intro q hq
    cases hq

/-! ### The timer -/

/-- What a firing of the timer does. -/
structure Fired (s t : DeferStore) : Prop where
  view : t.view = s.view
  named : ∀ window ∈ t.byAgent, window.agentId ≠ ""
  file : FileStep s t
  ahead : Ahead s t
  kept : ∀ r ∈ s.replays, r ∈ t.replays
  keys : ∀ q ∈ t.inFlightReplay, q ∈ s.inFlightReplay ∨ (s.ticks ≤ q.2 ∧
    ∃ r ∈ t.replays, r.key = q.1 ∧ r.startedAt = q.2 ∧ r.phase = .running)
  due : ∀ window ∈ s.byAgent, window.deferUntilMs ≤ s.now → ∀ it ∈ window.intents,
    ∃ q ∈ t.inFlightReplay, q.1 = it.key

/-- The windows after the drain are named as before. -/
theorem named_of_map_eq {windows windows' : List AgentDeferRecord}
    (hnamed : ∀ window ∈ windows, window.agentId ≠ "")
    (heq : windows'.map (·.agentId) = windows.map (·.agentId)) :
    ∀ window ∈ windows', window.agentId ≠ "" := by
  intro window hwindow
  have hmem : window.agentId ∈ windows.map (·.agentId) := heq ▸ List.mem_map_of_mem hwindow
  obtain ⟨w, hw, hagent⟩ := List.mem_map.mp hmem
  rw [← hagent]
  exact hnamed w hw

theorem FileStep.of_same {u : DeferStore} (h : FileStep s u) (hsame : SameStore u t) :
    FileStep s t := by
  unfold FileStep at h ⊢
  rw [hsame.file, hsame.view, hsame.written]
  exact h

/-- The store of a firing before its replays start. -/
theorem drained_spec {d : DeferStore.Drain} {byAgent : List AgentDeferRecord}
    (hview : viewOf byAgent = s.view) (hnamed : ∀ window ∈ byAgent, window.agentId ≠ "")
    (writeOk : Bool) :
    let drained := { s with
      timerAtMs := none, byAgent, inFlightReplay := d.inFlightReplay, ticks := d.ticks }
    let u := (if d.toReplay = [] then drained else drained.persist writeOk).arm
    FileStep s u ∧ u.byAgent = byAgent ∧ u.inFlightReplay = d.inFlightReplay ∧ u.ticks = d.ticks ∧
      u.replays = s.replays := by
  dsimp only
  split
  · exact ⟨.same rfl rfl hview, rfl, rfl, rfl, rfl⟩
  · exact ⟨.persisted writeOk rfl rfl hnamed, rfl, rfl, rfl, rfl⟩

theorem DeferInv.fired (hinv : DeferInv s) (writeOk : Bool) : Fired s (s.fire writeOk) := by
  obtain ⟨⟨new, hreplay, hkeys, hticks⟩, hdue, hview, hagents⟩ :=
    drainRecords_spec s.now ⟨s.inFlightReplay, [], s.ticks⟩ s.byAgent
  unfold DeferStore.fire
  generalize DeferStore.drainRecords s.now ⟨s.inFlightReplay, [], s.ticks⟩ s.byAgent = p at *
  obtain ⟨d, byAgent⟩ := p
  have hnamed := named_of_map_eq hinv.named hagents
  obtain ⟨hfile, hbyAgent, hin, ht, hrep⟩ := drained_spec (d := d) hview hnamed writeOk
  dsimp only at hfile hbyAgent hin ht hrep ⊢
  generalize (if d.toReplay = [] then _ else _ : DeferStore).arm = u at *
  have hsame := startReplays_same u s.ticks d.toReplay
  have hreplay : d.toReplay = new := hreplay
  have hflight : (u.startReplays s.ticks d.toReplay).inFlightReplay =
      s.inFlightReplay ++ starts s.ticks d.toReplay := by
    rw [hsame.inFlight, hin, hreplay]
    exact hkeys
  have hstarted : ∀ q ∈ (u.startReplays s.ticks d.toReplay).inFlightReplay,
      q ∈ s.inFlightReplay ∨ (s.ticks ≤ q.2 ∧
        ∃ r ∈ (u.startReplays s.ticks d.toReplay).replays, r.key = q.1 ∧ r.startedAt = q.2 ∧
          r.phase = .running) := by
    intro q hq
    rw [hflight] at hq
    exact (List.mem_append.mp hq).imp_right (exists_started d.toReplay)
  refine ⟨?_, ?_, hfile.of_same hsame, ⟨?_, ?_, ?_⟩, ?_, hstarted, ?_⟩
  · rw [hsame.view]
    show viewOf u.byAgent = s.view
    rw [hbyAgent]
    exact hview
  · apply named_of_map_eq hnamed
    rw [hsame.agents, hbyAgent]
  · rw [hsame.ticks, ht]
    exact hticks ▸ Nat.le_add_right _ _
  · intro q hq
    exact (hstarted q hq).imp_right (·.1)
  · intro r hr _
    rw [← hrep]
    exact of_mem_startReplays d.toReplay hr
  · intro r hr
    exact mem_startReplays_of_mem d.toReplay (hrep.symm ▸ hr)
  · intro window hwindow hend it hit
    rw [hsame.inFlight, hin]
    exact hdue window hwindow hend it hit

theorem Fired.inv (h : Fired s t) (hinv : DeferInv s) : DeferInv t := by
  refine hinv.step h.ahead.ticks h.named ?_ h.file ?_
  · intro v hv p hp
    rw [h.view] at hv
    exact h.ahead.acceptedBefore (hinv.accepted v hv p hp)
  · intro q hq
    obtain hq | ⟨-, r, hr, hkey, hstart, hrunning⟩ := h.keys q hq
    · obtain ⟨r, hr, hrest⟩ := hinv.held q hq
      exact ⟨r, h.kept r hr, hrest⟩
    · exact ⟨r, hr, hkey, hstart, by rw [hrunning]; decide⟩

/-! ### Every step -/

/-- Each step keeps the invariant. -/
theorem DeferInv.act {a : DeferAction} (hinv : DeferInv s) (h : s.act a = .ok t) : DeferInv t := by
  cases a with
  | tick now =>
    cases h
    exact hinv.quiet rfl hinv.named rfl rfl rfl (.same rfl rfl rfl)
  | recordSessionLimit agentId deferUntilMs nowMs writeOk =>
    cases h
    exact (hinv.recordSessionLimit agentId deferUntilMs nowMs writeOk).1
  | addPendingIntent agentId m raw kind nowMs writeOk =>
    cases h
    exact (hinv.addPendingIntent agentId m raw kind nowMs writeOk).1
  | cancelByTicket ticketId writeOk =>
    cases h
    exact (hinv.cancelByTicket ticketId writeOk).1
  | clear agentId writeOk =>
    cases h
    exact (hinv.clear agentId writeOk).1
  | fire writeOk =>
    simp only [DeferStore.act] at h
    split at h
    · cases h
      exact (hinv.fired writeOk).inv hinv
    · cases h
  | spawned i pid writeOk =>
    simp only [DeferStore.act] at h
    split at h
    · cases h
      exact (hinv.spawned _ pid writeOk).1
    · cases h
  | resolve i writeOk =>
    simp only [DeferStore.act] at h
    split at h
    · rename_i r hr
      split at h
      · cases h
        exact hinv.resolve hr writeOk
      · cases h
    · cases h
  | throw i =>
    simp only [DeferStore.act] at h
    split at h
    · rename_i r hr
      split at h
      · cases h
        exact hinv.throwReplay hr
      · cases h
    · cases h
  | restart =>
    cases h
    exact hinv.restart

theorem deferInv_reachable (h : deferSystem.Reachable s) : DeferInv s := by
  refine h.invariant ?_ ?_
  · rintro s ⟨hbyAgent, hkeys, -, -, hfile, -, -⟩
    refine ⟨?_, ?_, ?_, ?_, ?_, ?_⟩
    · intro window hwindow
      rw [hbyAgent] at hwindow
      cases hwindow
    · intro v hv
      unfold DeferStore.view at hv
      rw [hbyAgent] at hv
      cases hv
    · rw [hfile]
      intro v hv
      cases hv
    · rw [hfile]
      intro window hwindow
      cases hwindow
    · intro _
      unfold DeferStore.view
      rw [hfile, hbyAgent]
      rfl
    · intro q hq
      rw [hkeys] at hq
      cases hq
  · intro s a t _ hinv hstep
    exact hinv.act hstep

end Inv

/-! ## What a step takes out -/

section Removal

variable {s t : DeferStore} {v : IntentView} {p : Nat × Bool}

theorem holds_of_mem (hv : v ∈ s.view) (hp : p ∈ v.accepted) : s.Holds v p :=
  ⟨v, hv, rfl, rfl, hp⟩

/-- A step takes an intent out only where it may. -/
theorem removes_of_act {a : DeferAction} {n : Nat} (hinv : DeferInv s) (h : s.act a = .ok t)
    (hv : v ∈ s.view) (hp : (n, true) ∈ v.accepted) (hgone : ¬ t.Holds v (n, true)) :
    Removes s v n a := by
  have hsame : t.view = s.view → Removes s v n a := fun hview =>
    absurd (holds_of_mem (hview.symm ▸ hv) hp) hgone
  cases a with
  | tick now =>
    cases h
    exact hsame rfl
  | recordSessionLimit agentId deferUntilMs nowMs writeOk =>
    cases h
    exact hsame (hinv.recordSessionLimit agentId deferUntilMs nowMs writeOk).2
  | addPendingIntent agentId m raw kind nowMs writeOk =>
    cases h
    exact absurd ((hinv.addPendingIntent agentId m raw kind nowMs writeOk).2 v hv _ hp) hgone
  | cancelByTicket ticketId writeOk =>
    cases h
    by_cases hticket : v.ticketId = ticketId
    · rw [← hticket]
      exact .cancelled
    · exact absurd (holds_of_mem ((hinv.cancelByTicket ticketId writeOk).2 v hv hticket) hp) hgone
  | clear agentId writeOk =>
    cases h
    by_cases hagent : v.agentId = agentId
    · rw [← hagent]
      exact .cleared
    · exact absurd (holds_of_mem ((hinv.clear agentId writeOk).2 v hv hagent) hp) hgone
  | fire writeOk =>
    simp only [DeferStore.act] at h
    split at h
    · cases h
      exact hsame (hinv.fired writeOk).view
    · cases h
  | spawned i pid writeOk =>
    simp only [DeferStore.act] at h
    split at h
    · cases h
      exact hsame (hinv.spawned _ pid writeOk).2
    · cases h
  | resolve i writeOk =>
    simp only [DeferStore.act] at h
    split at h
    · rename_i r hr
      split at h
      · rename_i hrunning
        cases h
        by_cases hkey : v.key = r.key
        · have hbefore := (hinv.accepted v hv _ hp).2 rfl
          exact .acknowledged hr hkey.symm
            (hbefore.2 r (List.mem_of_getElem? hr) hrunning hkey.symm)
        · have hmem : v ∈ ({ s with
              replays := s.replays.set i { r with phase := .acked } }.ackIntent r writeOk).view :=
            mem_view_ackIntent hv hkey
          exact absurd (holds_of_mem hmem hp) hgone
      · cases h
    · cases h
  | throw i =>
    simp only [DeferStore.act] at h
    split at h
    · split at h
      · cases h
        exact hsame rfl
      · cases h
    · cases h
  | restart =>
    cases h
    cases hwritten : s.written with
    | false => exact .unwritten hwritten
    | true => exact hsame ((view_restart hinv).trans (hinv.stored hwritten))

end Removal

/-! ## Main result -/

/-- The step hands an intent of the key to the resume handler: it starts a replay. -/
def Handed (s t : DeferStore) (key : String) : Prop :=
  ∃ r ∈ t.replays, r.key = key ∧ s.ticks ≤ r.startedAt

/-- For every run, and every intent accepted (created or coalesced) while no earlier replay of its
    key was running or had thrown:
    a step takes it out of the store only as a cancel or a clear, as the acknowledgement of a
    replay that started after the acceptance, or as a restart after a failed write;
    a timer that fires at or after the end of the window hands it to the resume handler, unless a
    replay that started after the acceptance is running or has thrown in this process. -/
theorem intent_kept_until_replayed {s t : DeferStore} {a : DeferAction}
    (h : deferSystem.Reachable s) (hstep : deferSystem.step s a t) {window : AgentDeferRecord}
    {it : SessionDeferIntent} {n : Nat} (hwindow : window ∈ s.byAgent) (hit : it ∈ window.intents)
    (haccepted : (n, true) ∈ it.accepted) :
    (¬ t.Holds (it.view window.agentId) (n, true) → Removes s (it.view window.agentId) n a) ∧
    (∀ writeOk, a = .fire writeOk → window.deferUntilMs ≤ s.now →
      Handed s t it.key ∨
        ∃ r ∈ s.replays, r.key = it.key ∧ n < r.startedAt ∧ r.phase ≠ .acked) := by
  have hinv := deferInv_reachable h
  have hv : it.view window.agentId ∈ s.view := mem_viewOf.mpr ⟨window, hwindow, it, hit, rfl⟩
  constructor
  · exact removes_of_act hinv hstep hv haccepted
  · rintro writeOk rfl hend
    have hact : s.act (.fire writeOk) = .ok t := hstep
    simp only [DeferStore.act] at hact
    split at hact
    · cases hact
      have hfired := hinv.fired writeOk
      obtain ⟨q, hq, hkey⟩ := hfired.due window hwindow hend it hit
      obtain hq | ⟨hle, r, hr, hrkey, hstart, -⟩ := hfired.keys q hq
      · -- the key was in flight: its replay came after the acceptance
        obtain ⟨r, hr, hrkey, hstart, hphase⟩ := hinv.held q hq
        have hlt := ((hinv.accepted _ hv _ haccepted).2 rfl).1 q hq hkey
        exact .inr ⟨r, hr, hrkey.trans hkey, hstart ▸ hlt, hphase⟩
      · exact .inl ⟨r, hr, hrkey.trans hkey, hstart ▸ hle⟩
    · cases hact

def emptyStore : DeferStore where
  byAgent := []
  inFlightReplay := []
  bootDispatching := []
  timerAtMs := none
  now := 0
  file := none
  replays := []
  reaped := []
  ticks := 0
  written := true

theorem emptyStore_init : deferSystem.init emptyStore := ⟨rfl, rfl, rfl, rfl, rfl, rfl, rfl⟩

/-- An intent that was deferred until 100. -/
def deferredIntent (status : SessionDeferIntentStatus) : SessionDeferIntent where
  key := "T:R:A"
  raw := "go"
  ticketId := "T"
  role := "R"
  agentId := "A"
  kind := .trigger
  status := status
  spawnedPid := none
  accepted := [(0, true)]

/-- The actions up to the end of its window. -/
def deferOnce : List DeferAction :=
  [.recordSessionLimit "A" 100 none true, .addPendingIntent "A" ⟨"T", "R", "A"⟩ "go" .trigger none
    true, .tick 100]

theorem run_step {s t : DeferStore} {a : DeferAction} (h : s.act a = .ok t) :
    deferSystem.step s a t := h

/-- The timer at the end of the window hands the intent over. -/
theorem intent_kept_until_replayed_once :
    ∃ s t, deferSystem.Reachable s ∧ deferSystem.step s (.fire true) t ∧
      s.byAgent = [⟨"A", 100, [deferredIntent .pending]⟩] ∧
      (Handed s t "T:R:A" ∨
        ∃ r ∈ s.replays, r.key = "T:R:A" ∧ 0 < r.startedAt ∧ r.phase ≠ .acked) := by
  obtain ⟨s, hpath, hs⟩ := Transition.exists_path_of_run (fun _ _ _ => run_step) emptyStore
    deferOnce (fun s => s.byAgent = [⟨"A", 100, [deferredIntent .pending]⟩] ∧ s.now = 100 ∧
      s.timerAtMs.isSome = true) (by decide +kernel)
  have hreach : deferSystem.Reachable s := .path (.init emptyStore_init) hpath
  obtain ⟨hbyAgent, hnow, htimer⟩ := of_decide_eq_true hs
  have hstep : deferSystem.step s (.fire true) (s.fire true) := if_pos htimer
  refine ⟨s, s.fire true, hreach, hstep, hbyAgent, ?_⟩
  exact (intent_kept_until_replayed hreach hstep (hbyAgent ▸ List.mem_cons_self)
    List.mem_cons_self List.mem_cons_self).2 true rfl (Int.le_of_eq hnow.symm)

/-- The replay throws and the window is opened again until 200: the timer at its end does not hand
    the intent over, though no replay of it is running. -/
theorem thrown_replay_not_handed :
    ¬ ∀ s a t, deferSystem.Reachable s → deferSystem.step s a t →
      ∀ window ∈ s.byAgent, ∀ it ∈ window.intents, ∀ p ∈ it.accepted,
        (¬ t.Holds (it.view window.agentId) p → Removes s (it.view window.agentId) p.1 a) ∧
        (∀ writeOk, a = .fire writeOk → window.deferUntilMs ≤ s.now →
          (¬ ∃ r ∈ s.replays, r.key = it.key ∧ p.1 < r.startedAt ∧ r.phase = .running) →
          Handed s t it.key) := by
  intro hall
  obtain ⟨s, hpath, hs⟩ := Transition.exists_path_of_run (fun _ _ _ => run_step) emptyStore
    (deferOnce ++ [.fire true, .throw 0, .recordSessionLimit "A" 200 none true, .tick 200])
    (fun s => s.byAgent = [⟨"A", 200, [deferredIntent .dispatching]⟩] ∧ s.now = 200 ∧
      s.timerAtMs.isSome = true ∧ s.replays.all (fun r => r.phase = .threw) = true ∧
      (s.fire true).replays.all (fun r => r.startedAt < s.ticks) = true) (by decide +kernel)
  have hreach : deferSystem.Reachable s := .path (.init emptyStore_init) hpath
  obtain ⟨hbyAgent, hnow, htimer, hthrew, hfire⟩ := of_decide_eq_true hs
  have hstep : deferSystem.step s (.fire true) (s.fire true) := if_pos htimer
  have hclaim := (hall s _ _ hreach hstep _ (hbyAgent ▸ List.mem_cons_self) _ List.mem_cons_self _
    List.mem_cons_self).2 true rfl (Int.le_of_eq hnow.symm)
  obtain ⟨r, hr, -, hle⟩ := hclaim <| by
    rintro ⟨r, hr, -, -, hrunning⟩
    have hphase := of_decide_eq_true (List.all_eq_true.mp hthrew r hr)
    rw [hrunning] at hphase
    cases hphase
  have hlt := of_decide_eq_true (List.all_eq_true.mp hfire r hr)
  omega

end WorkflowBoard.AgentManager
