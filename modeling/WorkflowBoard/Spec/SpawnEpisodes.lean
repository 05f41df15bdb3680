import WorkflowBoard.ForStd.History
import WorkflowBoard.ForStd.Words
import WorkflowBoard.Native.SpawnSuppressor

/-!
# A blocked ticket is pended once in an episode

An episode of a key is a run of aborts of one kind with no `clear` in between. The abort that is the
threshold-th of its episode pends the ticket, and no other one does; the supervisor's triggers that
are let through during an episode lie a cooldown apart. Calls for other keys in between change
nothing.
-/

namespace WorkflowBoard.AgentManager

open RoleSpawnSuppressor (key?)

/-! ## Episodes -/

/-- An abort or a `clear` of the key. -/
def SpawnCall.changes (key : String) (c : SpawnCall) : Bool :=
  key? c.ticketId c.role = some key &&
    match c.method with
    | .shouldSuppress _ _ => false
    | _ => true

/-- An abort of the kind for the key. -/
def SpawnCall.notes (key kind : String) (c : SpawnCall) : Bool :=
  key? c.ticketId c.role = some key &&
    match c.method with
    | .note k _ => k = kind
    | _ => false

/-- The calls `episode` are what an episode has seen so far: it starts with an abort that continues
    no episode, and nothing ends it. If the next abort or `clear` of the key after it is of another
    kind, or if there is none, then these are the whole episode. -/
structure EpisodeSoFar (key kind : String) (before episode : List SpawnCall) : Prop where
  fresh : ∀ c, latest (SpawnCall.changes key) before = some c → c.notes key kind = false
  opens : ∃ c rest, episode = c :: rest ∧ c.notes key kind = true
  within : ∀ c ∈ episode, c.changes key = true → c.notes key kind = true

/-- The call is an abort for the key, and pends its ticket. -/
def SpawnEvent.pends (key : String) (e : SpawnEvent) : Bool :=
  key? e.call.ticketId e.call.role = some key &&
    match e.answer with
    | .noted _ shouldPend => shouldPend
    | _ => false

/-- The time of a supervisor's trigger for the key that is let through. -/
def SpawnEvent.probeTime (key : String) (e : SpawnEvent) : Option Date :=
  if key? e.call.ticketId e.call.role = some key then
    match e.call.method, e.answer with
    | .shouldSuppress now true, .decided decision => if decision.suppress then none else some now
    | _, _ => none
  else none

namespace RoleSpawnSuppressor

variable {s : RoleSpawnSuppressor} {key kind : String} {block : SpawnBlock} {c : SpawnCall}
variable {calls before episode : List SpawnCall}

/-! ## One call -/

@[simp] theorem noteBlock_kind (prev : Option SpawnBlock) (kind : String) (now : Date) :
    (noteBlock prev kind now).kind = kind := by
  cases prev with
  | none => simp [noteBlock]
  | some prev => by_cases h : prev.kind = kind <;> simp [noteBlock, h]

@[simp] theorem act_cooldownMs : (s.act c).2.cooldownMs = s.cooldownMs := by
  obtain ⟨ticketId, role, method⟩ := c
  cases method <;> simp only [act, note, shouldSuppress, clear]
  all_goals repeat' split
  all_goals rfl

@[simp] theorem act_pendThreshold : (s.act c).2.pendThreshold kind = s.pendThreshold kind := by
  have hsame : (s.act c).2.pendAfterAborts = s.pendAfterAborts := by
    obtain ⟨ticketId, role, method⟩ := c
    cases method <;> simp only [act, note, shouldSuppress, clear]
    all_goals repeat' split
    all_goals rfl
  simp [pendThreshold, hsame]

/-- A trigger that is not the supervisor's passes, and leaves no trace. -/
theorem shouldSuppress_human (s : RoleSpawnSuppressor) (ticketId role : Option String)
    (now : Date) : s.shouldSuppress ticketId role now false = ({ suppress := false }, s) := by
  simp only [shouldSuppress]
  repeat' split
  all_goals simp_all

/-- A call for another key leaves the record alone. -/
theorem get_act_other (h : key? c.ticketId c.role ≠ some key) :
    (s.act c).2.byKey.get key = s.byKey.get key := by
  obtain ⟨ticketId, role, method⟩ := c
  cases hk : key? ticketId role with
  | none => cases method <;> simp [act, note, shouldSuppress, clear, hk]
  | some k =>
    have hne : key ≠ k := by
      rintro rfl
      exact h hk
    cases method with
    | note kind now => simp [act, note, hk, InsertMap.get_set_other hne]
    | shouldSuppress now fromSupervisor =>
      simp only [act, shouldSuppress, hk]
      repeat' split
      all_goals simp [InsertMap.get_set_other hne]
    | clear => simp [act, clear, hk, InsertMap.get_delete_other hne]

/-- The record after an abort or a `clear` of the key. -/
theorem get_act_changes (h : c.changes key = true)
    (hget : (s.act c).2.byKey.get key = some block) : c.notes key block.kind = true := by
  obtain ⟨ticketId, role, method⟩ := c
  simp only [SpawnCall.changes, Bool.and_eq_true, decide_eq_true_eq] at h
  obtain ⟨hk, hmethod⟩ := h
  cases method with
  | note kind now =>
    simp only [act, note, hk, InsertMap.get_set_self, Option.some.injEq] at hget
    simp [SpawnCall.notes, hk, ← hget]
  | shouldSuppress now fromSupervisor => simp at hmethod
  | clear =>
    simp only [act, clear, hk] at hget
    simp [InsertMap.get_delete_self] at hget

/-- A query may stamp the record, and changes no kind. -/
theorem get_act_query (h : c.changes key = false)
    (hget : (s.act c).2.byKey.get key = some block) :
    ∃ prev, s.byKey.get key = some prev ∧ prev.kind = block.kind := by
  by_cases hk : key? c.ticketId c.role = some key
  · obtain ⟨ticketId, role, method⟩ := c
    cases method with
    | note kind now => simp [SpawnCall.changes, hk] at h
    | shouldSuppress now fromSupervisor =>
      simp only [act, shouldSuppress, hk] at hget
      cases hrec : s.byKey.get key with
      | none => simp [hrec] at hget
      | some prev =>
        refine ⟨prev, rfl, ?_⟩
        simp only [hrec] at hget
        repeat' split at hget
        all_goals simp_all [InsertMap.get_set_self]
        all_goals rw [← hget]
    | clear => simp [SpawnCall.changes, hk] at h
  · rw [get_act_other hk] at hget
    exact ⟨block, hget, rfl⟩

/-! ## What one call does in an episode -/

/-- A call within an episode: an abort counts, and pends if it is the threshold-th; a supervisor's
    trigger that passes does so a cooldown after the last probe, and is stamped. -/
structure EpisodeStep (s : RoleSpawnSuppressor) (key kind : String) (block : SpawnBlock)
    (c : SpawnCall) (block' : SpawnBlock) : Prop where
  get : (s.act c).2.byKey.get key = some block'
  kind_eq : block'.kind = kind
  count_eq : block'.count = block.count + if c.notes key kind then 1 else 0
  pends : SpawnEvent.pends key ⟨c, (s.act c).1⟩ =
    (c.notes key kind && decide (block.count + 1 = s.pendThreshold kind))
  probe : (SpawnEvent.probeTime key ⟨c, (s.act c).1⟩ = none ∧
      block'.lastProbeAt = block.lastProbeAt) ∨
    (SpawnEvent.probeTime key ⟨c, (s.act c).1⟩ = some block'.lastProbeAt ∧
      (block.lastProbeAt + s.cooldownMs : Int) ≤ block'.lastProbeAt)

theorem exists_episodeStep (hget : s.byKey.get key = some block) (hkind : block.kind = kind)
    (hc : c.changes key = true → c.notes key kind = true) :
    ∃ block', EpisodeStep s key kind block c block' := by
  by_cases hk : key? c.ticketId c.role = some key
  · obtain ⟨ticketId, role, method⟩ := c
    cases method with
    | note k now =>
      obtain rfl : k = kind := by simpa [SpawnCall.changes, SpawnCall.notes, hk] using hc
      refine ⟨noteBlock (some block) k now, ?_, by simp, ?_, ?_, .inl ?_⟩
      · simp [act, note, hk, hget, InsertMap.get_set_self]
      · simp [noteBlock, hkind, SpawnCall.notes, hk]
      · simp [SpawnEvent.pends, SpawnCall.notes, act, note, hk, hget, noteBlock, hkind]
      · simp [SpawnEvent.probeTime, noteBlock, hkind]
    | shouldSuppress now fromSupervisor =>
      cases fromSupervisor with
      | false =>
        refine ⟨block, ?_, hkind, ?_, ?_, .inl ?_⟩
        · simpa [act, shouldSuppress_human] using hget
        · simp [SpawnCall.notes]
        · simp [SpawnEvent.pends, SpawnCall.notes, act]
        · simp [SpawnEvent.probeTime]
      | true =>
        by_cases hcool : s.cooldownMs ≤ (now - block.lastProbeAt : Int)
        · refine ⟨{ block with lastProbeAt := now }, ?_, hkind, ?_, ?_, .inr ⟨?_, ?_⟩⟩
          · simp [act, shouldSuppress, hk, hget, hcool, InsertMap.get_set_self]
          · simp [SpawnCall.notes]
          · simp [SpawnEvent.pends, SpawnCall.notes, act]
          · simp [SpawnEvent.probeTime, act, shouldSuppress, hk, hget, hcool]
          · exact Int.add_le_of_le_sub_left hcool
        · refine ⟨block, ?_, hkind, ?_, ?_, .inl ⟨?_, rfl⟩⟩
          · simp [act, shouldSuppress, hk, hget, hcool]
          · simp [SpawnCall.notes]
          · simp [SpawnEvent.pends, SpawnCall.notes, act]
          · simp [SpawnEvent.probeTime, act, shouldSuppress, hk, hget, hcool]
    | clear => simp [SpawnCall.changes, SpawnCall.notes, hk] at hc
  · refine ⟨block, (get_act_other hk).trans hget, hkind, ?_, ?_, .inl ?_⟩
    · simp [SpawnCall.notes, hk]
    · simp [SpawnEvent.pends, SpawnCall.notes, hk]
    · simp [SpawnEvent.probeTime, hk]

/-! ## Runs -/

theorem run_episode (hget : s.byKey.get key = some block) (hkind : block.kind = kind)
    (hwithin : ∀ c ∈ calls, c.changes key = true → c.notes key kind = true) :
    (s.run calls).1.countP (SpawnEvent.pends key) =
        (if block.count < s.pendThreshold kind ∧
          s.pendThreshold kind ≤ block.count + calls.countP (SpawnCall.notes key kind)
        then 1 else 0) ∧
      ((s.run calls).1.filterMap (SpawnEvent.probeTime key)).Pairwise
        (fun g g' => (g + s.cooldownMs : Int) ≤ g') ∧
      ∀ g ∈ (s.run calls).1.filterMap (SpawnEvent.probeTime key),
        (block.lastProbeAt + s.cooldownMs : Int) ≤ g := by
  induction calls generalizing s block with
  | nil =>
    refine ⟨?_, by simp [run], by simp [run]⟩
    rw [if_neg (by simp)]
    simp [run]
  | cons c calls ih =>
    obtain ⟨block', hstep⟩ := exists_episodeStep hget hkind (hwithin c (by simp))
    obtain ⟨hpends, hapart, hlast⟩ :=
      ih hstep.get hstep.kind_eq fun x hx => hwithin x (List.mem_cons_of_mem _ hx)
    simp only [act_cooldownMs, act_pendThreshold] at hpends hapart hlast
    have hpos := s.cooldownMs_pos
    refine ⟨?_, ?_, ?_⟩
    · -- the abort that pends is this one or a later one
      simp only [run, List.countP_cons, hstep.pends, hpends, hstep.count_eq]
      by_cases hnotes : c.notes key kind = true
      · by_cases heq : block.count + 1 = s.pendThreshold kind
        · simp [hnotes, heq]
          omega
        · simp [hnotes, heq]
          split <;> split <;> omega
      · simp [hnotes]
    · obtain ⟨hnone, -⟩ | ⟨hsome, -⟩ := hstep.probe
      · simpa [run, hnone] using hapart
      · simp only [run, List.filterMap_cons, hsome]
        exact List.pairwise_cons.mpr ⟨hlast, hapart⟩
    · intro g hg
      obtain ⟨hnone, hsame⟩ | ⟨hsome, hcool⟩ := hstep.probe
      · rw [← hsame]
        apply hlast
        simpa [run, hnone] using hg
      · simp only [run, List.filterMap_cons, hsome, List.mem_cons] at hg
        obtain rfl | hg := hg
        · exact hcool
        · apply Int.le_trans hcool
          exact Int.le_trans (Int.le_add_of_nonneg_right hpos.le) (hlast g hg)

theorem run_snoc (s : RoleSpawnSuppressor) (calls : List SpawnCall) (c : SpawnCall) :
    (s.run (calls ++ [c])).2 = ((s.run calls).2.act c).2 := by
  induction calls generalizing s with
  | nil => rfl
  | cons x calls ih => simpa [run] using ih (s.act x).2

@[simp] theorem run_cooldownMs : (s.run calls).2.cooldownMs = s.cooldownMs := by
  induction calls generalizing s with
  | nil => rfl
  | cons c calls ih => simp [run, ih]

@[simp] theorem run_pendThreshold : (s.run calls).2.pendThreshold kind = s.pendThreshold kind := by
  induction calls generalizing s with
  | nil => rfl
  | cons c calls ih => simp [run, ih]

/-- A record is there because of the last abort of the key, and has its kind. -/
theorem recorded (hempty : s.byKey.get key = none)
    (hget : (s.run before).2.byKey.get key = some block) :
    ∃ c, latest (SpawnCall.changes key) before = some c ∧ c.notes key block.kind = true := by
  induction before using List.reverseRecOn generalizing block with
  | nil =>
    rw [run, hempty] at hget
    cases hget
  | append_singleton before c ih =>
    rw [run_snoc] at hget
    cases hc : c.changes key with
    | true => exact ⟨c, latest_snoc hc, get_act_changes hc hget⟩
    | false =>
      obtain ⟨prev, hprev, hkind⟩ := get_act_query hc hget
      rw [latest_append_of_not (by simpa using hc), ← hkind]
      exact ih hprev

/-- The first abort of an episode makes a fresh record. -/
theorem get_act_opens (hfresh : ∀ prev, s.byKey.get key = some prev → prev.kind ≠ kind)
    (hc : c.notes key kind = true) :
    ∃ block, (s.act c).2.byKey.get key = some block ∧ block.kind = kind ∧ block.count = 1 ∧
      SpawnEvent.pends key ⟨c, (s.act c).1⟩ = decide (1 = s.pendThreshold kind) ∧
      SpawnEvent.probeTime key ⟨c, (s.act c).1⟩ = none := by
  obtain ⟨ticketId, role, method⟩ := c
  simp only [SpawnCall.notes, Bool.and_eq_true, decide_eq_true_eq] at hc
  obtain ⟨hk, hmethod⟩ := hc
  cases method with
  | note k now =>
    obtain rfl : k = kind := by simpa using hmethod
    have hone : (noteBlock (s.byKey.get key) k now).count = 1 := by
      cases hprev : s.byKey.get key with
      | none => simp [noteBlock]
      | some prev => simp [noteBlock, hfresh prev hprev]
    refine ⟨noteBlock (s.byKey.get key) k now, ?_, by simp, hone, ?_, ?_⟩
    · simp [act, note, hk, InsertMap.get_set_self]
    · simp [SpawnEvent.pends, act, note, hk, hone]
    · simp [SpawnEvent.probeTime]
  | shouldSuppress now fromSupervisor => simp at hmethod
  | clear => simp at hmethod

theorem key_inj {ticketId ticketId' role role' : String} (hid : ':' ∉ ticketId.toList)
    (hid' : ':' ∉ ticketId'.toList)
    (h : RoleSpawnSuppressor.key ticketId role = RoleSpawnSuppressor.key ticketId' role') :
    ticketId = ticketId' ∧ role = role' := by
  have hlist := congrArg String.toList h
  simp only [RoleSpawnSuppressor.key, String.toList_append, List.append_assoc] at hlist
  obtain ⟨hticket, hrole⟩ := eq_of_cut hid hid' (by simpa using hlist)
  exact ⟨String.toList_inj.mp hticket, String.toList_inj.mp hrole⟩

/-- In every episode the abort that is the threshold-th pends the ticket, and no other: so one does
    if the episode has that many aborts and the threshold is a whole number of them, and none
    otherwise. The supervisor's triggers that pass in between lie a cooldown apart. Whoever else
    triggers is not held up, and changes nothing. -/
theorem pended_once (cooldownMs : Int) (pendAfterAborts : ℚ) {key kind : String}
    {before episode : List SpawnCall} (h : EpisodeSoFar key kind before episode) :
    let s := new cooldownMs pendAfterAborts
    let events := ((s.run before).2.run episode).1
    events.countP (SpawnEvent.pends key) =
        (if 1 ≤ s.pendThreshold kind ∧
          s.pendThreshold kind ≤ episode.countP (SpawnCall.notes key kind) then 1 else 0) ∧
      (events.filterMap (SpawnEvent.probeTime key)).Pairwise
        (fun g g' => (g + s.cooldownMs : Int) ≤ g') ∧
      ∀ (s : RoleSpawnSuppressor) ticketId role now,
        s.shouldSuppress ticketId role now false = ({ suppress := false }, s) := by
  intro s events
  obtain ⟨c, rest, rfl, hc⟩ := h.opens
  have hfresh : ∀ prev, (s.run before).2.byKey.get key = some prev → prev.kind ≠ kind := by
    rintro prev hprev rfl
    obtain ⟨last, hlast, hnotes⟩ := recorded (by rfl) hprev
    rw [h.fresh last hlast] at hnotes
    cases hnotes
  obtain ⟨block, hget, hkind, hcount, hpends, hprobe⟩ := get_act_opens hfresh hc
  obtain ⟨hrest, hapart, -⟩ :=
    run_episode hget hkind fun x hx => h.within x (List.mem_cons_of_mem _ hx)
  simp only [act_cooldownMs, act_pendThreshold, run_cooldownMs, run_pendThreshold] at *
  refine ⟨?_, ?_, shouldSuppress_human⟩
  · show ((s.run before).2.run (c :: rest)).1.countP (SpawnEvent.pends key) = _
    simp only [run, List.countP_cons, hpends, hrest, hc, hcount]
    by_cases hone : 1 = s.pendThreshold kind
    · simp [← hone]
    · simp [hone]
      split <;> split <;> omega
  · show (((s.run before).2.run (c :: rest)).1.filterMap (SpawnEvent.probeTime key)).Pairwise _
    simpa only [run, List.filterMap_cons, hprobe] using hapart

def abortCall (kind : String) (now : Date) : SpawnCall := ⟨some "t", some "r", .note kind now⟩

def supervisorCall (now : Date) : SpawnCall := ⟨some "t", some "r", .shouldSuppress now true⟩

/-- A third abort of one kind, after a `clear` and with probes and another role's abort in
    between. -/
theorem pended_once_third :
    let s := new
    let events := ((s.run [abortCall "exception" 0, ⟨some "t", some "r", .clear⟩]).2.run
      [abortCall "exception" 1, supervisorCall 600001, abortCall "exception" 600002,
        ⟨some "t", some "s", .note "exception" 600003⟩, supervisorCall 1200001,
        abortCall "exception" 1200002]).1
    events.countP (SpawnEvent.pends "t:r") = 1 ∧
      (events.filterMap (SpawnEvent.probeTime "t:r")).Pairwise
        fun g g' => (g + 600000 : Int) ≤ g' := by
  have hepisode : EpisodeSoFar "t:r" "exception"
      [abortCall "exception" 0, ⟨some "t", some "r", .clear⟩]
      [abortCall "exception" 1, supervisorCall 600001, abortCall "exception" 600002,
        ⟨some "t", some "s", .note "exception" 600003⟩, supervisorCall 1200001,
        abortCall "exception" 1200002] := by
    refine ⟨?_, ⟨_, _, rfl, by decide⟩, by decide⟩
    intro c hc
    have hlast : c = ⟨some "t", some "r", .clear⟩ := by
      have hlatest : latest (SpawnCall.changes "t:r")
          [abortCall "exception" 0, ⟨some "t", some "r", .clear⟩] =
            some ⟨some "t", some "r", .clear⟩ := by decide
      rw [hlatest] at hc
      exact (Option.some.inj hc).symm
    rw [hlast]
    decide
  obtain ⟨hpends, hapart, -⟩ :=
    pended_once defaultSpawnSuppressCooldownMs defaultPendAfterAborts hepisode
  refine ⟨hpends.trans ?_, hapart⟩
  decide +kernel

end RoleSpawnSuppressor

end WorkflowBoard.AgentManager
