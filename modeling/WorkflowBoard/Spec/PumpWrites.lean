import WorkflowBoard.Spec.MissionWrites

/-!
# The writes of the pump

Every write keeps the rows sane, and the pump, the loops of the graph and what follows the
end of a step are sequences of writes. The pump computes its candidates once and then saves
rows, so each candidate that is still to come must be shown to be a row as it was, and the
slots and loads it counts must be shown to stay ahead of the rows (`Pumping`).
-/

namespace WorkflowBoard.Orchestration

namespace Runner

/-! ## Sane rows -/

section Sane

variable {r r' : Runner} {s t : Step} {p : Step → Bool} {f : Step → Step}

theorem Sane.of_keys (hs : r.Sane) (hkeys : r'.keys = r.keys)
    (hgraph : r'.mission.graph_spec = r.mission.graph_spec)
    (hflight : ∀ t ∈ r'.steps, t.status.isInFlight = true →
      (∃ u ∈ r.steps, u.step_key = t.step_key ∧ u.status.isInFlight = true) ∨
        ∀ spec, r.mission.graph_spec = some spec → t.step_key ∈ nodeKeysOf spec.nodes) :
    r'.Sane := by
  refine ⟨?_, ?_, ?_, ?_, ?_⟩
  · unfold Distinct
    rw [hkeys]
    exact hs.distinct
  · rw [hkeys]
    exact hs.named
  · rw [hgraph]
    exact hs.nodes
  · rw [hgraph, hkeys]
    exact hs.rows
  · intro spec hspec t ht hin
    rw [hgraph] at hspec
    rcases hflight t ht hin with ⟨u, hu, hkey, huin⟩ | hnode
    · rw [← hkey]
      exact hs.onGraph spec hspec u hu huin
    · exact hnode spec hspec

theorem Sane.congr (hs : r.Sane) (hsteps : r'.steps = r.steps)
    (hgraph : r'.mission.graph_spec = r.mission.graph_spec) : r'.Sane := by
  have hkeys : r'.keys = r.keys := by
    unfold keys
    rw [hsteps]
  refine hs.of_keys hkeys hgraph fun t ht hin => ?_
  rw [hsteps] at ht
  exact .inl ⟨t, ht, rfl, hin⟩

theorem Sane.saveStep (hs : r.Sane) (hmem : s ∈ r.steps)
    (hflight : t.status.isInFlight = true → s.status.isInFlight = true ∨
      ∀ spec, r.mission.graph_spec = some spec → t.step_key ∈ nodeKeysOf spec.nodes)
    (hkey : t.step_key = s.step_key) : (r.saveStep t).Sane := by
  refine hs.of_keys keys_saveStep rfl fun u hu hin => ?_
  rcases mem_saveStep hu with rfl | ⟨hu, _⟩
  · cases hflight hin with
    | inl hsin => exact .inl ⟨s, hmem, hkey.symm, hsin⟩
    | inr hnode => exact .inr hnode
  · exact .inl ⟨u, hu, rfl, hin⟩

theorem Sane.saveSteps (hs : r.Sane) (hkey : ∀ t, (f t).step_key = t.step_key)
    (hflight : ∀ t, (f t).status.isInFlight = true → t.status.isInFlight = true) :
    (r.saveSteps p f).Sane := by
  refine hs.of_keys (keys_saveSteps hkey) rfl fun u hu hin => ?_
  obtain ⟨t, ht, hcase⟩ := mem_saveSteps hu
  rcases hcase with ⟨_, rfl⟩ | ⟨_, rfl⟩
  · exact .inl ⟨t, ht, (hkey t).symm, hflight t hin⟩
  · exact .inl ⟨u, ht, rfl, hin⟩

theorem progressed_inFlight (s : Step) (checkpoint : Option String) (now : Date) :
    (progressed s checkpoint now).status.isInFlight = s.status.isInFlight := by
  unfold progressed
  dsimp only
  split
  · rename_i h
    rw [h]
    rfl
  · rfl

/-- An amended row is the row with other texts or another assignment. -/
theorem amended_revises (s : Step) (input : StepUpdate) (a : PlanAssignment) :
    (reassigned (reworded s input) a).Revises s := by
  cases a with
  | keep => exact ⟨_, _, _, _, _, _, _, _, _, rfl⟩
  | assign a => exact ⟨_, _, _, _, _, _, _, _, _, rfl⟩
  | project id => exact ⟨_, _, _, _, _, _, _, _, _, rfl⟩

end Sane

end Runner

/-! ## Writes keep the rows sane -/

variable {r r' : Runner}

open Runner in
theorem PumpWrite.sane (h : PumpWrite r r') (hs : r.Sane) : r'.Sane := by
  cases h with
  | openGate now _ hmem _ _ _ =>
    refine Sane.congr (hs.saveStep hmem ?_ ?_) rfl rfl
    · exact fun hin => absurd hin Bool.false_ne_true
    · rfl
  | dispatch now _ hmem _ _ _ hnode _ _ _ =>
    refine Sane.congr (hs.saveStep hmem ?_ ?_) rfl rfl
    · exact fun _ => .inr hnode
    · rfl
  | markReady _ hmem _ =>
    refine hs.saveStep hmem ?_ ?_
    · exact fun hin => absurd hin Bool.false_ne_true
    · rfl
  | failDispatch error now _ hmem _ =>
    refine Sane.congr (hs.saveStep hmem ?_ ?_) rfl rfl
    · exact fun hin => absurd hin Bool.false_ne_true
    · rfl

open Runner in
/-- A write keeps the rows sane. -/
theorem Write.sane {G : Guards} (h : Write G r r') (hs : r.Sane) : r'.Sane := by
  cases h with
  | pump hpump => exact hpump.sane hs
  | block now _ =>
    refine hs.saveSteps ?_ ?_
    · exact fun _ => rfl
    · exact fun _ hin => absurd hin Bool.false_ne_true
  | unblock _ =>
    refine Sane.congr (hs.saveSteps ?_ ?_) rfl rfl
    · exact fun _ => rfl
    · exact fun _ hin => absurd hin Bool.false_ne_true
  | reenter _ _ _ _ =>
    refine Sane.congr (hs.saveSteps ?_ ?_) rfl rfl
    · exact fun _ => rfl
    · exact fun _ hin => absurd hin Bool.false_ne_true
  | noteLease since _ hmem hin =>
    refine hs.saveStep hmem ?_ ?_
    · exact fun _ => .inl hin
    · rfl
  | redispatch now _ hmem hin _ _ _ =>
    refine Sane.congr (hs.saveStep hmem ?_ ?_) rfl rfl
    · exact fun _ => .inl hin
    · rfl
  | expire reason budgetLeft now _ hmem hin =>
    refine Sane.congr (hs.saveStep hmem ?_ ?_) rfl rfl
    · exact fun _ => .inl hin
    · rfl
  | failExternally reason now _ hmem _ =>
    refine Sane.congr (hs.saveStep hmem ?_ ?_) rfl rfl
    · intro hin
      unfold Runner.failedExternally at hin
      dsimp only at hin
      split at hin <;> exact absurd hin Bool.false_ne_true
    · rfl
  | progress checkpoint now hmem _ _ =>
    refine hs.saveStep hmem ?_ ?_
    · intro hin
      rw [progressed_inFlight] at hin
      exact .inl hin
    · rfl
  | @report _ input now _ hmem _ _ _ =>
    refine Sane.congr (hs.saveStep hmem ?_ ?_) rfl rfl
    · intro hin
      unfold Runner.reported at hin
      dsimp only at hin
      cases hstatus : input.status <;> rw [hstatus] at hin <;> exact absurd hin Bool.false_ne_true
    · rfl
  | decide verdict now _ hmem _ _ _ _ _ =>
    refine Sane.congr (hs.saveStep hmem ?_ ?_) rfl rfl
    · exact fun hin => absurd hin Bool.false_ne_true
    · rfl
  | budget _ hmem _ _ _ =>
    refine hs.saveStep hmem ?_ ?_
    · exact fun hin => .inl hin
    · rfl
  | skip status now _ hmem _ hstatus _ =>
    refine Sane.congr (hs.saveStep hmem ?_ ?_) rfl rfl
    · rcases hstatus with rfl | rfl <;> exact fun hin => absurd hin Bool.false_ne_true
    · rfl
  | amend input a _ hmem _ =>
    obtain ⟨_, _, _, _, _, _, _, _, _, heq⟩ := amended_revises _ input a
    rw [heq]
    refine hs.saveStep hmem ?_ ?_
    · exact fun hin => .inl hin
    · rfl
  | reassign a _ hmem _ _ =>
    refine Sane.congr (hs.saveStep hmem ?_ ?_) rfl rfl
    · intro hin
      unfold Runner.reopenedBy at hin
      dsimp only at hin
      split at hin
      · exact absurd hin Bool.false_ne_true
      · exact .inl hin
    · rfl
  | @retry step input a _ hmem _ _ _ =>
    obtain ⟨_, _, _, _, _, _, _, _, _, heq⟩ := amended_revises step input a
    refine Sane.congr (hs.saveStep hmem ?_ ?_) rfl rfl
    · exact fun hin => absurd hin Bool.false_ne_true
    · unfold Runner.retried
      rw [heq]
  | plan hplan _ =>
    obtain ⟨haccepted⟩ := acceptPlan_ok hplan
    exact haccepted.sane hs
  | patch hpatch _ =>
    obtain ⟨_, next, hnodup, hkeys, _, rfl⟩ := acceptPatch_ok hpatch
    refine ⟨hs.distinct, hs.named, ?_, ?_, ?_⟩
    · rintro spec ⟨⟩
      exact hnodup
    · rintro spec ⟨⟩ k hk
      exact (hkeys k).mp hk
    · rintro spec ⟨⟩ t ht _
      exact (hkeys _).mpr (Runner.mem_keys ht)
  | life hlife =>
    rcases hlife.frame with hframe | ⟨all, now, hframe⟩
    · exact hs.congr hframe.steps hframe.graph
    · refine Sane.congr ?_ hframe.steps hframe.graph
      refine Sane.congr (hs.saveSteps ?_ ?_) rfl rfl
      · exact fun _ => rfl
      · exact fun _ hin => absurd hin Bool.false_ne_true

/-- Writes of the pump one after the other. -/
abbrev PumpWrites : Runner → Runner → Prop := Relation.ReflTransGen PumpWrite

theorem PumpWrites.sane (h : PumpWrites r r') (hs : r.Sane) : r'.Sane := by
  induction h with
  | refl => exact hs
  | tail _ hwrite ih => exact hwrite.sane ih

/-- Writes one after the other. -/
abbrev Writes (G : Guards) : Runner → Runner → Prop := Relation.ReflTransGen (Write G)

/-- What every write keeps of sane rows holds behind a sequence of writes. -/
theorem Writes.invariant {G : Guards} {P : Runner → Prop} (h : Writes G r r')
    (hstep : ∀ r r', r.Sane → P r → Write G r r' → P r') (hs : r.Sane) (hp : P r) :
    r'.Sane ∧ P r' := by
  induction h with
  | refl => exact ⟨hs, hp⟩
  | tail _ hwrite ih => exact ⟨hwrite.sane ih.1, hstep _ _ ih.1 ih.2 hwrite⟩

theorem Writes.sane {G : Guards} (h : Writes G r r') (hs : r.Sane) : r'.Sane :=
  (h.invariant (P := fun _ => True) (fun _ _ _ _ _ => trivial) hs trivial).1

namespace Runner

/-! ## The pump -/

section Pump

variable {G : Guards} {r : Runner} {s t : Step} {now : Date} {fates : String → DispatchFate}

theorem Distinct.countP_saveStep (hd : r.Distinct) (hmem : s ∈ r.steps)
    (hkey : t.step_key = s.step_key) (p : Step → Bool) :
    (r.saveStep t).steps.countP p + (if p s then 1 else 0) =
      r.steps.countP p + if p t then 1 else 0 := by
  unfold saveStep
  rw [hkey]
  exact countP_replace_key hd hmem p

/-- Whether the step counts towards the load of a key. -/
def loads (key : String) (s : Step) : Bool := s.status.isInFlight && loadKey s = key

theorem loadBySlot_eq (steps : List Step) {key : String} (h : key ≠ "") :
    loadBySlot steps key = steps.countP (loads key) := if_neg h

/-- A save that does not put a step in flight raises no load and no count. -/
theorem Distinct.counts_idle (hd : r.Distinct) (hmem : s ∈ r.steps)
    (hkey : t.step_key = s.step_key) (hidle : t.status.isInFlight = false) :
    (r.saveStep t).inFlightCount ≤ r.inFlightCount ∧
      ∀ key, loadBySlot (r.saveStep t).steps key ≤ loadBySlot r.steps key := by
  have hflight := hd.countP_saveStep hmem hkey (·.status.isInFlight)
  rw [hidle] at hflight
  refine ⟨?_, fun key => ?_⟩
  · unfold inFlightCount
    simp only [Bool.false_eq_true, if_false] at hflight
    omega
  · by_cases hempty : key = ""
    · simp [loadBySlot, hempty]
    · rw [loadBySlot_eq _ hempty, loadBySlot_eq _ hempty]
      have hload := hd.countP_saveStep hmem hkey (loads key)
      have hoff : loads key t = false := by simp [loads, hidle]
      rw [hoff] at hload
      simp only [Bool.false_eq_true, if_false] at hload
      omega

/-- A save that puts a step in flight raises the count and the load of its key by one. -/
theorem Distinct.counts_started (hd : r.Distinct) (hmem : s ∈ r.steps)
    (hkey : t.step_key = s.step_key) :
    (r.saveStep t).inFlightCount ≤ r.inFlightCount + 1 ∧
      ∀ key, loadBySlot (r.saveStep t).steps key ≤
        loadBySlot r.steps key + if key = loadKey t then 1 else 0 := by
  have hflight := hd.countP_saveStep hmem hkey (·.status.isInFlight)
  refine ⟨?_, fun key => ?_⟩
  · unfold inFlightCount
    split at hflight <;> split at hflight <;> omega
  · by_cases hempty : key = ""
    · simp [loadBySlot, hempty]
    · rw [loadBySlot_eq _ hempty, loadBySlot_eq _ hempty]
      have hload := hd.countP_saveStep hmem hkey (loads key)
      by_cases hk : key = loadKey t
      · rw [if_pos hk]
        split at hload <;> split at hload <;> omega
      · have hoff : loads key t = false := by simp [loads, Ne.symm hk]
        rw [hoff] at hload
        simp only [Bool.false_eq_true, if_false] at hload
        rw [if_neg hk]
        omega

/-- The rows that are still to come stay when the first one is saved. -/
theorem rest_saveStep {rest : List Step} (hnd : ((s :: rest).map (·.step_key)).Nodup)
    (hrows : ∀ u ∈ s :: rest, u ∈ r.steps) (hkey : t.step_key = s.step_key) :
    ∀ u ∈ rest, u ∈ (r.saveStep t).steps := by
  intro u hu
  refine mem_saveStep_of_ne (hrows u (List.mem_cons_of_mem _ hu)) fun heq => ?_
  rw [List.map_cons] at hnd
  exact (List.nodup_cons.mp hnd).1 (List.mem_map.mpr ⟨u, hu, heq.trans hkey⟩)

/-- What opening gates leaves behind: the other rows, the mission up to its visits, and no
    more steps in flight. -/
structure Opened (ks : List String) (r r' : Runner) : Prop where
  mission : ∃ n, r'.mission = { r.mission with total_visits := n }
  rows : ∀ t ∈ r.steps, t.step_key ∉ ks → t ∈ r'.steps
  count : r'.inFlightCount ≤ r.inFlightCount
  load : ∀ key, loadBySlot r'.steps key ≤ loadBySlot r.steps key

theorem pumpGates_writes (now : Date) {gates : List Step} (hs : r.Sane)
    (hrun : r.mission.status = .running)
    (hnd : (gates.map (·.step_key)).Nodup) (hrows : ∀ s ∈ gates, s ∈ r.steps)
    (hgates : ∀ s ∈ gates, s.isWaiting = true ∧ isConfirmNode r.mission s.step_key = true) :
    PumpWrites r (pumpGates now gates r) ∧
      Opened (gates.map (·.step_key)) r (pumpGates now gates r) := by
  induction gates generalizing r with
  | nil =>
    exact ⟨.refl, ⟨r.mission.total_visits, rfl⟩, fun t ht _ => ht, Nat.le_refl _,
      fun _ => Nat.le_refl _⟩
  | cons step rest ih =>
    have hmem := hrows step List.mem_cons_self
    obtain ⟨hwaits, hconfirm⟩ := hgates step List.mem_cons_self
    have hnd' : (rest.map (·.step_key)).Nodup := (List.nodup_cons.mp hnd).2
    unfold pumpGates
    by_cases hbudget : hasVisitBudget r.mission = true
    · rw [if_pos hbudget]
      have hwrite : PumpWrite r (r.openConfirmGate step now) :=
        .openGate now hrun hmem hwaits hconfirm hbudget
      obtain ⟨hcount, hload⟩ := hs.distinct.counts_idle hmem
        (t := step.openGate (r.gateEvidence step.step_key) now) rfl rfl
      obtain ⟨hwrites, ⟨n, hmission⟩, hkept, hcount', hload'⟩ := ih (hwrite.sane hs) hrun hnd'
        (rest_saveStep hnd hrows rfl) fun s hs => hgates s (List.mem_cons_of_mem _ hs)
      refine ⟨.head hwrite hwrites, ⟨n, by rw [hmission]; rfl⟩, fun t ht hout => ?_,
        Nat.le_trans hcount' hcount, fun key => Nat.le_trans (hload' key) (hload key)⟩
      rw [List.map_cons, List.mem_cons, not_or] at hout
      exact hkept t (mem_saveStep_of_ne ht hout.1) hout.2
    · rw [if_neg hbudget]
      obtain ⟨hwrites, hmission, hkept, hcount, hload⟩ := ih hs hrun hnd'
        (fun s hs => hrows s (List.mem_cons_of_mem _ hs))
        fun s hs => hgates s (List.mem_cons_of_mem _ hs)
      refine ⟨hwrites, hmission, fun t ht hout => ?_, hcount, hload⟩
      rw [List.map_cons, List.mem_cons, not_or] at hout
      exact hkept t ht hout.2

/-- A step the pump may dispatch. -/
structure Startable (m : Mission) (s : Step) : Prop where
  waits : s.isWaiting = true
  regular : isConfirmNode m s.step_key = false
  node : ∀ spec, m.graph_spec = some spec → s.step_key ∈ nodeKeysOf spec.nodes

/-- Saving a row twice is saving it the second time. -/
theorem saveStep_saveStep (hkey : t.step_key = s.step_key) :
    (r.saveStep s).saveStep t = r.saveStep t := by
  unfold saveStep
  simp only [List.map_map]
  congr 1
  refine List.map_congr_left fun u _ => ?_
  simp only [Function.comp]
  by_cases hu : u.step_key = s.step_key
  · rw [if_pos hu, if_pos hkey.symm, if_pos (hu.trans hkey.symm)]
  · rw [if_neg hu]

/-- The loop of the pump: the steps still to come, the slots left and the loads it counts. -/
structure Pumping (rest : List Step) (r : Runner) (slots : Int) (load : String → Nat) : Prop where
  sane : r.Sane
  running : r.mission.status = .running
  nodup : (rest.map (·.step_key)).Nodup
  rows : ∀ s ∈ rest, s ∈ r.steps
  ready : ∀ s ∈ rest, Startable r.mission s
  slots : (r.inFlightCount : Int) + slots ≤ r.mission.max_parallel_steps
  load : ∀ key, loadBySlot r.steps key ≤ load key

section Loop

variable {rest : List Step} {slots : Int} {load : String → Nat} {r' : Runner}

/-- The loop goes on behind a step that was left where it is. -/
theorem Pumping.skip (h : Pumping (s :: rest) r slots load) : Pumping rest r slots load :=
  ⟨h.sane, h.running, (List.nodup_cons.mp h.nodup).2,
    fun u hu => h.rows u (List.mem_cons_of_mem _ hu),
    fun u hu => h.ready u (List.mem_cons_of_mem _ hu), h.slots, h.load⟩

/-- The loop goes on behind a step that was saved without being in flight. -/
theorem Pumping.idle (h : Pumping (s :: rest) r slots load) (hsane : r'.Sane) (t : Step)
    (hsteps : r'.steps = (r.saveStep t).steps)
    (hmission : ∃ n, r'.mission = { r.mission with total_visits := n })
    (hkey : t.step_key = s.step_key) (hidle : t.status.isInFlight = false) :
    Pumping rest r' slots load := by
  have hmem := h.rows s List.mem_cons_self
  obtain ⟨hcount, hload⟩ := h.sane.distinct.counts_idle hmem hkey hidle
  obtain ⟨n, hmission⟩ := hmission
  refine ⟨hsane, ?_, (List.nodup_cons.mp h.nodup).2, ?_, ?_, ?_, ?_⟩
  · rw [hmission]
    exact h.running
  · rw [hsteps]
    exact rest_saveStep h.nodup h.rows hkey
  · rw [hmission]
    exact fun u hu => ⟨(h.skip.ready u hu).waits, (h.skip.ready u hu).regular,
      (h.skip.ready u hu).node⟩
  · have hslots := h.slots
    have hsame : r'.inFlightCount = (r.saveStep t).inFlightCount := by
      unfold inFlightCount
      rw [hsteps]
    rw [hmission]
    dsimp only
    omega
  · intro key
    rw [hsteps]
    exact Nat.le_trans (hload key) (h.load key)

/-- The loop goes on behind a dispatched step with one slot less. -/
theorem Pumping.started (h : Pumping (s :: rest) r slots load)
    (hsane : (r.stampDispatch s now).Sane) :
    Pumping rest (r.stampDispatch s now) (slots - 1)
      (Function.update load (loadKey s) (load (loadKey s) + 1)) := by
  have hmem := h.rows s List.mem_cons_self
  obtain ⟨hcount, hload⟩ := h.sane.distinct.counts_started hmem (t := r.stamped s now) rfl
  refine ⟨hsane, h.running, (List.nodup_cons.mp h.nodup).2,
    rest_saveStep (t := r.stamped s now) h.nodup h.rows rfl,
    fun u hu => ⟨(h.skip.ready u hu).waits, (h.skip.ready u hu).regular, (h.skip.ready u hu).node⟩,
    ?_, fun key => ?_⟩
  · have hslots := h.slots
    have hsame : (r.stampDispatch s now).inFlightCount =
        (r.saveStep (r.stamped s now)).inFlightCount := rfl
    change ((r.stampDispatch s now).inFlightCount : Int) + _ ≤ r.mission.max_parallel_steps
    omega
  · have hbound := hload key
    have hold := h.load key
    change loadBySlot (r.saveStep (r.stamped s now)).steps key ≤ _
    by_cases hkey : key = loadKey s
    · have hkey' : key = loadKey (r.stamped s now) := hkey
      rw [if_pos hkey'] at hbound
      rw [hkey, Function.update_self, ← hkey]
      omega
    · have hkey' : ¬ key = loadKey (r.stamped s now) := hkey
      rw [if_neg hkey'] at hbound
      rw [Function.update_of_ne hkey]
      omega

end Loop

theorem pumpRegular_writes {rest : List Step} {slots : Int} {load : String → Nat}
    (h : Pumping rest r slots load) : PumpWrites r (pumpRegular now fates rest r slots load) := by
  induction rest generalizing r slots load with
  | nil => exact .refl
  | cons step rest ih =>
    have hmem := h.rows step List.mem_cons_self
    have hstart := h.ready step List.mem_cons_self
    -- a step that stays behind is only marked ready
    have hskip : PumpWrites r (pumpRegular now fates rest (r.markReady step) slots load) := by
      unfold markReady
      split
      · exact ih h.skip
      · have hwrite : PumpWrite r (r.saveStep { step with status := .ready }) :=
          .markReady h.running hmem hstart.waits
        exact .head hwrite (ih (h.idle (hwrite.sane h.sane) _ rfl ⟨_, rfl⟩ rfl rfl))
    unfold pumpRegular
    split
    · exact .refl
    · rename_i hgo
      split
      · exact hskip
      · rename_i hagent
        split
        · exact hskip
        · rename_i hcap
          have hfree : loadBySlot r.steps (loadKey step) <
              slotCap r.mission (step.assignee_slot.getD "") :=
            Nat.lt_of_le_of_lt (h.load _) (Nat.lt_of_not_le hcap)
          have hroom : r.inFlightCount < r.mission.max_parallel_steps := by
            have hslots := h.slots
            omega
          have hbudget : hasVisitBudget r.mission = true := by
            cases hb : hasVisitBudget r.mission with
            | true => rfl
            | false => exact absurd (.inr (by simp [hb])) hgo
          have hwrite : PumpWrite r (r.stampDispatch step now) :=
            .dispatch now h.running hmem hstart.waits hstart.regular hbudget hstart.node hroom hfree
              (by simpa using hagent)
          unfold dispatchStep
          cases fates step.step_key with
          | delivered => exact .head hwrite (ih (h.started (hwrite.sane h.sane)))
          | refused error =>
            have hfail : PumpWrite r (r.failDispatch step error now) :=
              .failDispatch error now h.running hmem (.inl hstart.waits)
            exact .head hfail (ih (h.idle (hfail.sane h.sane) _ rfl ⟨_, rfl⟩ rfl rfl))
          | undelivered error =>
            have hfail : PumpWrite (r.stampDispatch step now)
                ((r.stampDispatch step now).failDispatch (r.stamped step now) error now) :=
              .failDispatch error now h.running (saveStep_mem (s := r.stamped step now)
                (mem_keys (s := step) hmem)) (.inr rfl)
            refine .head hwrite (.head hfail (ih (h.idle (hfail.sane (hwrite.sane h.sane))
              (undelivered (r.stamped step now) error now) ?_ ⟨_, rfl⟩ rfl rfl)))
            change ((r.saveStep (r.stamped step now)).saveStep
              (undelivered (r.stamped step now) error now)).steps = _
            rw [saveStep_saveStep (show (undelivered (r.stamped step now) error now).step_key =
              (r.stamped step now).step_key from rfl)]

theorem pump_pumpWrites (hs : r.Sane) : PumpWrites r (r.pump now fates) := by
  unfold pump
  split
  · exact .refl
  · rename_i hrun
    have hrun := not_not.mp hrun
    dsimp only
    split
    · exact .refl
    · have hnd := hs.nodup_candidates
      have hgates : ∀ s ∈ r.candidates.filter fun s => isConfirmNode r.mission s.step_key,
          s ∈ r.steps ∧ s.isWaiting = true ∧ isConfirmNode r.mission s.step_key = true := by
        intro s hmem
        obtain ⟨hcand, hconfirm⟩ := List.mem_filter.mp hmem
        obtain ⟨hrow, hkey⟩ := mem_candidates hcand
        exact ⟨hrow, hs.distinct.waits_of_mem hrow (.inl hkey), hconfirm⟩
      obtain ⟨hopened, hmoved⟩ := pumpGates_writes now hs hrun
        (hnd.sublist (List.Sublist.map _ List.filter_sublist)) (fun s hmem => (hgates s hmem).1)
        fun s hmem => (hgates s hmem).2
      obtain ⟨n, hmission⟩ := hmoved.mission
      refine hopened.trans (pumpRegular_writes ⟨hopened.sane hs, ?_, ?_, ?_, ?_, ?_, ?_⟩)
      · rw [hmission]
        exact hrun
      · exact hnd.sublist (List.Sublist.map _ List.filter_sublist)
      · intro s hmem
        obtain ⟨hcand, hregular⟩ := List.mem_filter.mp hmem
        refine hmoved.rows s (mem_candidates hcand).1 fun hgate => ?_
        -- a gate with the key would be the step itself
        obtain ⟨g, hg, hkey⟩ := List.mem_map.mp hgate
        obtain rfl := List.inj_on_of_nodup_map hnd (List.mem_of_mem_filter hg) hcand hkey
        simp [(hgates g hg).2.2] at hregular
      · intro s hmem
        obtain ⟨hcand, hregular⟩ := List.mem_filter.mp hmem
        obtain ⟨hrow, hkey⟩ := mem_candidates hcand
        have hregular : isConfirmNode r.mission s.step_key = false := by simpa using hregular
        rw [hmission]
        exact ⟨hs.distinct.waits_of_mem hrow (.inl hkey), hregular,
          fun spec hspec => node_of_dispatchable hspec hkey⟩
      · have hcount := hs.inFlightCount_le
        have hgate := hmoved.count
        rw [hmission]
        dsimp only
        omega
      · exact hmoved.load

/-- The pump is a list of writes. -/
theorem pump_writes (hs : r.Sane) : Writes G r (r.pump now fates) :=
  (pump_pumpWrites hs).lift id fun _ _ h => Write.pump h

/-- Whether the end of a step sends the step with a key back. -/
def GoesBack (m : Mission) (step : Step) (key : String) : Prop :=
  ∃ spec loop, m.graph_spec = some spec ∧
    loop ∈ firedLoopBacks spec step.step_key step.nodeState ∧ key ∈ loopBodyNodes spec.edges loop

/-- The fired loops send their bodies back, each step once. -/
theorem applyGraphTransitions_writes (step : Step) (hopen : r.mission.status.isTerminal = false)
    (hback : ∀ t ∈ r.steps, GoesBack r.mission step t.step_key → G.back t) :
    Writes G r (r.applyGraphTransitions step) ∧
      (r.applyGraphTransitions step).mission = r.mission := by
  unfold applyGraphTransitions
  split
  · exact ⟨.refl, rfl⟩
  · rename_i spec hspec
    have hloops : ∀ (loops : List GraphEdge) (acc : Runner × List String),
        (∀ loop ∈ loops, loop ∈ firedLoopBacks spec step.step_key step.nodeState) →
        Writes G r acc.1 ∧ acc.1.mission = r.mission ∧
          (∀ t ∈ acc.1.steps, t.step_key ∉ acc.2 → t ∈ r.steps) →
        Writes G r (loops.foldl (reenterLoop spec) acc).1 ∧
          (loops.foldl (reenterLoop spec) acc).1.mission = r.mission := by
      intro loops
      induction loops with
      | nil => exact fun acc _ h => ⟨h.1, h.2.1⟩
      | cons loop loops ih =>
        intro acc hfired h
        rw [List.foldl_cons]
        refine ih _ (fun l hl => hfired l (List.mem_cons_of_mem _ hl)) ?_
        obtain ⟨hwrites, hmission, hrows⟩ := h
        unfold reenterLoop
        split
        · split
          · exact ⟨hwrites, hmission, hrows⟩
          · dsimp only
            refine ⟨hwrites.tail (.reenter ?_ (hmission ▸ hspec) ?_ ?_), hmission, ?_⟩
            · rw [hmission]
              exact hopen
            · intro key hbody
              obtain ⟨_, hnew⟩ := List.mem_filter.mp hbody
              simp only [decide_eq_true_eq] at hnew
              exact stepOf_isSome.mp hnew.2
            · intro t ht hbody
              obtain ⟨hloop, hnew⟩ := List.mem_filter.mp hbody
              simp only [decide_eq_true_eq] at hnew
              exact hback t (hrows t ht hnew.1)
                ⟨spec, loop, hspec, hfired loop List.mem_cons_self, hloop⟩
            · intro t ht hout
              rw [List.mem_append, not_or] at hout
              obtain ⟨u, hu, ⟨hin, rfl⟩ | ⟨_, rfl⟩⟩ := mem_saveSteps ht
              · exact absurd (of_decide_eq_true hin) hout.2
              · exact hrows t hu hout.1
        · exact ⟨hwrites, hmission, hrows⟩
    exact hloops _ (r, []) (fun _ h => h) ⟨.refl, rfl, fun t ht _ => ht⟩

/-- What follows the end of a step writes blocks and what the pump writes. -/
theorem settle_writes (hs : r.Sane) (hopen : r.mission.status.isTerminal = false) :
    Writes G r (r.settle now fates) := by
  have hwrite : Write G r (r.propagateBlocking now) := .block now hopen
  exact .head hwrite (pump_writes (hwrite.sane hs))

end Pump

end Runner

end WorkflowBoard.Orchestration
