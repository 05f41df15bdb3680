import WorkflowBoard.ForStd.History
import WorkflowBoard.Spec.MissionCalls

/-!
# What a write does to one row

The laws about a single step speak of its row and of what the history says about it. Every
write changes each row in one of a few ways and adds what belongs to that change to the
history of the step (`RowWrite`); a plan also rewrites rows that have not started and adds
new ones. A property of a row and its history that each of these changes keeps is an
invariant of the mission (`Rowwise.write`).
-/

namespace WorkflowBoard.Orchestration

/-! ## The history of a step -/

/-- What the history says about a step. -/
def about (key : String) (log : List Effect) : List Effect := log.filter (·.stepKey = some key)

theorem about_append (key : String) (log es : List Effect) :
    about key (log ++ es) = about key log ++ about key es := List.filter_append _ _

variable {key : String}

theorem about_of_forall {es : List Effect}
    (h : ∀ e ∈ es, e.stepKey = some key) : about key es = es :=
  List.filter_eq_self.mpr fun e he => decide_eq_true (h e he)

theorem about_of_forall_ne {es : List Effect}
    (h : ∀ e ∈ es, e.stepKey ≠ some key) : about key es = [] :=
  List.filter_eq_nil_iff.mpr fun e he => by simpa using h e he

theorem about_map {f : String → Effect} (hf : ∀ k, (f k).stepKey = some k) (key : String)
    (ks : List String) : about key (ks.map f) = List.replicate (ks.count key) (f key) := by
  induction ks with
  | nil => rfl
  | cons k ks ih =>
    rw [List.map_cons, ← List.singleton_append, about_append, ih, List.count_cons]
    by_cases hk : k = key
    · rw [about_of_forall (by simpa [hk] using hf key), if_pos (by simpa using hk), hk,
        List.replicate_succ, List.singleton_append]
    · have hne : ∀ e ∈ [f k], e.stepKey ≠ some key := by
        simpa [hf] using hk
      rw [about_of_forall_ne hne, if_neg (by simpa using hk), List.nil_append, Nat.add_zero]

theorem mem_about {log : List Effect} {e : Effect} :
    e ∈ about key log ↔ e ∈ log ∧ e.stepKey = some key := by
  simp [about]

theorem latest_about {p : Effect → Bool} {log : List Effect} {e : Effect} :
    latest p (about key log) = some e ↔ (p e = true ∧ e.stepKey = some key) ∧
      ∃ pre post, log = pre ++ e :: post ∧ ∀ x ∈ post, x.stepKey = some key → p x = false := by
  have hboth : latest p (about key log) =
      latest (fun e => p e && e.stepKey = some key) log := by
    rw [latest, about, List.filter_filter, latest]
  rw [hboth, latest_eq_some]
  simp only [Bool.and_eq_true, decide_eq_true_eq, Bool.and_eq_false_iff, decide_eq_false_iff_not,
    imp_iff_not_or, or_comm]

/-! ## Changes of a row -/

open Runner in
/-- What one write does to a row, and what it adds to the history of the step. -/
inductive RowWrite (G : Guards) (r : Runner) (s : Step) : Step → List Effect → Prop where
  | keep : RowWrite G r s s []
  | openGate (artifacts : List Artifact) (now : Date) :
      s.isWaiting = true → isConfirmNode r.mission s.step_key = true →
      RowWrite G r s (s.openGate artifacts now) [.opened s.step_key (max s.visit 1)]
  | dispatch (now : Date) :
      s.isWaiting = true → isConfirmNode r.mission s.step_key = false →
      RowWrite G r s (r.stamped s now) [.dispatched s.step_key r.tokens (max s.visit 1)]
  | markReady : s.isWaiting = true → RowWrite G r s { s with status := .ready } []
  | failDispatch (error : String) (now : Date) :
      s.isWaiting = true ∨ s.status = .dispatched →
      RowWrite G r s (undelivered s error now) [.ended s.step_key]
  | block (now : Date) : s.isWaiting = true → RowWrite G r s (s.block now) []
  | unblock {n : Nat} : isAutoBlocked s = true → 0 < n →
      RowWrite G r s s.unblock (List.replicate n (.unblocked s.step_key))
  | reenter {n : Nat} : G.back s → 0 < n →
      RowWrite G r s s.reenter (List.replicate n (.ended s.step_key))
  | noteLease (since : Option Date) : s.status.isInFlight = true →
      RowWrite G r s { s with lease_stale_since := since } []
  | redispatch (now : Date) : s.status.isInFlight = true → s.retry_policy = .auto →
      s.attempt < s.max_attempts →
      RowWrite G r s (r.stamped s now) [.dispatched s.step_key r.tokens (max s.visit 1)]
  | expire (reason : String) (budgetLeft : Bool) (now : Date) : s.status.isInFlight = true →
      RowWrite G r s (unrecoverable s reason budgetLeft now) [.ended s.step_key]
  | failExternally (reason : String) (now : Date) : s.status.isTerminal = false →
      RowWrite G r s (failedExternally s reason now) [.ended s.step_key]
  | progress {leaseToken : Option Nat} (checkpoint : Option String) (now : Date) :
      s.status.isTerminal = false → requireFreshLease s leaseToken = .ok () →
      RowWrite G r s (progressed s checkpoint now) []
  | report {input : StepReport} (now : Date) :
      s.status.isTerminal = false → requireFreshLease s input.lease_token = .ok () →
      G.report r.mission s input → RowWrite G r s (reported s input now) [.ended s.step_key]
  | decide (verdict : ConfirmVerdict) {input : ConfirmInput} (now : Date) :
      isConfirmNode r.mission s.step_key = true → s.status = .awaiting_user →
      1 ≤ input.visit → input.visit = s.visit →
      (∀ prior, s.confirm_decision = some prior → input.visit ≠ prior.visit) →
      RowWrite G r s (decided s verdict input now)
        [.decided s.step_key s.visit verdict, .routed s.step_key]
  | budget {max_attempts : Nat} : 1 ≤ max_attempts → s.attempt ≤ max_attempts →
      G.budget s max_attempts → RowWrite G r s { s with max_attempts } []
  | skip (status : StepStatus) (now : Date) : s.status.isInFlight = false →
      status = .skipped ∨ status = .cancelled → G.update s →
      RowWrite G r s { s with status, finished_at := some now } [.ended s.step_key]
  | amend (input : StepUpdate) (a : PlanAssignment) : s.status.isInFlight = false →
      RowWrite G r s (reassigned (reworded s input) a) []
  | reassign (a : Assignment) : s.status.isInFlight = false → G.reassign s →
      RowWrite G r s (reopenedBy s a) [.redone s.step_key]
  | retry (input : StepUpdate) (a : PlanAssignment) : s.status.isInFlight = false →
      s.attempt < s.max_attempts → G.update s →
      RowWrite G r s (retried s input a) [.redone s.step_key]
  | cancel {n : Nat} (now : Date) : s.status.isTerminal = false → 0 < n →
      RowWrite G r s { s with status := .cancelled, finished_at := some now }
        (List.replicate n (.ended s.step_key))

/-- The change of a row with the change of the mission around it: the graph stays, or a plan
    or a patch is accepted. -/
inductive RowStep (G : Guards) (r r' : Runner) (s : Step) : Step → List Effect → Prop where
  | write {t : Step} {es : List Effect} :
      r'.mission.graph_spec = r.mission.graph_spec → RowWrite G r s t es → RowStep G r r' s t es
  | plan {input : PlanInput} {t : Step} {n : Nat} : G.plan r input r' → t.Revises s →
      (s.isUntouchable = true → ∃ position, t = { s with position }) →
      (0 < n → s.step_key ∈ r.declaredManual input) →
      RowStep G r r' s t (List.replicate n (.declared s.step_key))
  | patch : G.patch r r' → RowStep G r r' s s []

/-- A row that a plan adds; a declared one is manual. -/
inductive FreshRow (G : Guards) (r r' : Runner) : Step → List Effect → Prop where
  | mk {input : PlanInput} {s : PlanStep} {a : PlanAssignment} {i m n : Nat} : G.plan r input r' →
      0 < m → (0 < n → s.retry_policy = some .manual) →
      FreshRow G r r' (Runner.newStep (r.mission.plan_version + 1) s a i)
        (List.replicate m (.added s.key) ++ List.replicate n (.declared s.key))

/-- Where a row behind a write comes from. -/
def Origin (G : Guards) (r r' : Runner) (t : Step) : Prop :=
  (∃ s ∈ r.steps, s.step_key = t.step_key ∧ ∃ es, RowStep G r r' s t es ∧
    about t.step_key r'.log = about t.step_key r.log ++ es) ∨
  (t.step_key ∉ r.keys ∧ ∃ es, FreshRow G r r' t es ∧
    about t.step_key r'.log = about t.step_key r.log ++ es)

/-- The rows behind a write. -/
structure Grown (G : Guards) (r r' : Runner) : Prop where
  origin : ∀ t ∈ r'.steps, Origin G r r' t
  kept : ∀ key ∈ r.keys, key ∈ r'.keys
  unseen : ∀ key, key ∉ r'.keys → about key r'.log = about key r.log

section Grown

variable {G : Guards} {r r' : Runner} {s t : Step} {es : List Effect}

/-- One row was saved, and everything the history gained is about it. -/
theorem grown_of_saved (hmem : s ∈ r.steps) (hsteps : r'.steps = (r.saveStep t).steps)
    (hgraph : r'.mission.graph_spec = r.mission.graph_spec) (hlog : r'.log = r.log ++ es)
    (hes : ∀ e ∈ es, e.stepKey = some s.step_key) (hrow : RowWrite G r s t es)
    (hkey : t.step_key = s.step_key) : Grown G r r' := by
  have hkeys : r'.keys = r.keys := by
    unfold Runner.keys
    rw [hsteps]
    exact Runner.keys_saveStep
  have hother : ∀ key, key ≠ s.step_key → about key r'.log = about key r.log := by
    intro key hne
    have hnone : ∀ e ∈ es, e.stepKey ≠ some key := by
      intro e he heq
      rw [hes e he] at heq
      exact hne (Option.some.inj heq).symm
    rw [hlog, about_append, about_of_forall_ne hnone, List.append_nil]
  refine ⟨fun u hu => ?_, fun key hk => by rwa [hkeys], fun key hk => ?_⟩
  · rw [hsteps] at hu
    rcases Runner.mem_saveStep hu with rfl | ⟨hu, hne⟩
    · refine .inl ⟨s, hmem, hkey.symm, es, .write hgraph hrow, ?_⟩
      rw [hlog, about_append, hkey, about_of_forall hes]
    · refine .inl ⟨u, hu, rfl, [], .write hgraph .keep, ?_⟩
      rw [List.append_nil]
      exact hother _ (hkey ▸ hne)
  · rw [hkeys] at hk
    refine hother key fun heq => hk ?_
    rw [heq]
    exact Runner.mem_keys hmem

variable {p : Step → Bool}

/-- Rows were saved together, with one effect for each key of a list. -/
theorem grown_of_savedAll {f : Step → Step} {e : String → Effect}
    (ks : List String) (rest : List Effect) (hsteps : r'.steps = (r.saveSteps p f).steps)
    (hgraph : r'.mission.graph_spec = r.mission.graph_spec)
    (hlog : r'.log = r.log ++ ks.map e ++ rest) (hrest : ∀ e ∈ rest, e.stepKey = none)
    (he : ∀ k, (e k).stepKey = some k) (hf : ∀ t, (f t).step_key = t.step_key)
    (hks : ∀ k ∈ ks, k ∈ r.keys)
    (hrow : ∀ s ∈ r.steps, p s = true →
      RowWrite G r s (f s) (List.replicate (ks.count s.step_key) (e s.step_key)))
    (hout : ∀ s ∈ r.steps, p s = false → s.step_key ∉ ks) : Grown G r r' := by
  have hkeys : r'.keys = r.keys := by
    unfold Runner.keys
    rw [hsteps]
    exact Runner.keys_saveSteps hf
  have habout : ∀ key, about key r'.log =
      about key r.log ++ List.replicate (ks.count key) (e key) := by
    intro key
    have hnone : ∀ e ∈ rest, e.stepKey ≠ some key := fun e he h => by
      rw [hrest e he] at h
      cases h
    rw [hlog, about_append, about_append, about_map he, about_of_forall_ne hnone, List.append_nil]
  refine ⟨fun u hu => ?_, fun key hk => by rwa [hkeys], fun key hk => ?_⟩
  · rw [hsteps] at hu
    obtain ⟨v, hv, ⟨hp, rfl⟩ | ⟨hp, rfl⟩⟩ := Runner.mem_saveSteps hu
    · refine .inl ⟨v, hv, (hf v).symm, _, .write hgraph (hrow v hv hp), ?_⟩
      rw [habout, hf v]
    · refine .inl ⟨u, hv, rfl, [], .write hgraph .keep, ?_⟩
      rw [habout, List.count_eq_zero_of_not_mem (hout u hv hp)]
      rfl
  · rw [hkeys] at hk
    rw [habout, List.count_eq_zero_of_not_mem fun hmem => hk (hks key hmem)]
    exact List.append_nil _

theorem grown_of_framed (h : Framed r r') : Grown G r r' := by
  obtain ⟨es, hlog, hes⟩ := h.log
  refine grown_of_savedAll (p := fun _ => false) (f := id) (e := .ended) [] es
    ?_ h.graph ?_ hes (fun _ => rfl) (fun _ => rfl) nofun
    (fun _ _ hp => by cases hp) fun _ _ _ hk => by cases hk
  · rw [h.steps]
    exact (List.map_id' _).symm
  · rw [hlog, List.map_nil, List.append_nil]

/-- The rows that a predicate picks have their keys among the picked keys. -/
theorem mem_pickedKeys (hd : r.Distinct) (hs : s ∈ r.steps) :
    s.step_key ∈ (r.steps.filter p).map (·.step_key) ↔ p s = true := by
  constructor
  · intro h
    obtain ⟨u, hu, hkey⟩ := List.mem_map.mp h
    obtain ⟨hu, hp⟩ := List.mem_filter.mp hu
    rwa [hd.eq hs hu hkey.symm]
  · exact fun hp => List.mem_map.mpr ⟨s, List.mem_filter.mpr ⟨hs, hp⟩, rfl⟩

theorem pickedKeys_sub :
    ∀ k ∈ (r.steps.filter p).map (·.step_key), k ∈ r.keys := by
  intro k hk
  obtain ⟨u, hu, rfl⟩ := List.mem_map.mp hk
  exact Runner.mem_keys (List.mem_of_mem_filter hu)

theorem closes_not_terminal {all : Bool} (h : closes all s = true) :
    s.status.isTerminal = false := by
  unfold closes at h
  cases all with
  | true => simpa using h
  | false => exact not_terminal_of_inFlight (by simpa using h)

/-- An operation on the mission cancels rows or leaves them. -/
theorem LifeWrite.grown (h : LifeWrite G r r') (hs : r.Sane) : Grown G r r' := by
  rcases h.frame with hframe | ⟨all, now, hframe⟩
  · exact grown_of_framed hframe
  · obtain ⟨es, hlog, hes⟩ := hframe.log
    refine grown_of_savedAll (p := closes all)
      (f := fun s => { s with status := .cancelled, finished_at := some now }) (e := .ended)
      ((r.steps.filter (closes all)).map (·.step_key)) es hframe.steps hframe.graph
      ?_ hes (fun _ => rfl) (fun _ => rfl) pickedKeys_sub ?_ ?_
    · rw [hlog, List.map_map]
      rfl
    · intro s hmem hp
      exact .cancel now (closes_not_terminal hp)
        (List.count_pos_iff.mpr ((mem_pickedKeys hs.distinct hmem).mpr hp))
    · intro s hmem hp hk
      rw [(mem_pickedKeys hs.distinct hmem).mp hk] at hp
      cases hp

theorem grown_of_accepted {input : PlanInput} (h : Runner.Accepted r input r') (hs : r.Sane)
    (hguard : G.plan r input r') : Grown G r r' := by
  have habout : ∀ key, about key r'.log = about key r.log ++
      (List.replicate ((r.addedKeys h.planned).count key) (.added key) ++
        List.replicate ((r.declaredManual input).count key) (.declared key)) := by
    intro key
    rw [h.log, about_append, about_append, about_map fun _ => rfl, about_map fun _ => rfl]
  have hdeclared : ∀ key ∈ r.declaredManual input, key ∈ r'.keys := by
    intro key hk
    obtain ⟨s, hmem, rfl⟩ := List.mem_map.mp hk
    rw [h.mem_keys hs.named, ← h.planned_keys, h.planned_keys]
    obtain ⟨_, _, hperm, _, _⟩ := Runner.validated_ok h.validated
    exact hperm.mem_iff.mpr (List.mem_map.mpr
      ⟨s, Runner.mem_merged.mpr (.inr (List.mem_of_mem_filter hmem)), rfl⟩)
  have hnew : ∀ key ∈ r.keys, (r.addedKeys h.planned).count key = 0 := fun key hk =>
    List.count_eq_zero_of_not_mem fun hadded => (h.mem_added.mp hadded).2 hk
  refine ⟨fun t ht => ?_, fun key hk => ?_, fun key hk => ?_⟩
  · have hstored : ∀ found ∈ r.steps, t.Revises found →
        (found.isUntouchable = true → ∃ position, t = { found with position }) →
        Origin G r r' t := by
      intro found hfound hrev hstarted
      have hkey : t.step_key = found.step_key := by
        obtain ⟨_, _, _, _, _, _, _, _, _, rfl⟩ := hrev
        rfl
      have hrow : RowStep G r r' found t (List.replicate
          ((r.declaredManual input).count found.step_key) (.declared found.step_key)) :=
        .plan hguard hrev hstarted fun hn => List.count_pos_iff.mp hn
      refine .inl ⟨found, hfound, hkey.symm, _, hrow, ?_⟩
      · rw [habout, hkey, hnew _ (Runner.mem_keys hfound)]
        rfl
    rcases h.row hs.named ht with ⟨s, a, i, hplan, hnone, rfl⟩ |
      ⟨found, hfound, _, huntouched, hrev⟩ | ⟨found, hfound, _, i, rfl⟩
    · have hfresh : s.key ∉ r.keys := by
        intro hmem
        have hsome := Runner.stepOf_isSome.mpr hmem
        rw [hnone] at hsome
        cases hsome
      rw [Origin, Runner.newStep_key]
      refine .inr ⟨hfresh, _, .mk hguard ?_ fun hn => ?_, habout s.key⟩
      · refine List.count_pos_iff.mpr (h.mem_added.mpr ⟨?_, hfresh⟩)
        exact List.mem_map.mpr ⟨s, hplan, rfl⟩
      · -- the submitted step with the key is the planned one
        obtain ⟨s', hs', hkey⟩ := List.mem_map.mp (List.count_pos_iff.mp hn)
        obtain ⟨hsub, hmanual⟩ := List.mem_filter.mp hs'
        obtain ⟨hnd, _, _, hmerged, _⟩ := Runner.validated_ok h.validated
        obtain rfl := List.inj_on_of_nodup_map hnd (Runner.mem_merged.mpr (.inr hsub))
          (hmerged s hplan) hkey
        simp only [decide_eq_true_eq] at hmanual
        exact hmanual.1
    · exact hstored found hfound hrev fun hstarted => by
        rw [huntouched] at hstarted
        cases hstarted
    · exact hstored found hfound ⟨_, _, _, _, _, _, _, _, _, rfl⟩ fun _ => ⟨i, rfl⟩
  · rw [h.keys]
    exact List.mem_append_left _ hk
  · have hadded : key ∉ r.addedKeys h.planned := fun hmem => hk (by
      rw [h.keys]
      exact List.mem_append_right _ hmem)
    rw [habout, List.count_eq_zero_of_not_mem hadded,
      List.count_eq_zero_of_not_mem fun hmem => hk (hdeclared key hmem)]
    exact List.append_nil _

/-! ## Writes row by row -/

open Runner in
theorem PumpWrite.grown (h : PumpWrite r r') : Grown G r r' := by
  cases h with
  | openGate now _ hmem hwaits hconfirm _ =>
    refine grown_of_saved hmem rfl rfl rfl ?_ (.openGate _ now hwaits hconfirm) rfl
    simp [Effect.stepKey]
  | dispatch now _ hmem hwaits hregular _ _ _ _ _ =>
    refine grown_of_saved hmem rfl rfl rfl ?_ (.dispatch now hwaits hregular) rfl
    simp [Effect.stepKey]
  | markReady _ hmem hwaits =>
    refine grown_of_saved hmem rfl rfl (List.append_nil _).symm ?_ (.markReady hwaits) rfl
    simp
  | failDispatch error now _ hmem hstatus =>
    refine grown_of_saved hmem rfl rfl rfl ?_ (.failDispatch error now hstatus) rfl
    simp [Effect.stepKey]

open Runner in
/-- The rows behind a write, each from a row before it or new. -/
theorem Write.grown (h : Write G r r') (hs : r.Sane) : Grown G r r' := by
  cases h with
  | pump hpump => exact hpump.grown
  | block now _ =>
    refine grown_of_savedAll (e := .ended) [] [] rfl rfl ?_
      nofun (fun _ => rfl) (fun _ => rfl) nofun (fun s hmem hp => ?_)
      fun _ _ _ hk => by cases hk
    · simp [propagateBlocking, saveSteps]
    · have hp := of_decide_eq_true hp
      exact .block now (hs.distinct.waits_of_mem hmem (.inr hp.1))
  | unblock _ =>
    let hypothetical := r.steps.map fun s =>
      if isAutoBlocked s then { s with status := .pending } else s
    let restored := fun s : Step =>
      isAutoBlocked s && s.step_key ∉ (progressOf r.mission hypothetical).newlyBlocked
    refine grown_of_savedAll (e := .unblocked) (p := restored) (f := Step.unblock)
      ((r.steps.filter restored).map (·.step_key)) [] rfl rfl ?_ nofun
      (fun _ => rfl) (fun _ => rfl) pickedKeys_sub (fun s hmem hp => ?_) fun s hmem hp hk => ?_
    · rw [List.append_nil, List.map_map]
      rfl
    · refine .unblock ?_ (List.count_pos_iff.mpr ((mem_pickedKeys hs.distinct hmem).mpr hp))
      exact (Bool.and_eq_true_iff.mp hp).1
    · rw [(mem_pickedKeys hs.distinct hmem).mp hk] at hp
      cases hp
  | @reenter spec body _ _ hbody hback =>
    refine grown_of_savedAll (e := .ended) body [] rfl rfl
      (List.append_nil _).symm nofun (fun _ => rfl) (fun _ => rfl) hbody
      (fun s hmem hp => ?_) fun s _ hp hk => ?_
    · have hin := of_decide_eq_true hp
      exact .reenter (hback s hmem hin) (List.count_pos_iff.mpr hin)
    · exact of_decide_eq_false hp hk
  | noteLease since _ hmem hin =>
    refine grown_of_saved hmem rfl rfl (List.append_nil _).symm ?_ (.noteLease since hin) rfl
    simp
  | redispatch now _ hmem hin hauto hleft _ =>
    refine grown_of_saved hmem rfl rfl rfl ?_ (.redispatch now hin hauto hleft) rfl
    simp [Effect.stepKey]
  | expire reason budgetLeft now _ hmem hin =>
    refine grown_of_saved hmem rfl rfl rfl ?_ (.expire reason budgetLeft now hin) rfl
    simp [Effect.stepKey]
  | failExternally reason now _ hmem hlive =>
    refine grown_of_saved hmem rfl rfl rfl ?_ (.failExternally reason now hlive) rfl
    simp [Effect.stepKey]
  | progress checkpoint now hmem hlive hlease =>
    refine grown_of_saved hmem rfl rfl (List.append_nil _).symm ?_
      (.progress checkpoint now hlive hlease) rfl
    simp
  | report now _ hmem hlive hlease hguard =>
    refine grown_of_saved hmem rfl rfl rfl ?_ (.report now hlive hlease hguard) rfl
    simp [Effect.stepKey]
  | decide verdict now _ hmem hconfirm hawait hlo hvisit hprior =>
    refine grown_of_saved hmem rfl rfl (List.append_assoc _ _ _) ?_
      (.decide verdict now hconfirm hawait hlo hvisit hprior) rfl
    simp [Effect.stepKey]
  | budget _ hmem hlo hused hguard =>
    refine grown_of_saved hmem rfl rfl (List.append_nil _).symm ?_ (.budget hlo hused hguard) rfl
    simp
  | skip status now _ hmem hidle hstatus hguard =>
    refine grown_of_saved hmem rfl rfl rfl ?_ (.skip status now hidle hstatus hguard) rfl
    simp [Effect.stepKey]
  | @amend step input a _ hmem hidle =>
    obtain ⟨_, _, _, _, _, _, _, _, _, heq⟩ := amended_revises step input a
    refine grown_of_saved hmem rfl rfl (List.append_nil _).symm ?_ (.amend input a hidle) ?_
    · simp
    · rw [heq]
  | reassign a _ hmem hidle hguard =>
    refine grown_of_saved hmem rfl rfl rfl ?_ (.reassign a hidle hguard) rfl
    simp [Effect.stepKey]
  | @retry step input a _ hmem hidle hleft hguard =>
    obtain ⟨_, _, _, _, _, _, _, _, _, heq⟩ := amended_revises step input a
    refine grown_of_saved hmem rfl rfl rfl ?_ (.retry input a hidle hleft hguard) ?_
    · simp [Effect.stepKey]
    · unfold Runner.retried
      rw [heq]
  | plan hplan hguard =>
    obtain ⟨haccepted⟩ := acceptPlan_ok hplan
    exact grown_of_accepted haccepted hs hguard
  | patch hpatch hguard =>
    obtain ⟨_, _, _, _, _, rfl⟩ := acceptPatch_ok hpatch
    refine ⟨fun t ht => ?_, fun _ hk => hk, fun _ _ => rfl⟩
    exact .inl ⟨t, ht, rfl, [], .patch hguard, (List.append_nil _).symm⟩
  | life hlife => exact hlife.grown hs

end Grown

/-! ## Properties of a row and its history -/

/-- Every row has the property, given the mission and the history of the step; a step without
    a row has no history. -/
structure Rowwise (I : Mission → Step → List Effect → Prop) (r : Runner) : Prop where
  row : ∀ t ∈ r.steps, I r.mission t (about t.step_key r.log)
  unseen : ∀ key, key ∉ r.keys → about key r.log = []

section Rowwise

variable {G : Guards} {r r' : Runner} {I : Mission → Step → List Effect → Prop}

/-- A property that each change of a row keeps, and that new rows have, is kept by a write. -/
theorem Rowwise.write (h : Rowwise I r) (hw : Write G r r') (hs : r.Sane)
    (hrow : ∀ s ∈ r.steps, ∀ t es, I r.mission s (about s.step_key r.log) → RowStep G r r' s t es →
      I r'.mission t (about s.step_key r.log ++ es))
    (hfresh : ∀ t es, FreshRow G r r' t es → I r'.mission t es) : Rowwise I r' := by
  have hgrown := hw.grown hs
  refine ⟨fun t ht => ?_, fun key hk => ?_⟩
  · rcases hgrown.origin t ht with ⟨s, hmem, hkey, es, hstep, hlog⟩ | ⟨hnew, es, hstep, hlog⟩
    · rw [hlog, ← hkey]
      exact hrow s hmem t es (h.row s hmem) hstep
    · rw [hlog, h.unseen _ hnew, List.nil_append]
      exact hfresh t es hstep
  · rw [hgrown.unseen key hk]
    exact h.unseen key fun hold => hk (hgrown.kept key hold)

theorem rowwise_createMission {input : MissionInput} (h : createMission input = some r) :
    Rowwise I r := by
  obtain ⟨_, _, _, hsteps, _, hlog⟩ := Runner.createMission_ok h
  refine ⟨fun t ht => ?_, fun key _ => ?_⟩
  · rw [hsteps] at ht
    cases ht
  · rw [hlog]
    rfl

end Rowwise

end WorkflowBoard.Orchestration
