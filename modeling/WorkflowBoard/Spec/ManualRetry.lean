import WorkflowBoard.Spec.RowWrites

/-!
# Steps that must not run twice

A step with the policy `manual` is dispatched again only when the orchestrator retries or
reassigns it. Its row never loses the policy, and the reconciler leaves such a step in
`needs_recovery`. Three things break the law: the merge of a plan ignores the policy that a
submission declares for a row it already has; a step that was auto-blocked once and retried
keeps the flag, so that a report of `blocked` lets the engine release and dispatch it again;
and the loop of a graph sends a step in `needs_recovery` back. Without them each visit has one
attempt.
-/

namespace WorkflowBoard.Orchestration

/-! ## Attempts in the history of a step -/

/-- The effects that start an attempt or allow another one. -/
def Effect.turnsRetry : Effect → Bool
  | .dispatched .. | .redone _ => true
  | _ => false

/-- A declared step is dispatched for a later visit than before, unless it was redone since. -/
def ManualLaw (pre : List Effect) : Effect → Prop
  | .dispatched key _ visit => .declared key ∈ pre → ∀ k lease v,
      latest Effect.turnsRetry pre = some (.dispatched k lease v) → v < visit
  | _ => True

/-- The pump may take the step, now or once it is unblocked. -/
def mayStart (s : Step) : Bool := s.isWaiting || isAutoBlocked s

/-- A declared step is manual. A manual step that was dispatched and not redone since is in its
    visit or a later one, and in a later one if the pump may take it. -/
structure ManualInv (_ : Mission) (t : Step) (es : List Effect) : Prop where
  law : Each ManualLaw es
  declared : ∀ key, .declared key ∈ es → t.retry_policy = .manual
  spent : t.retry_policy = .manual → ∀ key lease visit,
    latest Effect.turnsRetry es = some (.dispatched key lease visit) →
      visit ≤ t.visit ∧ (mayStart t = true → visit < t.visit)

/-- A submission that declares a step manual adds it, or its row is manual already. -/
def DeclaresNew (r : Runner) (input : PlanInput) : Prop :=
  ∀ t ∈ r.steps, t.step_key ∈ r.declaredManual input → t.retry_policy = .manual

/-- The guard of this module: declarations reach their rows, no manual step that still has the
    mark of an automatic block is reported as blocked, and no loop sends back a manual step that
    needs recovery. -/
def manualGuards : Guards :=
  { plan := fun r input _ => DeclaresNew r input
    report := fun _ s input =>
      s.retry_policy = .manual → input.status = .blocked → s.auto_blocked = false
    back := fun s => s.retry_policy = .manual → s.status ≠ .needs_recovery }

section ManualInv

variable {r r' : Runner} {m m' : Mission} {s t : Step} {es es' : List Effect}

/-- The effects that no attempt notices. -/
def Idle (es : List Effect) : Prop :=
  ∀ e ∈ es, e.turnsRetry = false ∧ ∀ key, e ≠ .declared key

theorem idle_nil : Idle [] := nofun

theorem idle_one {e : Effect} (h : e.turnsRetry = false ∧ ∀ key, e ≠ .declared key) : Idle [e] := by
  intro x hx
  rwa [List.mem_singleton.mp hx]

theorem idle_replicate {n : Nat} {e : Effect}
    (h : e.turnsRetry = false ∧ ∀ key, e ≠ .declared key) : Idle (List.replicate n e) := by
  intro x hx
  rwa [List.eq_of_mem_replicate hx]

theorem law_idle (h : Each ManualLaw es) (hes : ∀ e ∈ es', e.turnsRetry = false) :
    Each ManualLaw (es ++ es') := by
  refine h.append_of_forall fun e he pre => ?_
  have hidle := hes e he
  cases e with
  | dispatched => cases hidle
  | _ => trivial

/-- A change that starts no attempt and does not bring the step closer to one. -/
theorem ManualInv.congr (h : ManualInv m s es) (hes : Idle es')
    (hpolicy : t.retry_policy = s.retry_policy) (hvisit : s.visit ≤ t.visit)
    (hstart : mayStart t = true → mayStart s = true ∨ s.visit < t.visit) :
    ManualInv m' t (es ++ es') := by
  have hlatest : latest Effect.turnsRetry (es ++ es') = latest Effect.turnsRetry es :=
    latest_append_of_not fun e he => (hes e he).1
  refine ⟨law_idle h.law fun e he => (hes e he).1, fun key hmem => ?_,
    fun hmanual key lease visit hlast => ?_⟩
  · rw [hpolicy]
    rcases List.mem_append.mp hmem with hmem | hmem
    · exact h.declared key hmem
    · exact absurd rfl ((hes _ hmem).2 key)
  · rw [hlatest] at hlast
    obtain ⟨hle, hlt⟩ := h.spent (hpolicy ▸ hmanual) key lease visit hlast
    refine ⟨Nat.le_trans hle hvisit, fun ht => ?_⟩
    rcases hstart ht with hs | hs
    · exact Nat.lt_of_lt_of_le (hlt hs) hvisit
    · exact Nat.lt_of_le_of_lt hle hs

/-- A change behind which the pump does not take the step. -/
theorem ManualInv.stop (h : ManualInv m s es) (hes : Idle es')
    (hpolicy : t.retry_policy = s.retry_policy) (hvisit : s.visit ≤ t.visit)
    (hstart : mayStart t = false) : ManualInv m' t (es ++ es') :=
  h.congr hes hpolicy hvisit fun ht => by rw [hstart] at ht; cases ht

theorem ManualInv.redone (h : ManualInv m s es) (hpolicy : t.retry_policy = s.retry_policy)
    {key : String} : ManualInv m' t (es ++ [.redone key]) := by
  refine ⟨h.law.snoc trivial, fun k hmem => ?_, fun _ k lease visit hlast => ?_⟩
  · rw [hpolicy]
    refine h.declared k ?_
    simpa using hmem
  · rw [latest_snoc rfl] at hlast
    cases hlast

/-- The pump dispatches the step for a visit it was not dispatched for. -/
theorem ManualInv.dispatched (h : ManualInv m s es) {r : Runner} (now : Date)
    (hstart : s.isWaiting = true) : ManualInv m' (r.stamped s now)
      (es ++ [.dispatched s.step_key r.tokens (max s.visit 1)]) := by
  have hmay : mayStart s = true := by simp [mayStart, hstart]
  refine ⟨h.law.snoc fun hdeclared k lease v hlast => ?_, fun k hmem => ?_,
    fun _ k lease visit hlast => ?_⟩
  · have hlt := (h.spent (h.declared _ hdeclared) k lease v hlast).2 hmay
    omega
  · refine h.declared k ?_
    simpa using hmem
  · rw [latest_snoc rfl] at hlast
    obtain ⟨_, _, rfl⟩ : s.step_key = k ∧ r.tokens = lease ∧ max s.visit 1 = visit := by
      simpa using hlast
    exact ⟨Nat.le_refl _, nofun⟩

open Runner in
theorem ManualInv.write (h : ManualInv m s es) (hw : RowWrite manualGuards r s t es') :
    ManualInv m' t (es ++ es') := by
  have hended : Effect.turnsRetry (.ended s.step_key) = false ∧
      ∀ key, Effect.ended s.step_key ≠ .declared key := ⟨rfl, nofun⟩
  have hmay : s.isWaiting = true → mayStart s = true := fun hwaits => by simp [mayStart, hwaits]
  cases hw with
  | keep => exact h.congr idle_nil rfl (Nat.le_refl _) .inl
  | openGate artifacts now _ _ =>
    exact h.stop (idle_one ⟨rfl, nofun⟩) rfl (Nat.le_max_left _ _) rfl
  | dispatch now hwaits _ => exact h.dispatched now hwaits
  | redispatch now _ hauto _ =>
    -- the reconciler dispatches no manual step
    refine ⟨h.law.snoc fun hdeclared _ _ _ _ => ?_, fun k hmem => ?_, fun hmanual => ?_⟩
    · rw [h.declared _ hdeclared] at hauto
      cases hauto
    · refine h.declared k ?_
      simpa using hmem
    · exact absurd (hauto.symm.trans hmanual) (by simp)
  | markReady hwaits => exact h.congr idle_nil rfl (Nat.le_refl _) fun _ => .inl (hmay hwaits)
  | block now hwaits => exact h.congr idle_nil rfl (Nat.le_refl _) fun _ => .inl (hmay hwaits)
  | failDispatch error now _ => exact h.stop (idle_one hended) rfl (Nat.le_refl _) rfl
  | unblock hblocked _ =>
    refine h.congr (idle_replicate ⟨rfl, nofun⟩) rfl (Nat.le_refl _)
      fun _ => .inl ?_
    simp [mayStart, hblocked]
  | reenter _ _ =>
    exact h.congr (idle_replicate hended) rfl (Nat.le_succ _) fun _ => .inr (Nat.lt_succ_self _)
  | noteLease since _ => exact h.congr idle_nil rfl (Nat.le_refl _) .inl
  | expire reason budgetLeft now _ =>
    refine h.stop (idle_one hended) rfl (Nat.le_refl _) ?_
    unfold mayStart isAutoBlocked Step.isWaiting unrecoverable
    dsimp only
    split <;> rfl
  | failExternally reason now _ =>
    refine h.stop (idle_one hended) rfl (Nat.le_refl _) ?_
    unfold mayStart isAutoBlocked Step.isWaiting failedExternally
    dsimp only
    split <;> rfl
  | progress checkpoint now _ _ =>
    refine h.congr idle_nil rfl (Nat.le_refl _) fun hstart => .inl ?_
    unfold mayStart isAutoBlocked Step.isWaiting progressed at *
    dsimp only at hstart
    split at hstart
    · cases hstart
    · exact hstart
  | @report input now _ _ hguard =>
    refine ⟨law_idle h.law (by simp [Effect.turnsRetry]), fun k hmem => ?_,
      fun hmanual k lease visit hlast => ?_⟩
    · refine h.declared k ?_
      simpa using hmem
    · rw [latest_append_of_not (by simp [Effect.turnsRetry])] at hlast
      have hmanual : s.retry_policy = .manual := hmanual
      refine ⟨(h.spent hmanual k lease visit hlast).1, fun hstart => ?_⟩
      unfold mayStart isAutoBlocked Step.isWaiting reported at hstart
      dsimp only at hstart
      cases hstatus : input.status with
      | done => rw [hstatus] at hstart; cases hstart
      | failed => rw [hstatus] at hstart; cases hstart
      | blocked =>
        -- the report is no automatic block
        rw [hstatus, hguard hmanual hstatus] at hstart
        cases hstart
  | decide verdict now _ _ _ _ _ =>
    refine h.stop ?_ rfl (Nat.le_refl _) rfl
    intro e he
    rcases List.mem_cons.mp he with rfl | he
    · exact ⟨rfl, nofun⟩
    · rw [List.mem_singleton.mp he]
      exact ⟨rfl, nofun⟩
  | budget _ _ _ => exact h.congr idle_nil rfl (Nat.le_refl _) .inl
  | skip status now _ hstatus _ =>
    refine h.stop (idle_one hended) rfl (Nat.le_refl _) ?_
    rcases hstatus with rfl | rfl <;> rfl
  | amend input a _ =>
    obtain ⟨_, _, _, _, _, _, _, _, _, heq⟩ := amended_revises s input a
    rw [heq]
    exact h.congr idle_nil rfl (Nat.le_refl _) .inl
  | reassign a _ _ =>
    refine h.redone ?_
    rfl
  | retry input a _ _ _ =>
    obtain ⟨_, _, _, _, _, _, _, _, _, heq⟩ := amended_revises s input a
    refine h.redone ?_
    unfold retried
    rw [heq]
  | cancel now _ _ => exact h.stop (idle_replicate hended) rfl (Nat.le_refl _) rfl

/-- Each change of a row keeps the law. -/
theorem ManualInv.step (hmem : s ∈ r.steps) (h : ManualInv r.mission s es)
    (hw : RowStep manualGuards r r' s t es') : ManualInv r'.mission t (es ++ es') := by
  cases hw with
  | write _ hw => exact h.write hw
  | @plan input _ n hguard hrev _ hdeclared =>
    obtain ⟨_, _, _, _, _, _, _, _, _, rfl⟩ := hrev
    have hidle : ∀ e ∈ List.replicate n (Effect.declared s.step_key), e.turnsRetry = false := by
      intro e he
      rw [List.eq_of_mem_replicate he]
      rfl
    refine ⟨law_idle h.law hidle, fun key hmemk => ?_, fun hmanual key lease visit hlast => ?_⟩
    · rcases List.mem_append.mp hmemk with hmemk | hmemk
      · exact h.declared key hmemk
      · exact hguard s hmem (hdeclared (Nat.pos_of_ne_zero (List.mem_replicate.mp hmemk).1))
    · rw [latest_append_of_not hidle] at hlast
      exact h.spent hmanual key lease visit hlast
  | patch _ => exact h.congr idle_nil rfl (Nat.le_refl _) .inl

theorem manualInv_fresh (hw : FreshRow manualGuards r r' t es) : ManualInv r'.mission t es := by
  cases hw with
  | @mk input s a i n k _ _ hmanual =>
    have hidle : ∀ e ∈ List.replicate n (Effect.added s.key) ++
        List.replicate k (.declared s.key), e.turnsRetry = false := by
      intro e he
      rcases List.mem_append.mp he with he | he <;> rw [List.eq_of_mem_replicate he] <;> rfl
    obtain ⟨_, _, _, heq⟩ := Runner.newStep_eq (v := r.mission.plan_version + 1) (s := s) (a := a)
      (i := i)
    have hlaw := law_idle (each_nil (P := ManualLaw)) hidle
    refine ⟨hlaw, fun key hmem => ?_, fun _ key lease visit hlast => ?_⟩
    · rcases List.mem_append.mp hmem with hmem | hmem
      · cases List.eq_of_mem_replicate hmem
      · rw [heq]
        exact if_pos (hmanual (Nat.pos_of_ne_zero (List.mem_replicate.mp hmem).1))
    · rw [latest_of_forall_not hidle] at hlast
      cases hlast

end ManualInv

/-! ## One attempt for each visit -/

section Attempts

variable {pre mid : List Effect} {key : String} {lease visit : Nat}

/-- Without a redo, the attempts behind one are for its visit or later ones. -/
theorem later_of_law (hlaw : Each ManualLaw (pre ++ .dispatched key lease visit :: mid))
    (hdeclared : .declared key ∈ pre) (hmid : ∀ e ∈ mid, e.stepKey = some key)
    (hredone : .redone key ∉ mid) : ∃ l v,
      latest Effect.turnsRetry (pre ++ .dispatched key lease visit :: mid) =
        some (.dispatched key l v) ∧ visit ≤ v := by
  induction mid using List.reverseRecOn with
  | nil => exact ⟨lease, visit, latest_snoc rfl, Nat.le_refl _⟩
  | append_singleton mid e ih =>
    have hsplit : pre ++ .dispatched key lease visit :: (mid ++ [e]) =
        (pre ++ .dispatched key lease visit :: mid) ++ [e] := by simp
    rw [hsplit] at hlaw ⊢
    have hkey := hmid e (by simp)
    rw [List.mem_append, not_or, List.mem_singleton] at hredone
    obtain ⟨l, v, hlast, hle⟩ := ih
      (fun p x q heq => hlaw p x (q ++ [e]) (by rw [heq]; simp))
      (fun x hx => hmid x (List.mem_append_left _ hx)) hredone.1
    have he : ManualLaw (pre ++ .dispatched key lease visit :: mid) e := hlaw _ e [] rfl
    cases e with
    | dispatched k l' v' =>
      cases hkey
      have hlt := he (List.mem_append_left _ hdeclared) _ _ _ hlast
      exact ⟨l', v', latest_snoc rfl, by omega⟩
    | redone k =>
      cases hkey
      exact absurd rfl hredone.2
    | _ =>
      rw [latest_append_of_not (by simp [Effect.turnsRetry])]
      exact ⟨l, v, hlast, hle⟩

end Attempts

namespace Runner

/-- Behind its declaration the step has one attempt for each visit, unless it is redone in
    between. -/
def OneAttempt (r : Runner) (key : String) : Prop :=
  ∀ pre mid post lease lease' visit, about key r.log =
    pre ++ .dispatched key lease visit :: (mid ++ .dispatched key lease' visit :: post) →
      .declared key ∈ pre → .redone key ∈ mid

theorem oneAttempt_of_law {r : Runner} {key : String} (hlaw : Each ManualLaw (about key r.log)) :
    r.OneAttempt key := by
  intro pre mid post lease lease' visit hsplit hdeclared
  by_contra hredone
  have hsplit' : about key r.log = (pre ++ .dispatched key lease visit :: mid) ++
      .dispatched key lease' visit :: post := by
    rw [hsplit]
    simp
  have hagain := hlaw _ _ _ hsplit'
  have hfirst : Each ManualLaw (pre ++ .dispatched key lease visit :: mid) := fun p x q heq =>
    hlaw p x (q ++ .dispatched key lease' visit :: post) (by
      rw [hsplit', heq]
      simp)
  have hmid : ∀ e ∈ mid, e.stepKey = some key := by
    intro e he
    have hmem : e ∈ about key r.log := by
      rw [hsplit]
      simp [he]
    exact (mem_about.mp hmem).2
  obtain ⟨l, v, hlast, hle⟩ := later_of_law hfirst hdeclared hmid hredone
  have hlt := hagain (List.mem_append_left _ hdeclared) _ _ _ hlast
  omega

/-! ## Recovery -/

def NeedsRecovery (r : Runner) (key : String) : Prop :=
  ∃ t ∈ r.steps, t.step_key = key ∧ t.status = .needs_recovery

/-- The step is manual and needs recovery. -/
def Recovering (r : Runner) (key : String) : Prop :=
  ∃ t ∈ r.steps, t.step_key = key ∧ t.retry_policy = .manual ∧ t.status = .needs_recovery

theorem Recovering.needsRecovery {r : Runner} {key : String} (h : r.Recovering key) :
    r.NeedsRecovery key := by
  obtain ⟨t, ht, hkey, _, hstatus⟩ := h
  exact ⟨t, ht, hkey, hstatus⟩

/-- The guard under which the orchestrator leaves a step alone. -/
def stayGuards (key : String) : Guards :=
  { manualGuards with
    update := fun s => s.step_key ≠ key
    reassign := fun s => s.step_key ≠ key }

section Recovering

variable {r r' : Runner} {s t : Step} {key : String} {es : List Effect}

/-- No change takes a manual step out of `needs_recovery`. -/
theorem recovering_row (hw : RowWrite (stayGuards key) r s t es) (hkey : s.step_key = key)
    (hmanual : s.retry_policy = .manual) (hstatus : s.status = .needs_recovery) :
    t.step_key = key ∧ t.retry_policy = .manual ∧ t.status = .needs_recovery := by
  have hidle : s.isWaiting = false := by
    unfold Step.isWaiting
    rw [hstatus]
    rfl
  cases hw with
  | keep => exact ⟨hkey, hmanual, hstatus⟩
  | budget _ _ _ => exact ⟨hkey, hmanual, hstatus⟩
  | amend input a _ =>
    obtain ⟨_, _, _, _, _, _, _, _, _, heq⟩ := amended_revises s input a
    rw [heq]
    exact ⟨hkey, hmanual, hstatus⟩
  | reenter hback _ => exact absurd hstatus (hback hmanual)
  | skip status now _ _ hguard => exact absurd hkey hguard
  | reassign a _ hguard => exact absurd hkey hguard
  | retry input a _ _ hguard => exact absurd hkey hguard
  | openGate artifacts now hwaits _ => rw [hidle] at hwaits; cases hwaits
  | dispatch now hwaits _ => rw [hidle] at hwaits; cases hwaits
  | markReady hwaits => rw [hidle] at hwaits; cases hwaits
  | block now hwaits => rw [hidle] at hwaits; cases hwaits
  | failDispatch error now hwaits =>
    rw [hidle, hstatus] at hwaits
    simp at hwaits
  | unblock hblocked _ =>
    unfold isAutoBlocked at hblocked
    rw [hstatus] at hblocked
    cases hblocked
  | noteLease since hin => rw [hstatus] at hin; cases hin
  | redispatch now hin _ _ => rw [hstatus] at hin; cases hin
  | expire reason budgetLeft now hin => rw [hstatus] at hin; cases hin
  | failExternally reason now hlive => rw [hstatus] at hlive; cases hlive
  | progress checkpoint now hlive _ => rw [hstatus] at hlive; cases hlive
  | report now hlive _ _ => rw [hstatus] at hlive; cases hlive
  | cancel now hlive _ => rw [hstatus] at hlive; cases hlive
  | decide verdict now _ hawait _ _ _ => rw [hstatus] at hawait; cases hawait

theorem Recovering.write (h : r.Recovering key) (hs : r.Sane)
    (hw : Write (stayGuards key) r r') : r'.Recovering key := by
  obtain ⟨s, hs', hkey, hmanual, hstatus⟩ := h
  have hgrown := hw.grown hs
  obtain ⟨t, ht, htkey⟩ := List.mem_map.mp (hgrown.kept key (hkey ▸ mem_keys hs'))
  refine ⟨t, ht, ?_⟩
  rcases hgrown.origin t ht with ⟨u, hu, hukey, es, hstep, _⟩ | ⟨hnew, _⟩
  · obtain rfl := hs.distinct.eq hu hs' (hukey.trans (htkey.trans hkey.symm))
    cases hstep with
    | write _ hrow => exact recovering_row hrow hkey hmanual hstatus
    | plan _ hrev _ _ =>
      obtain ⟨_, _, _, _, _, _, _, _, _, rfl⟩ := hrev
      exact ⟨hkey, hmanual, hstatus⟩
    | patch _ => exact ⟨hkey, hmanual, hstatus⟩
  · refine absurd ?_ hnew
    rw [htkey, ← hkey]
    exact mem_keys hs'

theorem Recovering.writes (h : r.Recovering key) (hs : r.Sane)
    (hw : Writes (stayGuards key) r r') : r'.Recovering key :=
  (hw.invariant (P := fun r => r.Recovering key) (fun _ _ hs h hw => h.write hs hw) hs h).2

end Recovering

/-! ## The calls -/

/-- No loop that the step fires has a manual step in `needs_recovery` in its body. -/
def NoRecoveryBack (r : Runner) (step : Step) : Prop :=
  ∀ t ∈ r.steps, GoesBack r.mission step t.step_key →
    t.retry_policy = .manual → t.status ≠ .needs_recovery

/-- What the condition asks of a call. -/
def KeepsManual (now : Date) (r : Runner) : Action → Prop
  | .submitPlan caller input _ => ∀ r', r.acceptPlan caller input = .ok r' → DeclaresNew r input
  | .reportStep key caller input _ => ∀ step, r.reportChecks key caller input = .ok step →
    (step.retry_policy = .manual → input.status = .blocked → step.auto_blocked = false) ∧
      NoRecoveryBack r (reported step input now)
  | .submitConfirmDecision key input _ =>
    ∀ step verdict, r.confirmChecks key input = .ok (some (step, verdict)) →
      NoRecoveryBack r (decided step verdict input now)
  | _ => True

/-- The call is an update of the step by the orchestrator. -/
def updates (key : String) : Action → Bool
  | .updateStep k .. => k = key
  | _ => false

section Calls

variable {r r' : Runner} {now : Date} {a : Action} {key : String}

/-- A row behind the save of a finished step needs recovery only if it did before. -/
theorem back_of_saved {step t : Step} (hback : NoRecoveryBack r step)
    (hstatus : step.status ≠ .needs_recovery) (ht : t ∈ (r.saveStep step).steps)
    (hgoes : GoesBack r.mission step t.step_key) (hmanual : t.retry_policy = .manual) :
    t.status ≠ .needs_recovery := by
  rcases mem_saveStep ht with rfl | ⟨ht, _⟩
  · exact hstatus
  · exact hback t ht hgoes hmanual

theorem meets_stay (hc : KeepsManual now r a) (hother : updates key a = false) :
    Meets (stayGuards key) now r a := by
  cases a with
  | submitPlan => exact hc
  | updateStep k caller input fates =>
    intro fresh x n hchecks
    have hne : fresh.step_key ≠ key := by
      rw [(stepOf_some (updateChecks_ok hchecks).1).2]
      simpa [updates] using hother
    exact ⟨fun _ => trivial, fun _ _ _ => hne, fun _ => hne⟩
  | reportStep k caller input fates =>
    intro step hchecks
    obtain ⟨hflag, hback⟩ := hc step hchecks
    refine ⟨hflag, fun t ht hgoes => back_of_saved hback ?_ ht hgoes⟩
    unfold reported
    cases input.status <;> simp [ReportedStatus.toStep]
  | submitConfirmDecision k input fates =>
    intro step verdict hchecks t ht hgoes
    exact back_of_saved (hc step verdict hchecks) (by simp [decided]) ht hgoes
  | _ => simp [Meets, stayGuards, manualGuards]

theorem meets_manual (hc : KeepsManual now r a) : Meets manualGuards now r a := by
  cases a with
  | submitPlan => exact hc
  | updateStep => exact fun _ _ _ _ => ⟨fun _ => trivial, fun _ _ _ => trivial, fun _ => trivial⟩
  | reportStep k caller input fates =>
    have hmeets : Meets (stayGuards "") now r (.reportStep k caller input fates) :=
      meets_stay hc rfl
    exact hmeets
  | submitConfirmDecision k input fates =>
    have hmeets : Meets (stayGuards "") now r (.submitConfirmDecision k input fates) :=
      meets_stay hc rfl
    exact hmeets
  | _ => simp [Meets, manualGuards]

theorem manualInv_reachable
    (h : (missionSystem.restrict fun r call _ => KeepsManual call.1 r call.2).Reachable r) :
    r.Sane ∧ Rowwise ManualInv r :=
  mission_invariant manualGuards (fun _ _ _ _ hc => meets_manual hc)
    (fun _ _ hcreate => rowwise_createMission hcreate)
    (fun _ _ hs hinv hw => hinv.write hw hs (fun _ hmem _ _ h hstep => h.step hmem hstep)
      fun _ _ hfresh => manualInv_fresh hfresh) h

/-- A declared step has a row, and the row is manual. -/
theorem manual_of_declared (hinv : Rowwise ManualInv r)
    (hdeclared : .declared key ∈ r.log) {t : Step} (hstep : r.stepOf key = some t) :
    t.retry_policy = .manual := by
  obtain ⟨ht, rfl⟩ := stepOf_some hstep
  exact (hinv.row t ht).declared t.step_key (mem_about.mpr ⟨hdeclared, rfl⟩)

variable {fates : String → DispatchFate}

/-- The step has ended without an attempt that could report; what follows leaves it so. -/
theorem recovering_settled {t t' : Step}
    (ht : t ∈ r.steps) (hopen : r.mission.status.isTerminal = false)
    (hsaved : ((r.saveStep t').record [.ended t.step_key]).Sane) (hkey : t'.step_key = t.step_key)
    (hmanual : t'.retry_policy = .manual) (hstatus : t'.status = .needs_recovery) :
    (((r.saveStep t').record [.ended t.step_key]).settle now fates).NeedsRecovery t.step_key := by
  have hrow : t' ∈ (r.saveStep t').steps := saveStep_mem (hkey ▸ mem_keys ht)
  have hrec : ((r.saveStep t').record [.ended t.step_key]).Recovering t.step_key :=
    ⟨t', hrow, hkey, hmanual, hstatus⟩
  exact (hrec.writes hsaved (settle_writes hsaved hopen)).needsRecovery

/-- What the reaper's calls do to the step: its attempt is not dispatched again, and the step
    needs recovery. -/
def ReaperStops (now : Date) (r : Runner) (key : String) : Action → Prop
  | .reconcileStaleLease k graceMs timeoutMinutes fates => k = key →
    (r.reconcileStaleLease key now graceMs timeoutMinutes fates).reply ≠ .ok .redispatched ∧
    ((r.reconcileStaleLease key now graceMs timeoutMinutes fates).reply = .ok .terminal →
      (r.reconcileStaleLease key now graceMs timeoutMinutes fates).runner.NeedsRecovery key)
  | .failStepExternally k reason fates => k = key →
    (r.failStepExternally key reason now fates).reply = .ok .done →
      (r.failStepExternally key reason now fates).runner.NeedsRecovery key
  | _ => True

/-- The reconciler ends an attempt only by recovering its lease. -/
theorem reconcile_ended {graceMs timeoutMinutes : Int}
    (h : (r.reconcileStaleLease key now graceMs timeoutMinutes fates).reply = .ok .redispatched ∨
      (r.reconcileStaleLease key now graceMs timeoutMinutes fates).reply = .ok .terminal) :
    ∃ t silentMs, r.stepOf key = some t ∧ t.status.isInFlight = true ∧
      r.mission.status = .running ∧
      r.reconcileStaleLease key now graceMs timeoutMinutes fates =
        r.recoverLease t silentMs now fates := by
  unfold reconcileStaleLease at h ⊢
  cases hstep : r.stepOf key with
  | none =>
    rw [hstep] at h
    simp [refused] at h
  | some t =>
    rw [hstep] at h
    dsimp only at h ⊢
    split at h
    · simp at h
    · rename_i hgo
      rw [if_neg hgo]
      rw [not_or, not_not, Bool.not_eq_true, Bool.not_eq_false'] at hgo
      cases hat : baseline t with
      | none =>
        rw [hat] at h
        simp at h
      | some at_ =>
        rw [hat] at h
        dsimp only at h ⊢
        split at h
        · simp at h
        · rename_i hsilent
          rw [if_neg hsilent]
          cases hsince : t.lease_stale_since with
          | none =>
            rw [hsince] at h
            simp at h
          | some since =>
            rw [hsince] at h
            dsimp only at h ⊢
            split at h
            · simp at h
            · rename_i hgrace
              rw [if_neg hgrace]
              exact ⟨t, _, rfl, hgo.1, hgo.2, rfl⟩

theorem reaperStops (hs : r.Sane) (hinv : Rowwise ManualInv r) (hdeclared : .declared key ∈ r.log) :
    ReaperStops now r key a := by
  cases a with
  | reconcileStaleLease k graceMs timeoutMinutes fates =>
    rintro rfl
    -- the policy keeps the reconciler from a second attempt
    have hstops : ∀ t silentMs, r.stepOf k = some t → t.status.isInFlight = true →
        r.mission.status = .running → r.reconcileStaleLease k now graceMs timeoutMinutes fates =
          r.recoverLease t silentMs now fates →
        (r.recoverLease t silentMs now fates).reply = .ok .terminal ∧
          (r.recoverLease t silentMs now fates).runner.NeedsRecovery k := by
      intro t silentMs hstep hin hrun _
      have hmanual := manual_of_declared hinv hdeclared hstep
      obtain ⟨ht, rfl⟩ := stepOf_some hstep
      have hopen : r.mission.status.isTerminal = false := by
        rw [hrun]
        rfl
      have hwrite : Write {} r _ := .expire (leaseExpired silentMs)
        (decide (t.attempt < t.max_attempts)) now hrun ht hin
      unfold recoverLease
      rw [if_pos (.inl hmanual)]
      exact ⟨rfl, recovering_settled ht hopen (hwrite.sane hs) rfl hmanual
        (if_pos hmanual)⟩
    constructor
    · intro hreply
      obtain ⟨t, silentMs, hstep, hin, hrun, heq⟩ := reconcile_ended (.inl hreply)
      rw [heq, (hstops t silentMs hstep hin hrun heq).1] at hreply
      cases hreply
    · intro hreply
      obtain ⟨t, silentMs, hstep, hin, hrun, heq⟩ := reconcile_ended (.inr hreply)
      rw [heq]
      exact (hstops t silentMs hstep hin hrun heq).2
  | failStepExternally k reason fates =>
    rintro rfl
    unfold failStepExternally
    split
    · exact nofun
    · rename_i t hstep
      have hmanual := manual_of_declared hinv hdeclared hstep
      obtain ⟨ht, rfl⟩ := stepOf_some hstep
      split
      · exact nofun
      · rename_i hgo
        rw [not_or, Bool.not_eq_true, Bool.not_eq_true] at hgo
        intro _
        have hwrite : Write {} r _ := .failExternally reason now hgo.2 ht hgo.1
        exact recovering_settled ht hgo.2 (hwrite.sane hs) rfl hmanual
          (if_pos hmanual)
  | _ => trivial

/-- In every run whose calls meet the condition: a declared step has one attempt for each visit
    unless it is redone in between; the reaper leaves it in `needs_recovery`; and there it stays
    until the orchestrator updates it. -/
theorem manual_policy
    (h : (missionSystem.restrict fun r call _ => KeepsManual call.1 r call.2).Reachable r)
    (hdeclared : .declared key ∈ r.log) :
    r.OneAttempt key ∧ (∀ now a, ReaperStops now r key a) ∧
      ∀ now a r', (missionSystem.restrict fun r call _ => KeepsManual call.1 r call.2).step r
        (now, a) r' → updates key a = false → r.NeedsRecovery key → r'.NeedsRecovery key := by
  obtain ⟨hs, hinv⟩ := manualInv_reachable h
  have hkey : key ∈ r.keys := by
    by_contra hnone
    have hmem : .declared key ∈ about key r.log := mem_about.mpr ⟨hdeclared, rfl⟩
    rw [hinv.unseen key hnone] at hmem
    cases hmem
  refine ⟨?_, fun now a => reaperStops hs hinv hdeclared, ?_⟩
  · obtain ⟨t, ht, rfl⟩ := List.mem_map.mp hkey
    exact oneAttempt_of_law (hinv.row t ht).law
  · rintro now a r' ⟨hcall, hc⟩ hother ⟨t, ht, rfl, hstatus⟩
    have hmanual := manual_of_declared hinv hdeclared (hs.distinct.stepOf ht)
    have hrec : r.Recovering t.step_key := ⟨t, ht, rfl, hmanual, hstatus⟩
    exact (hrec.writes hs (step_writes hs hcall (meets_stay hc hother))).needsRecovery

end Calls

/-- The member's step `a`, with a policy or without. -/
def memberStep (retry_policy : Option StepRetryPolicy) : PlanInput :=
  { steps := [{ step_key := "a", title := "a", assignee := some "member", retry_policy }] }

/-- The reconciler finds the step silent and, a minute later, its grace window over. -/
def silence : List (Date × Action) :=
  [(100000, .reconcileStaleLease "a" 60000 1 fun _ => .delivered),
    (200000, .reconcileStaleLease "a" 60000 1 fun _ => .delivered)]

/-- A step that is declared when it is added ends in `needs_recovery` after one attempt. -/
theorem manual_policy_small : ∃ r : Runner, .declared "a" ∈ r.log ∧ r.NeedsRecovery "a" ∧
    r.OneAttempt "a" := by
  let check : Runner → Date × Action → Bool := fun r call =>
    match call.2 with
    | .reportStep .. | .submitConfirmDecision .. => false
    | .submitPlan .. => r.steps.isEmpty
    | _ => true
  have hcheck : ∀ r call r', check r call = true →
      (fun r (call : Date × Action) (_ : Runner) => KeepsManual call.1 r call.2) r call r' := by
    rintro r ⟨now, a⟩ r' hpass
    cases a with
    | reportStep => cases hpass
    | submitConfirmDecision => cases hpass
    | submitPlan =>
      intro r' _ t ht
      rw [List.isEmpty_iff.mp hpass] at ht
      cases ht
    | _ => trivial
  obtain ⟨r, hr, hp⟩ := exists_restricted_of_run check hcheck smallMission
    ([(0, .startMission smallView),
      (1, .submitPlan (smallCaller smallOrchestrator) (memberStep (some .manual))
        fun _ => .delivered)] ++ silence)
    (fun r => r.log.contains (.declared "a") &&
      r.steps.any fun t => t.step_key = "a" ∧ t.status = .needs_recovery) (by decide +kernel)
  simp only [Bool.and_eq_true, List.contains_iff_mem, List.any_eq_true, decide_eq_true_eq] at hp
  exact ⟨r, hp.1, hp.2, (manual_policy hr hp.1).1⟩

/-- A step that is declared in a later plan, before it has started, keeps the policy `auto`: the
    reconciler dispatches a second attempt in the same visit. -/
theorem declared_twice : ∃ r, missionSystem.Reachable r ∧ ¬ OneAttempt r "a" := by
  obtain ⟨r, hr, hp⟩ := exists_reachable_of_run smallMission
    ([(0, .startMission smallView),
      (1, .submitPlan (smallCaller smallOrchestrator)
        { steps := [{ step_key := "a", title := "a" }] } fun _ => .delivered),
      (2, .submitPlan (smallCaller smallOrchestrator) (memberStep (some .manual))
        fun _ => .delivered)] ++ silence)
    (fun r => about "a" r.log = [.added "a", .declared "a", .dispatched "a" 0 1,
      .dispatched "a" 1 1]) (by decide +kernel)
  refine ⟨r, hr, fun honce => ?_⟩
  have hredone := honce [.added "a", .declared "a"] [] [] 0 1 1 (of_decide_eq_true hp) (by simp)
  cases hredone

end Runner

end WorkflowBoard.Orchestration
