import WorkflowBoard.Spec.RowWrites

/-!
# Confirm gates

A gate is a step whose node asks the user. `openConfirmGate` lets it wait for an answer under
the number of its visit, and `submitConfirmDecision` takes one answer under that number. The
number counts the rounds of a loop: a gate that the orchestrator retries is opened again under
the number it had, so that an answer to the first opening is accepted for the second.

Nothing keeps `reportStep` away from a gate. A report of the orchestrator marks it done with a
verdict of its own, and a graph that turns a finished step into a gate takes over its verdict.
Apart from these two, only the user's answers reach a gate.
-/

namespace WorkflowBoard.Orchestration

/-! ## Openings and answers -/

/-- The effects that open a gate or answer it. -/
def Effect.turnsGate : Effect → Bool
  | .opened .. | .decided .. => true
  | _ => false

def Effect.isDecided : Effect → Bool
  | .decided .. => true
  | _ => false

def Effect.isRouted : Effect → Bool
  | .routed _ => true
  | _ => false

/-- An answer is for the gate as it was opened last, and only an answer lets the graph go on. -/
def GateLaw (pre : List Effect) : Effect → Prop
  | .decided key visit _ => latest Effect.turnsGate pre = some (.opened key visit)
  | .routed key => ∃ visit verdict, pre.getLast? = some (.decided key visit verdict)
  | _ => True

/-- A gate that waits for the user is open under the number of its visit, and the row keeps the
    answer to the last opening. -/
structure GateInv (_ : Mission) (t : Step) (es : List Effect) : Prop where
  law : Each GateLaw es
  open_ : t.status = .awaiting_user →
    latest Effect.turnsGate es = some (.opened t.step_key t.visit)
  kept : ∀ key visit verdict, latest Effect.turnsGate es = some (.decided key visit verdict) →
    1 ≤ visit ∧ ∃ d, t.confirm_decision = some d ∧ d.visit = visit ∧ d.verdict = verdict

section GateInv

variable {G : Guards} {r r' : Runner} {m m' : Mission} {s t : Step} {es es' : List Effect}

/-- The effects a gate does not notice. -/
def Quiet (es : List Effect) : Prop := ∀ e ∈ es, e.turnsGate = false ∧ e.isRouted = false

theorem quiet_nil : Quiet [] := nofun

theorem each_quiet (h : Each GateLaw es) (hq : Quiet es') : Each GateLaw (es ++ es') := by
  refine h.append_of_forall fun e he pre => ?_
  obtain ⟨hgate, hrouted⟩ := hq e he
  cases e with
  | decided => cases hgate
  | routed => cases hrouted
  | _ => trivial

/-- A change that the gate does not notice, as long as a gate that waits afterwards waited
    before, for the same visit. -/
theorem GateInv.congr (h : GateInv m s es) (hq : Quiet es')
    (hdecision : t.confirm_decision = s.confirm_decision)
    (hawait : t.status = .awaiting_user →
      s.status = .awaiting_user ∧ t.step_key = s.step_key ∧ t.visit = s.visit) :
    GateInv m' t (es ++ es') := by
  have hlatest : latest Effect.turnsGate (es ++ es') = latest Effect.turnsGate es :=
    latest_append_of_not fun e he => (hq e he).1
  refine ⟨each_quiet h.law hq, fun ht => ?_, fun key visit verdict hlast => ?_⟩
  · obtain ⟨hs, hkey, hvisit⟩ := hawait ht
    rw [hlatest, hkey, hvisit]
    exact h.open_ hs
  · rw [hlatest] at hlast
    rw [hdecision]
    exact h.kept key visit verdict hlast

/-- A change behind which the gate does not wait for the user. -/
theorem GateInv.away (h : GateInv m s es) (hq : Quiet es')
    (hdecision : t.confirm_decision = s.confirm_decision) (ht : t.status ≠ .awaiting_user) :
    GateInv m' t (es ++ es') :=
  h.congr hq hdecision fun hawait => absurd hawait ht

theorem quiet_one {e : Effect} (h : e.turnsGate = false ∧ e.isRouted = false) : Quiet [e] := by
  intro x hx
  rwa [List.mem_singleton.mp hx]

theorem quiet_replicate {n : Nat} {e : Effect} (h : e.turnsGate = false ∧ e.isRouted = false) :
    Quiet (List.replicate n e) := by
  intro x hx
  rwa [List.eq_of_mem_replicate hx]

/-- The user opens no gate: the pump does, under the number of the visit. -/
theorem GateInv.opens (h : GateInv m s es) (artifacts : List Artifact) (now : Date) :
    GateInv m' (s.openGate artifacts now) (es ++ [.opened s.step_key (max s.visit 1)]) := by
  have hlast : latest Effect.turnsGate (es ++ [.opened s.step_key (max s.visit 1)]) =
      some (.opened s.step_key (max s.visit 1)) := latest_snoc rfl
  refine ⟨h.law.snoc trivial, fun _ => hlast, fun key visit verdict hdecided => ?_⟩
  rw [hlast] at hdecided
  cases hdecided

/-- The answer that is accepted is the first one to the last opening. -/
theorem GateInv.decides (h : GateInv m s es) (verdict : ConfirmVerdict) {input : ConfirmInput}
    (now : Date) (hawait : s.status = .awaiting_user) (hlo : 1 ≤ input.visit)
    (hvisit : input.visit = s.visit) : GateInv m' (Runner.decided s verdict input now)
      (es ++ [.decided s.step_key s.visit verdict, .routed s.step_key]) := by
  have hopen := h.open_ hawait
  have hsplit : es ++ [.decided s.step_key s.visit verdict, .routed s.step_key] =
      (es ++ [.decided s.step_key s.visit verdict]) ++ [.routed s.step_key] := by simp
  have hlast : latest Effect.turnsGate
      (es ++ [.decided s.step_key s.visit verdict, .routed s.step_key]) =
        some (.decided s.step_key s.visit verdict) := by
    rw [hsplit, latest_append_of_not (by simp [Effect.turnsGate])]
    exact latest_snoc rfl
  refine ⟨?_, fun hstatus => ?_, fun key visit v hdecided => ?_⟩
  · have hdecided : GateLaw es (.decided s.step_key s.visit verdict) := hopen
    have hrouted : GateLaw (es ++ [.decided s.step_key s.visit verdict]) (.routed s.step_key) :=
      ⟨s.visit, verdict, List.getLast?_concat⟩
    rw [hsplit]
    exact (h.law.snoc hdecided).snoc hrouted
  · cases hstatus
  · rw [hlast] at hdecided
    obtain ⟨rfl, rfl, rfl⟩ : s.step_key = key ∧ s.visit = visit ∧ verdict = v := by
      simpa using hdecided
    exact ⟨by omega, _, rfl, rfl, rfl⟩

open Runner in
theorem GateInv.write (h : GateInv m s es) (hw : RowWrite G r s t es') :
    GateInv m' t (es ++ es') := by
  have hquiet : Effect.turnsGate (.ended s.step_key) = false ∧
      Effect.isRouted (.ended s.step_key) = false := ⟨rfl, rfl⟩
  cases hw with
  | keep => exact h.congr quiet_nil rfl fun hawait => ⟨hawait, rfl, rfl⟩
  | openGate artifacts now _ _ => exact h.opens artifacts now
  | dispatch now _ _ => exact h.away (quiet_one ⟨rfl, rfl⟩) rfl nofun
  | redispatch now _ _ _ => exact h.away (quiet_one ⟨rfl, rfl⟩) rfl nofun
  | markReady _ => exact h.away quiet_nil rfl nofun
  | block now _ => exact h.away quiet_nil rfl nofun
  | failDispatch error now _ => exact h.away (quiet_one hquiet) rfl nofun
  | unblock _ _ => exact h.away (quiet_replicate ⟨rfl, rfl⟩) rfl nofun
  | reenter _ _ => exact h.away (quiet_replicate hquiet) rfl nofun
  | noteLease since _ => exact h.congr quiet_nil rfl fun hawait => ⟨hawait, rfl, rfl⟩
  | expire reason budgetLeft now _ =>
    refine h.away (quiet_one hquiet) rfl ?_
    unfold unrecoverable
    dsimp only
    split <;> simp
  | failExternally reason now _ =>
    refine h.away (quiet_one hquiet) rfl ?_
    unfold failedExternally
    dsimp only
    split <;> simp
  | progress checkpoint now _ _ =>
    refine h.congr quiet_nil rfl fun hawait => ⟨?_, rfl, rfl⟩
    unfold progressed at hawait
    dsimp only at hawait
    split at hawait
    · cases hawait
    · exact hawait
  | @report input now _ _ _ =>
    refine h.away (quiet_one hquiet) rfl ?_
    unfold reported
    cases input.status <;> simp [ReportedStatus.toStep]
  | decide verdict now _ hawait hlo hvisit _ => exact h.decides verdict now hawait hlo hvisit
  | budget _ _ _ => exact h.congr quiet_nil rfl fun hawait => ⟨hawait, rfl, rfl⟩
  | skip status now _ hstatus _ =>
    refine h.away (quiet_one hquiet) rfl ?_
    rcases hstatus with rfl | rfl <;> simp
  | amend input a _ =>
    obtain ⟨_, _, _, _, _, _, _, _, _, heq⟩ := amended_revises s input a
    rw [heq]
    exact h.congr quiet_nil rfl fun hawait => ⟨hawait, rfl, rfl⟩
  | reassign a _ _ =>
    -- a gate that waits for the user goes on waiting
    refine h.congr (quiet_one ⟨rfl, rfl⟩) rfl fun hawait => ⟨?_, rfl, rfl⟩
    unfold reopenedBy at hawait
    dsimp only at hawait
    split at hawait
    · cases hawait
    · exact hawait
  | retry input a _ _ _ =>
    obtain ⟨_, _, _, _, _, _, _, _, _, heq⟩ := amended_revises s input a
    refine h.away (quiet_one ⟨rfl, rfl⟩) ?_ ?_
    · unfold retried
      rw [heq]
    · exact nofun
  | cancel now _ _ => exact h.away (quiet_replicate hquiet) rfl nofun

theorem GateInv.step (h : GateInv r.mission s es) (hw : RowStep G r r' s t es') :
    GateInv r'.mission t (es ++ es') := by
  cases hw with
  | write _ hw => exact h.write hw
  | plan _ hrev _ _ =>
    obtain ⟨_, _, _, _, _, _, _, _, _, rfl⟩ := hrev
    exact h.congr (quiet_replicate ⟨rfl, rfl⟩) rfl fun hawait => ⟨hawait, rfl, rfl⟩
  | patch _ => exact h.congr quiet_nil rfl fun hawait => ⟨hawait, rfl, rfl⟩

theorem gateInv_fresh (hw : FreshRow G r r' t es) : GateInv r'.mission t es := by
  cases hw with
  | @mk input s a i n k _ _ _ =>
    have hquiet : Quiet (List.replicate n (Effect.added s.key) ++
        List.replicate k (.declared s.key)) := by
      intro e he
      rcases List.mem_append.mp he with he | he <;> rw [List.eq_of_mem_replicate he] <;>
        exact ⟨rfl, rfl⟩
    have hnone : latest Effect.turnsGate (List.replicate n (Effect.added s.key) ++
        List.replicate k (.declared s.key)) = none :=
      latest_of_forall_not fun e he => (hquiet e he).1
    have hlaw := each_quiet (each_nil (P := GateLaw)) hquiet
    refine ⟨hlaw, fun hawait => ?_, fun key visit verdict hlast => ?_⟩
    · cases a <;> cases hawait
    · rw [hnone] at hlast
      cases hlast

end GateInv

/-! ## One answer for each opening -/

section Opening

variable {pre mid : List Effect} {key : String} {visit : Nat}

theorem each_of_append_singleton {e : Effect}
    (h : Each GateLaw (pre ++ .opened key visit :: (mid ++ [e]))) :
    Each GateLaw (pre ++ .opened key visit :: mid) ∧
      GateLaw (pre ++ .opened key visit :: mid) e := by
  refine ⟨fun p x q heq => h p x (q ++ [e]) ?_, h _ e [] (by simp)⟩
  rw [← List.cons_append, ← List.append_assoc, heq, List.append_assoc, List.cons_append]

/-- Since the gate was opened it has been answered once, or it is still open. -/
theorem answers_of_law (hlaw : Each GateLaw (pre ++ .opened key visit :: mid))
    (hmid : ∀ e ∈ mid, e.stepKey = some key ∧ ∀ v, e ≠ .opened key v) :
    (mid.countP Effect.isDecided = 0 ∧
        latest Effect.turnsGate (pre ++ .opened key visit :: mid) = some (.opened key visit)) ∨
      (mid.countP Effect.isDecided = 1 ∧ ∃ verdict,
        latest Effect.turnsGate (pre ++ .opened key visit :: mid) =
          some (.decided key visit verdict)) := by
  induction mid using List.reverseRecOn with
  | nil => exact .inl ⟨rfl, latest_snoc rfl⟩
  | append_singleton mid e ih =>
    obtain ⟨hlaw, he⟩ := each_of_append_singleton hlaw
    obtain ⟨hkey, hnew⟩ := hmid e (by simp)
    have ih := ih hlaw fun x hx => hmid x (List.mem_append_left _ hx)
    rw [← List.cons_append, ← List.append_assoc, List.countP_append, List.countP_singleton]
    cases e with
    | opened k v =>
      cases hkey
      exact absurd rfl (hnew v)
    | decided k v verdict =>
      rw [latest_snoc rfl]
      rcases ih with ⟨hcount, hlast⟩ | ⟨_, verdict', hlast⟩
      · -- the answer is for the opening
        obtain ⟨rfl, rfl⟩ : key = k ∧ visit = v := by simpa using hlast.symm.trans he
        rw [hcount]
        exact .inr ⟨rfl, verdict, rfl⟩
      · cases hlast.symm.trans he
    | _ =>
      rw [latest_append_of_not (by simp [Effect.turnsGate])]
      exact ih

/-- The graph goes on at most once for each answer. -/
theorem routes_of_law (hlaw : Each GateLaw (pre ++ .opened key visit :: mid)) :
    mid.countP Effect.isRouted + (if mid.getLast?.any Effect.isDecided then 1 else 0) ≤
      mid.countP Effect.isDecided := by
  induction mid using List.reverseRecOn with
  | nil => exact Nat.le_refl _
  | append_singleton mid e ih =>
    obtain ⟨hlaw, he⟩ := each_of_append_singleton hlaw
    have ih := ih hlaw
    rw [List.getLast?_concat, Option.any_some, List.countP_append, List.countP_append,
      List.countP_singleton, List.countP_singleton]
    cases e with
    | routed k =>
      obtain ⟨v, verdict, hlast⟩ := he
      have hafter : mid.getLast?.any Effect.isDecided = true := by
        rcases List.eq_nil_or_concat mid with rfl | ⟨mid', x, rfl⟩
        · rw [List.getLast?_concat] at hlast
          cases hlast
        · rw [List.concat_eq_append, ← List.cons_append, ← List.append_assoc,
            List.getLast?_concat] at hlast
          rw [List.concat_eq_append, List.getLast?_concat, Option.some.inj hlast]
          rfl
      rw [if_pos hafter] at ih
      simp only [Effect.isRouted, Effect.isDecided, if_true, Bool.false_eq_true, if_false]
      omega
    | decided k v verdict =>
      simp only [Effect.isRouted, Effect.isDecided, if_true, Bool.false_eq_true, if_false]
      omega
    | _ =>
      simp only [Effect.isRouted, Effect.isDecided, Bool.false_eq_true, if_false]
      omega

end Opening

namespace Runner

theorem gateInv_reachable {r : Runner} (h : missionSystem.Reachable r) :
    r.Sane ∧ Rowwise GateInv r :=
  reachable_invariant (fun _ _ hcreate => rowwise_createMission hcreate)
    (fun _ _ hs hinv hw => hinv.write hw hs (fun _ _ _ _ h hstep => h.step hstep)
      fun _ _ hfresh => gateInv_fresh hfresh) h

/-- The history of a step is lawful, also of one that has no row. -/
theorem gateLaw_reachable {r : Runner} (h : missionSystem.Reachable r) (key : String) :
    Each GateLaw (about key r.log) := by
  obtain ⟨_, hinv⟩ := gateInv_reachable h
  by_cases hkey : key ∈ r.keys
  · obtain ⟨t, ht, rfl⟩ := List.mem_map.mp hkey
    exact (hinv.row t ht).law
  · rw [hinv.unseen key hkey]
    exact each_nil

/-- An opening of the gate takes at most one answer, and the graph goes on from it at most
    once. -/
def OneAnswer (r : Runner) (key : String) : Prop :=
  ∀ pre visit mid post, about key r.log = pre ++ .opened key visit :: (mid ++ post) →
    (∀ v, .opened key v ∉ mid) →
      mid.countP Effect.isDecided ≤ 1 ∧ mid.countP Effect.isRouted ≤ 1

/-- An answer that is accepted carries the number of the last opening, which no answer has
    been accepted for. -/
def ToLastOpening (r : Runner) (now : Date) (key : String) (input : ConfirmInput)
    (fates : String → DispatchFate) : Prop :=
  (r.submitConfirmDecision key input now fates).reply = .ok .done →
    ∃ pre, ∃ visit : Nat, ∃ post, about key r.log = pre ++ .opened key visit :: post ∧
      (∀ e ∈ post, e.turnsGate = false) ∧ input.visit = visit

/-- The accepted answer, given again before the gate is opened again, changes nothing. -/
def RepeatKept (r : Runner) (now : Date) (key : String) (input : ConfirmInput)
    (fates : String → DispatchFate) : Prop :=
  ∀ pre (visit : Nat) verdict post, about key r.log = pre ++ .decided key visit verdict :: post →
    (∀ v, .opened key v ∉ post) → r.mission.status.isTerminal = false →
    isConfirmNode r.mission key = true → readConfirmVerdict input.verdict = some verdict →
    input.visit = visit →
      r.submitConfirmDecision key input now fates = ⟨r, .ok .alreadyDecided⟩

section Once

variable {r : Runner} {now : Date} {key : String} {input : ConfirmInput}
  {fates : String → DispatchFate}

theorem mem_about_key {e : Effect} (he : e ∈ about key r.log) : e.stepKey = some key :=
  (mem_about.mp he).2

section

variable (h : missionSystem.Reachable r)
include h

theorem oneAnswer : OneAnswer r key := by
  intro pre visit mid post hsplit hmid
  have hlaw := gateLaw_reachable h key
  rw [hsplit] at hlaw
  have hlaw' : Each GateLaw (pre ++ .opened key visit :: mid) := fun p x q heq =>
    hlaw p x (q ++ post) (by
      rw [← List.cons_append, ← List.append_assoc, heq, List.append_assoc, List.cons_append])
  have hmem : ∀ e ∈ mid, e.stepKey = some key ∧ ∀ v, e ≠ .opened key v := by
    intro e he
    refine ⟨mem_about_key (r := r) ?_, fun v heq => hmid v (heq ▸ he)⟩
    rw [hsplit]
    simp [he]
  have hroutes := routes_of_law hlaw'
  rcases answers_of_law hlaw' hmem with ⟨hcount, _⟩ | ⟨hcount, _⟩ <;> omega

theorem toLastOpening : ToLastOpening r now key input fates := by
  intro hreply
  obtain ⟨_, hinv⟩ := gateInv_reachable h
  unfold submitConfirmDecision at hreply
  split at hreply
  · cases hreply
  · cases hreply
  · rename_i step verdict hchecks
    obtain ⟨hstep, _, _, hawait, _, hvisit, _, _⟩ := confirmChecks_some hchecks
    obtain ⟨hmem, rfl⟩ := stepOf_some hstep
    obtain ⟨_, pre, post, hsplit, hpost⟩ := latest_eq_some.mp ((hinv.row step hmem).open_ hawait)
    exact ⟨pre, step.visit, post, hsplit, hpost, hvisit⟩

/-- Until the gate is opened again, the last thing that happened to it is the answer. -/
theorem latest_of_decided {pre post : List Effect} {visit : Nat}
    {verdict : ConfirmVerdict}
    (hsplit : about key r.log = pre ++ .decided key visit verdict :: post)
    (hpost : ∀ v, .opened key v ∉ post) :
    latest Effect.turnsGate (about key r.log) = some (.decided key visit verdict) := by
  have hlaw := gateLaw_reachable h key
  have hanswer : latest Effect.turnsGate pre = some (.opened key visit) := hlaw _ _ _ hsplit
  obtain ⟨_, pre', mid, rfl, hmid⟩ := latest_eq_some.mp hanswer
  have hsplit' : about key r.log =
      pre' ++ .opened key visit :: (mid ++ .decided key visit verdict :: post) := by
    rw [hsplit]
    simp
  rw [hsplit'] at hlaw
  have hone := answers_of_law hlaw fun e he => ⟨mem_about_key (r := r) ?_, fun v heq => ?_⟩
  · have hfirst : mid.countP Effect.isDecided = 0 := by
      refine List.countP_eq_zero.mpr fun e he => ?_
      have hquiet := hmid e he
      cases e with
      | decided => cases hquiet
      | _ => simp [Effect.isDecided]
    have hnone : post.countP Effect.isDecided = 0 := by
      rw [List.countP_append, List.countP_cons_of_pos (by rfl), hfirst] at hone
      omega
    rw [hsplit, latest_eq_some]
    refine ⟨rfl, _, post, rfl, fun e he => ?_⟩
    have hmem : e ∈ about key r.log := by
      rw [hsplit]
      simp [he]
    have hkey := mem_about_key hmem
    have hundecided := List.countP_eq_zero.mp hnone e he
    cases e with
    | opened k v =>
      cases hkey
      exact absurd he (hpost v)
    | decided => exact absurd rfl hundecided
    | _ => rfl
  · rw [hsplit']
    simp only [List.mem_append, List.mem_cons] at he ⊢
    tauto
  · subst heq
    rcases List.mem_append.mp he with he | he
    · cases hmid _ he
    · rcases List.mem_cons.mp he with he | he
      · cases he
      · exact hpost v he

theorem repeatKept : RepeatKept r now key input fates := by
  intro pre visit verdict post hsplit hpost hopen hconfirm hread hvisit
  obtain ⟨hs, hinv⟩ := gateInv_reachable h
  have hlast := latest_of_decided h hsplit hpost
  have hkey : key ∈ r.keys := by
    by_contra hnone
    rw [hinv.unseen key hnone] at hlast
    cases hlast
  obtain ⟨t, ht, rfl⟩ := List.mem_map.mp hkey
  obtain ⟨hlo, d, hdecision, hdvisit, hdverdict⟩ := (hinv.row t ht).kept _ _ _ hlast
  have hsame : input.visit = d.visit := by rw [hvisit, hdvisit]
  have hchecks : r.confirmChecks t.step_key input = .ok none := by
    have hlow : 1 ≤ input.visit := by omega
    simp only [confirmChecks, hread, orThrow, hs.distinct.stepOf ht, hopen, hconfirm, require,
      hdecision, Option.filter_some, hsame ▸ hlow, hsame, hdverdict, decide_true, Bool.not_false,
      if_true, bind, Except.bind, pure, Except.pure]
  unfold submitConfirmDecision
  rw [hchecks]

end

/-- In every reachable state: each opening of a gate takes at most one answer and routes at most
    once; an accepted answer carries the number of the last opening; the accepted answer is
    recognised when it is given again before the next opening. -/
theorem confirm_once (h : missionSystem.Reachable r) :
    OneAnswer r key ∧ ToLastOpening r now key input fates ∧ RepeatKept r now key input fates :=
  ⟨oneAnswer h, toLastOpening h, repeatKept h⟩

end Once

/-! ## A late answer -/

/-- A plan of a gate with a step behind either answer, none of them assigned. -/
def gatePlan : PlanInput :=
  { steps := [{ step_key := "gate", title := "gate" }, { step_key := "pass", title := "pass" },
      { step_key := "fail", title := "fail" }]
    graph := some
      { nodes := [{ key := "gate", kind := some "confirm" }]
        edges := [
          { source := "gate", target := "pass", kind := some "conditional"
            condition := some { verdict := some ["pass"] } },
          { source := "gate", target := "fail", kind := some "conditional"
            condition := some { verdict := some ["fail"] } }] } }

def graphMission : MissionInput := { smallMission with graph_enabled := true }

/-- The gate is open for the user. -/
def openGateCalls : List (Date × Action) :=
  [(0, .startMission smallView),
    (1, .submitPlan (smallCaller smallOrchestrator) gatePlan fun _ => .delivered)]

/-- The user's answer to the first opening. -/
def passAnswer : ConfirmInput := { verdict := "pass", visit := 1 }

/-- The gate was answered, and the orchestrator retried it. -/
def reopenedGateCalls : List (Date × Action) :=
  openGateCalls ++ [(2, .submitConfirmDecision "gate" passAnswer fun _ => .delivered),
    (3, .updateStep "gate" (smallCaller smallOrchestrator) { action := .retry }
      fun _ => .delivered)]

/-- The answer that was accepted for the first opening is accepted again for the second one,
    which has the same number. -/
theorem late_answer_accepted : ∃ r, missionSystem.Reachable r ∧
    (∃ pre mid, about "gate" r.log = pre ++ .opened "gate" 1 :: (mid ++ [.opened "gate" 1]) ∧
      .decided "gate" 1 .pass ∈ mid) ∧
    (r.submitConfirmDecision "gate" passAnswer 4 fun _ => .delivered).reply = .ok .done := by
  obtain ⟨r, hr, hp⟩ := exists_reachable_of_run graphMission reopenedGateCalls
    (fun r => about "gate" r.log = [.added "gate", .opened "gate" 1, .decided "gate" 1 .pass,
        .routed "gate", .redone "gate", .opened "gate" 1] &&
      (r.submitConfirmDecision "gate" passAnswer 4 fun _ => .delivered).reply.toOption =
        some .done) (by decide +kernel)
  simp only [Bool.and_eq_true, decide_eq_true_eq] at hp
  exact ⟨r, hr, ⟨[.added "gate"], [.decided "gate" 1 .pass, .routed "gate", .redone "gate"], hp.1,
    List.mem_cons_self⟩, except_toOption_eq_some.mp hp.2⟩

/-- Before the retry the answer is recognised. -/
theorem confirm_once_small : ∃ r : Runner, missionSystem.Reachable r ∧
    (∃ pre post, about "gate" r.log = pre ++ .decided "gate" 1 .pass :: post) ∧
    r.submitConfirmDecision "gate" passAnswer 3 (fun _ => .delivered) =
      ⟨r, .ok .alreadyDecided⟩ := by
  obtain ⟨r, hr, hp⟩ := exists_reachable_of_run graphMission (reopenedGateCalls.take 3)
    (fun r => about "gate" r.log = [.added "gate", .opened "gate" 1, .decided "gate" 1 .pass,
        .routed "gate"] && !r.mission.status.isTerminal && isConfirmNode r.mission "gate")
    (by decide +kernel)
  simp only [Bool.and_eq_true, decide_eq_true_eq, Bool.not_eq_true'] at hp
  obtain ⟨⟨hlog, hopen⟩, hconfirm⟩ := hp
  have hrepeat : RepeatKept r 3 "gate" passAnswer fun _ => .delivered := (confirm_once hr).2.2
  exact ⟨r, hr, ⟨[.added "gate", .opened "gate" 1], [.routed "gate"], hlog⟩,
    hrepeat [.added "gate", .opened "gate" 1] 1 .pass [.routed "gate"] hlog (by simp) hopen
      hconfirm (by decide +kernel) rfl⟩

/-! ## Verdicts of a gate -/

/-- A graph that makes no gate of a step that is done or has a verdict. -/
def NoDoneGate (r r' : Runner) : Prop :=
  ∀ t ∈ r.steps, t.status = .done ∨ t.verdict ≠ "" →
    isConfirmNode r'.mission t.step_key = true → isConfirmNode r.mission t.step_key = true

/-- A report on a gate that neither finishes it nor gives it a verdict. -/
def NoVerdict (m : Mission) (s : Step) (input : StepReport) : Prop :=
  isConfirmNode m s.step_key = true → input.status ≠ .done ∧ trimText input.verdict = ""

/-- The guard of this section. -/
def gateGuards : Guards :=
  { report := NoVerdict, plan := fun r _ r' => NoDoneGate r r', patch := NoDoneGate }

/-- A gate that is done, or has a verdict, got it by the answer for its visit. -/
structure AnsweredInv (m : Mission) (t : Step) (es : List Effect) : Prop where
  gate : GateInv m t es
  answered : isConfirmNode m t.step_key = true → t.status = .done ∨ t.verdict ≠ "" →
    ∃ verdict, latest Effect.turnsGate es = some (.decided t.step_key t.visit verdict) ∧
      t.verdict = verdict.text

section Answered

variable {r r' : Runner} {m m' : Mission} {s t : Step} {es es' : List Effect}

theorem isConfirmNode_congr {key : String} (h : m'.graph_spec = m.graph_spec) :
    isConfirmNode m' key = isConfirmNode m key := by
  unfold isConfirmNode
  rw [h]

/-- A change of a gate that keeps its verdict and its visit. -/
theorem AnsweredInv.congr (h : AnsweredInv m s es) (hgate : GateInv m' t (es ++ es'))
    (hgraph : m'.graph_spec = m.graph_spec) (hq : ∀ e ∈ es', e.turnsGate = false)
    (hkey : t.step_key = s.step_key) (hvisit : t.visit = s.visit) (hverdict : t.verdict = s.verdict)
    (hdone : t.status = .done → s.status = .done) : AnsweredInv m' t (es ++ es') := by
  refine ⟨hgate, fun hconfirm hset => ?_⟩
  rw [hkey, isConfirmNode_congr hgraph] at hconfirm
  rw [hverdict] at hset ⊢
  rw [latest_append_of_not hq, hkey, hvisit]
  exact h.answered hconfirm (hset.imp_left hdone)

/-- A change behind which the step is no gate, or has no verdict and is not done. -/
theorem answeredInv_of_none (hgate : GateInv m t es)
    (hnone : isConfirmNode m t.step_key = true → t.status ≠ .done ∧ t.verdict = "") :
    AnsweredInv m t es := by
  refine ⟨hgate, fun hconfirm hset => ?_⟩
  obtain ⟨hopen, hempty⟩ := hnone hconfirm
  rcases hset with hdone | hverdict
  · exact absurd hdone hopen
  · exact absurd hempty hverdict

theorem AnsweredInv.write (h : AnsweredInv r.mission s es)
    (hgraph : m'.graph_spec = r.mission.graph_spec) (hw : RowWrite gateGuards r s t es') :
    AnsweredInv m' t (es ++ es') := by
  have hgate : GateInv m' t (es ++ es') := h.gate.write hw
  cases hw with
  | keep => exact h.congr hgate hgraph (by simp) rfl rfl rfl id
  | openGate artifacts now _ _ =>
    exact answeredInv_of_none hgate fun _ => ⟨nofun, rfl⟩
  | dispatch now _ hregular =>
    refine answeredInv_of_none hgate fun hconfirm => ?_
    have hsame : isConfirmNode m' s.step_key = true := hconfirm
    rw [isConfirmNode_congr hgraph, hregular] at hsame
    cases hsame
  | redispatch now _ _ _ =>
    -- a step in flight that has become a gate keeps the verdict of its visit
    refine ⟨hgate, fun hconfirm hset => ?_⟩
    have hverdict : s.verdict ≠ "" := hset.resolve_left nofun
    have hconfirm : isConfirmNode m' s.step_key = true := hconfirm
    rw [isConfirmNode_congr hgraph] at hconfirm
    obtain ⟨verdict, hlast, htext⟩ := h.answered hconfirm (.inr hverdict)
    have hvisit : max s.visit 1 = s.visit := by
      have hlo := (h.gate.kept _ _ _ hlast).1
      omega
    refine ⟨verdict, ?_, htext⟩
    rw [latest_append_of_not (by simp [Effect.turnsGate]), hlast]
    simp only [Runner.stamped, hvisit]
  | markReady _ => exact h.congr hgate hgraph (by simp) rfl rfl rfl nofun
  | block now _ => exact h.congr hgate hgraph (by simp) rfl rfl rfl nofun
  | failDispatch error now _ =>
    exact h.congr hgate hgraph (by simp [Effect.turnsGate]) rfl rfl rfl nofun
  | unblock _ _ =>
    exact h.congr hgate hgraph (by simp [Effect.turnsGate]) rfl rfl rfl nofun
  | reenter _ _ => exact answeredInv_of_none hgate fun _ => ⟨nofun, rfl⟩
  | noteLease since _ => exact h.congr hgate hgraph (by simp) rfl rfl rfl id
  | expire reason budgetLeft now _ =>
    refine h.congr hgate hgraph (by simp [Effect.turnsGate]) rfl rfl rfl fun hdone => ?_
    unfold Runner.unrecoverable at hdone
    dsimp only at hdone
    split at hdone <;> cases hdone
  | failExternally reason now _ =>
    refine h.congr hgate hgraph (by simp [Effect.turnsGate]) rfl rfl rfl fun hdone => ?_
    unfold Runner.failedExternally at hdone
    dsimp only at hdone
    split at hdone <;> cases hdone
  | progress checkpoint now _ _ =>
    refine h.congr hgate hgraph (by simp) rfl rfl rfl fun hdone => ?_
    unfold Runner.progressed at hdone
    dsimp only at hdone
    split at hdone
    · cases hdone
    · exact hdone
  | @report input now _ _ hguard =>
    refine answeredInv_of_none hgate fun hconfirm => ?_
    have hconfirm : isConfirmNode m' s.step_key = true := hconfirm
    rw [isConfirmNode_congr hgraph] at hconfirm
    obtain ⟨hopen, hblank⟩ := hguard hconfirm
    refine ⟨fun hdone => ?_, ?_⟩
    · unfold Runner.reported at hdone
      cases hstatus : input.status with
      | done => exact hopen hstatus
      | failed => rw [hstatus] at hdone; cases hdone
      | blocked => rw [hstatus] at hdone; cases hdone
    · unfold Runner.reported
      dsimp only
      rw [hblank]
      decide +kernel
  | decide verdict now _ _ _ _ _ =>
    refine ⟨hgate, fun _ _ => ⟨verdict, ?_, rfl⟩⟩
    have hsplit : es ++ [.decided s.step_key s.visit verdict, .routed s.step_key] =
        (es ++ [.decided s.step_key s.visit verdict]) ++ [.routed s.step_key] := by simp
    rw [hsplit, latest_append_of_not (by simp [Effect.turnsGate])]
    exact latest_snoc rfl
  | budget _ _ _ => exact h.congr hgate hgraph (by simp) rfl rfl rfl id
  | skip status now _ hstatus _ =>
    refine h.congr hgate hgraph (by simp [Effect.turnsGate]) rfl rfl rfl fun hdone => ?_
    rcases hstatus with rfl | rfl <;> cases hdone
  | amend input a _ =>
    obtain ⟨_, _, _, _, _, _, _, _, _, heq⟩ := amended_revises s input a
    rw [heq] at hgate ⊢
    exact h.congr hgate hgraph (by simp) rfl rfl rfl id
  | reassign a _ _ =>
    refine h.congr hgate hgraph (by simp [Effect.turnsGate]) rfl rfl rfl fun hdone => ?_
    unfold reopenedBy at hdone
    dsimp only at hdone
    split at hdone
    · cases hdone
    · exact hdone
  | retry input a _ _ _ =>
    obtain ⟨_, _, _, _, _, _, _, _, _, heq⟩ := amended_revises s input a
    refine h.congr hgate hgraph (by simp [Effect.turnsGate]) ?_ ?_ ?_ nofun
    all_goals
      unfold retried
      rw [heq]
  | cancel now _ _ =>
    exact h.congr hgate hgraph (by simp [Effect.turnsGate]) rfl rfl rfl nofun

theorem AnsweredInv.step (hmem : s ∈ r.steps) (h : AnsweredInv r.mission s es)
    (hw : RowStep gateGuards r r' s t es') : AnsweredInv r'.mission t (es ++ es') := by
  have hgate : GateInv r'.mission t (es ++ es') := h.gate.step hw
  cases hw with
  | write hgraph hw => exact h.write hgraph hw
  | plan hguard hrev _ _ =>
    obtain ⟨_, _, _, _, _, _, _, _, _, rfl⟩ := hrev
    refine ⟨hgate, fun hconfirm hset => ?_⟩
    rw [latest_append_of_not (by simp [Effect.turnsGate])]
    exact h.answered (hguard s hmem hset hconfirm) hset
  | patch hguard =>
    refine ⟨hgate, fun hconfirm hset => ?_⟩
    rw [List.append_nil]
    exact h.answered (hguard s hmem hset hconfirm) hset

theorem answeredInv_fresh (hw : FreshRow gateGuards r r' t es) : AnsweredInv r'.mission t es := by
  have hgate : GateInv r'.mission t es := gateInv_fresh hw
  cases hw with
  | @mk input s a i n k _ _ _ =>
    refine answeredInv_of_none hgate fun _ => ?_
    cases a <;> exact ⟨nofun, rfl⟩

/-- What the condition asks of a call: no report finishes a gate or gives it a verdict, and no
    graph makes a gate of a step that is done or has a verdict. -/
def LeavesGates (r : Runner) : Action → Prop
  | .reportStep key caller input _ =>
    ∀ step, r.reportChecks key caller input = .ok step → NoVerdict r.mission step input
  | .submitPlan caller input _ => ∀ r', r.acceptPlan caller input = .ok r' → NoDoneGate r r'
  | .patchGraph caller patch _ => ∀ r', r.acceptPatch caller patch = .ok r' → NoDoneGate r r'
  | _ => True

/-- In every run whose calls meet the condition, a gate is done or has a verdict only by the
    user's answer for its visit, and the gate was not opened again since. -/
theorem verdict_of_decision
    (h : (missionSystem.restrict fun r call _ => LeavesGates r call.2).Reachable r)
    (ht : t ∈ r.steps) (hconfirm : isConfirmNode r.mission t.step_key = true)
    (hset : t.status = .done ∨ t.verdict ≠ "") :
    ∃ verdict pre post, t.verdict = verdict.text ∧
      r.log = pre ++ .decided t.step_key t.visit verdict :: post ∧
      ∀ e ∈ post, e.stepKey = some t.step_key → e.turnsGate = false := by
  obtain ⟨_, hinv⟩ :=
    mission_invariant (P := Rowwise AnsweredInv) gateGuards (fun r now a r' hc => by
      cases a with
      | reportStep key caller input fates =>
        exact fun step hchecks => ⟨hc step hchecks, fun _ _ _ => trivial⟩
      | submitPlan => exact hc
      | patchGraph => exact hc
      | _ => simp [Meets, gateGuards])
    (fun _ _ hcreate => rowwise_createMission hcreate)
    (fun _ _ hs hinv hw => hinv.write hw hs (fun _ hmem _ _ h hstep => h.step hmem hstep)
      fun _ _ hfresh => answeredInv_fresh hfresh) h
  obtain ⟨verdict, hlast, htext⟩ := (hinv.row t ht).answered hconfirm hset
  obtain ⟨_, pre, post, hlog, hpost⟩ := latest_about.mp hlast
  exact ⟨verdict, pre, post, htext, hlog, hpost⟩

end Answered

/-- The gate that the user passed. -/
theorem verdict_of_decision_small : ∃ r : Runner, ∃ t ∈ r.steps, t.status = .done ∧
    ∃ verdict pre post, t.verdict = verdict.text ∧
      r.log = pre ++ .decided t.step_key t.visit verdict :: post ∧
      ∀ e ∈ post, e.stepKey = some t.step_key → e.turnsGate = false := by
  let check : Runner → Date × Action → Bool := fun r call =>
    match call.2 with
    | .reportStep .. | .patchGraph .. => false
    | .submitPlan .. => r.steps.isEmpty
    | _ => true
  have hcheck : ∀ r call r', check r call = true →
      (fun r (call : Date × Action) (_ : Runner) => LeavesGates r call.2) r call r' := by
    rintro r ⟨now, a⟩ r' hpass
    cases a with
    | reportStep => cases hpass
    | patchGraph => cases hpass
    | submitPlan =>
      intro r' _ t ht
      rw [List.isEmpty_iff.mp hpass] at ht
      cases ht
    | _ => trivial
  obtain ⟨r, hr, hp⟩ := exists_restricted_of_run check hcheck graphMission
    (reopenedGateCalls.take 3) (fun r => r.steps.any fun t =>
      t.status = .done && isConfirmNode r.mission t.step_key) (by decide +kernel)
  simp only [List.any_eq_true, Bool.and_eq_true, decide_eq_true_eq] at hp
  obtain ⟨t, ht, hdone, hconfirm⟩ := hp
  exact ⟨r, t, ht, hdone, verdict_of_decision hr ht hconfirm (.inl hdone)⟩

/-- The orchestrator's report on the open gate. -/
def gateReport : Action :=
  .reportStep "gate" (smallCaller smallOrchestrator)
    { status := .done, verdict := "pass", visit := some 1 } fun _ => .delivered

/-- It passes the gate, and the user has not answered. -/
theorem reported_gate : ∃ r, missionSystem.Reachable r ∧
    isConfirmNode r.mission "gate" = true ∧
    (∃ t ∈ r.steps, t.step_key = "gate" ∧ t.status = .done ∧ t.verdict = "pass") ∧
    ∀ visit verdict, .decided "gate" visit verdict ∉ r.log := by
  obtain ⟨r, hr, hp⟩ := exists_reachable_of_run graphMission (openGateCalls ++ [(2, gateReport)])
    (fun r => isConfirmNode r.mission "gate" &&
      (r.steps.any fun t => t.step_key = "gate" ∧ t.status = .done ∧ t.verdict = "pass") &&
      r.log.all fun e => !e.isDecided) (by decide +kernel)
  simp only [Bool.and_eq_true, List.any_eq_true, decide_eq_true_eq, List.all_eq_true,
    Bool.not_eq_true'] at hp
  exact ⟨r, hr, hp.1.1, hp.1.2, fun visit verdict hmem => by cases hp.2 _ hmem⟩

end Runner

end WorkflowBoard.Orchestration
