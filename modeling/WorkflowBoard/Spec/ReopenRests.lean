import WorkflowBoard.Spec.PostActionOwner
import WorkflowBoard.Spec.RowWrites

/-!
# Ended missions hold no open work

A mission that was cancelled or given up has every open step cancelled. `completeMission`
cancels only the steps in flight, so that a step that still waits stays open in an ended
mission, and the first pump after a reopen starts it. Where every completion finds its open
steps in flight, an ended mission holds no open step, and a reopened one rests until the
orchestrator asks for work again.

`reopenMission` does not look at the rows: that it may be followed by nothing rests on the
invariant of the ended mission.
-/

namespace WorkflowBoard.Orchestration

/-- What starts or ends the rest of a reopened mission: it was reopened, a step was redone, a
    new one was planned, or one that was blocked was released. -/
def Effect.turnsRest : Effect → Bool
  | .reopened | .redone _ | .added _ | .unblocked _ => true
  | _ => false

/-- Work was handed to a member, or to the user. -/
def Effect.startsWork : Effect → Bool
  | .dispatched .. | .opened .. => true
  | _ => false

/-- The mission was reopened, and nobody asked for work since. -/
def Rests (log : List Effect) : Prop := latest Effect.turnsRest log = some .reopened

theorem rests_append {log es : List Effect} (hes : Effect.reopened ∉ es) :
    Rests (log ++ es) → Rests log ∧ ∀ e ∈ es, e.turnsRest = false := by
  intro h
  obtain ⟨_, pre, post, hlog, hpost⟩ := latest_eq_some.mp h
  -- the reopening is in the old part, as the new one has none
  rcases List.append_eq_append_iff.mp hlog with ⟨mid, rfl, rfl⟩ | ⟨mid, rfl, htail⟩
  · exact absurd (by simp) hes
  · cases mid with
    | nil =>
      rw [List.nil_append] at htail
      exact absurd (by rw [← htail]; exact List.mem_cons_self) hes
    | cons e mid =>
      obtain ⟨rfl, rfl⟩ := List.cons.inj htail
      refine ⟨latest_eq_some.mpr ⟨rfl, pre, mid, rfl, fun x hx => ?_⟩, fun x hx => ?_⟩
      · exact hpost x (List.mem_append_left _ hx)
      · exact hpost x (List.mem_append_right _ hx)

theorem rests_append_of_not {log es : List Effect} (hes : ∀ e ∈ es, e.turnsRest = false)
    (h : Rests (log ++ es)) : Rests log :=
  (rests_append (fun hmem => by cases hes _ hmem) h).1

/-- No work starts while the mission rests. -/
def StartsAwake (pre : List Effect) (e : Effect) : Prop := e.startsWork = true → ¬ Rests pre

namespace Runner

def AllEnded (r : Runner) : Prop := ∀ t ∈ r.steps, t.status.isTerminal = true

/-- Every open step is in flight. -/
def OpenInFlight (r : Runner) : Prop :=
  ∀ t ∈ r.steps, t.status.isTerminal = true ∨ t.status.isInFlight = true

theorem allEnded_cancelSteps {r r' : Runner} {p : Step → Bool} {now : Date}
    (hsteps : r'.steps = (r.cancelSteps p now).steps)
    (h : ∀ t ∈ r.steps, t.status.isTerminal = true ∨ p t = true) : r'.AllEnded := by
  intro t ht
  rw [hsteps] at ht
  obtain ⟨u, hu, ⟨_, rfl⟩ | ⟨hp, rfl⟩⟩ := mem_saveSteps ht
  · rfl
  · cases h t hu with
    | inl hended => exact hended
    | inr hpicked =>
      rw [hp] at hpicked
      cases hpicked

theorem AllEnded.congr {r r' : Runner} (h : r.AllEnded) (hsteps : r'.steps = r.steps) :
    r'.AllEnded := by
  intro t ht
  rw [hsteps] at ht
  exact h t ht

end Runner

/-! ## Rows -/

section Rows

open Runner

variable {G : Guards} {r r' : Runner} {s t : Step} {es : List Effect} {e : Effect}

theorem RowWrite.starts (hw : RowWrite G r s t es) :
    s.status.isTerminal = false ∨ ∀ e ∈ es, e.startsWork = false := by
  cases hw with
  | openGate artifacts now hwaits _ => exact .inl (not_terminal_of_isWaiting hwaits)
  | dispatch now hwaits _ => exact .inl (not_terminal_of_isWaiting hwaits)
  | redispatch now hin _ _ => exact .inl (not_terminal_of_inFlight hin)
  | _ => exact .inr (by simp [Effect.startsWork])

theorem RowStep.starts (hw : RowStep G r r' s t es) :
    s.status.isTerminal = false ∨ ∀ e ∈ es, e.startsWork = false := by
  cases hw with
  | write _ hw => exact hw.starts
  | plan _ _ _ _ => exact .inr (by simp [Effect.startsWork])
  | patch _ => exact .inr (by simp)

/-- Work starts from an open row. -/
theorem Grown.starts (h : Grown G r r') (hlog : r'.log = r.log ++ es) (he : e ∈ es)
    (hstarts : e.startsWork = true) : ∃ s ∈ r.steps, s.status.isTerminal = false := by
  obtain ⟨key, hkey⟩ : ∃ key, e.stepKey = some key := by
    cases e <;> first | exact ⟨_, rfl⟩ | cases hstarts
  have habout : about key r'.log = about key r.log ++ about key es := by
    rw [hlog, about_append]
  have hmem : e ∈ about key es := mem_about.mpr ⟨he, hkey⟩
  have hnew : ∀ es', about key r'.log = about key r.log ++ es' → e ∈ es' := by
    intro es' heq
    rwa [← List.append_cancel_left (habout.symm.trans heq)]
  by_cases hin : key ∈ r'.keys
  · obtain ⟨t, ht, rfl⟩ := List.mem_map.mp hin
    rcases h.origin t ht with ⟨s, hs, _, es', hrow, heq⟩ | ⟨_, es', hrow, heq⟩
    · refine ⟨s, hs, ?_⟩
      cases hrow.starts with
      | inl hopen => exact hopen
      | inr hquiet =>
        rw [hquiet e (hnew es' heq)] at hstarts
        cases hstarts
    · -- a new row has only been planned
      have hmem' := hnew es' heq
      cases hrow with
      | mk _ _ _ =>
        cases List.mem_append.mp hmem' with
        | inl hadded =>
          rw [(List.mem_replicate.mp hadded).2] at hstarts
          cases hstarts
        | inr hdeclared =>
          rw [(List.mem_replicate.mp hdeclared).2] at hstarts
          cases hstarts
  · have hsame := hnew [] (by rw [h.unseen key hin, List.append_nil])
    cases hsame

theorem terminal_of_revises (h : t.Revises s) (hended : s.status.isTerminal = true) :
    t.status.isTerminal = true := by
  obtain ⟨_, _, _, _, _, _, _, _, _, rfl⟩ := h
  exact hended

/-- An ended row stays ended, unless the history of its step says otherwise. -/
theorem RowWrite.ended (hw : RowWrite G r s t es) (hback : ¬ G.back s)
    (hes : ∀ e ∈ es, e.turnsRest = false) (hended : s.status.isTerminal = true) :
    t.status.isTerminal = true := by
  have hclosed : ∀ {P : Prop}, s.status.isTerminal = false → P := by
    intro P hopen
    rw [hended] at hopen
    cases hopen
  cases hw with
  | keep => exact hended
  | openGate artifacts now hwaits _ => exact hclosed (not_terminal_of_isWaiting hwaits)
  | dispatch now hwaits _ => exact hclosed (not_terminal_of_isWaiting hwaits)
  | markReady hwaits => exact hclosed (not_terminal_of_isWaiting hwaits)
  | block now hwaits => exact hclosed (not_terminal_of_isWaiting hwaits)
  | noteLease since hin => exact hclosed (not_terminal_of_inFlight hin)
  | redispatch now hin _ _ => exact hclosed (not_terminal_of_inFlight hin)
  | expire reason budgetLeft now hin => exact hclosed (not_terminal_of_inFlight hin)
  | failExternally reason now hopen => exact hclosed hopen
  | progress checkpoint now hopen _ => exact hclosed hopen
  | report now hopen _ _ => exact hclosed hopen
  | cancel now hopen _ => exact hclosed hopen
  | decide verdict now _ hawait _ _ _ => exact hclosed (by rw [hawait]; rfl)
  | failDispatch error now _ => rfl
  | reenter hguard _ => exact absurd hguard hback
  | budget _ _ _ => exact hended
  | amend input a _ => exact terminal_of_revises (amended_revises s input a) hended
  | skip status now _ hstatus _ => rcases hstatus with rfl | rfl <;> rfl
  | unblock _ hn =>
    have hturn := hes _ (List.mem_replicate.mpr ⟨Nat.ne_of_gt hn, rfl⟩)
    cases hturn
  | reassign a _ _ =>
    have hturn := hes _ List.mem_cons_self
    cases hturn
  | retry input a _ _ _ =>
    have hturn := hes _ List.mem_cons_self
    cases hturn

/-- Ended rows stay ended, unless the history says otherwise. -/
theorem Grown.allEnded (h : Grown G r r') (hlog : r'.log = r.log ++ es)
    (hback : ∀ s, ¬ G.back s) (hes : ∀ e ∈ es, e.turnsRest = false) (hended : r.AllEnded) :
    r'.AllEnded := by
  intro t ht
  have hquiet : ∀ es', about t.step_key r'.log = about t.step_key r.log ++ es' →
      ∀ e ∈ es', e.turnsRest = false := by
    intro es' heq e he
    have hnew : about t.step_key es = es' := by
      refine List.append_cancel_left ((Eq.symm ?_).trans heq)
      rw [hlog, about_append]
    rw [← hnew] at he
    exact hes e (mem_about.mp he).1
  rcases h.origin t ht with ⟨s, hs, _, es', hrow, heq⟩ | ⟨_, es', hrow, heq⟩
  · cases hrow with
    | write _ hw => exact hw.ended (hback _) (hquiet es' heq) (hended _ hs)
    | plan _ hrev _ _ => exact terminal_of_revises hrev (hended _ hs)
    | patch _ => exact hended _ hs
  · cases hrow with
    | mk _ hm _ =>
      have hturn := hquiet _ heq _
        (List.mem_append_left _ (List.mem_replicate.mpr ⟨Nat.ne_of_gt hm, rfl⟩))
      cases hturn

end Rows

/-! ## Writes -/

section Writes

open Runner

variable {G : Guards} {r r' : Runner} {quiet : Bool}

/-- The guards for a call that finds every row ended (`quiet`), or that finds an open mission:
    no loop goes back in the one, and nothing is reopened in the other. Completions find every
    open step in flight in both. -/
def restGuards (quiet : Bool) : Guards :=
  { complete := OpenInFlight
    back := fun _ => quiet = false
    reopen := fun m => quiet = true ∨ m.status.isTerminal = false }

/-- A write of a step is made while the mission is open, or about an open row. -/
theorem Write.open_or (h : Write G r r') : r.mission.status.isTerminal = false ∨
    (∃ s ∈ r.steps, s.status.isTerminal = false) ∨ LifeWrite G r r' := by
  have hrunning : r.mission.status = .running → r.mission.status.isTerminal = false := by
    intro h
    rw [h]
    rfl
  have hstarted : r.mission.status = .planning ∨ r.mission.status = .running →
      r.mission.status.isTerminal = false := by
    rintro (h | h) <;> rw [h] <;> rfl
  cases h with
  | pump hpump =>
    cases hpump with
    | openGate now hrun => exact .inl (hrunning hrun)
    | dispatch now hrun => exact .inl (hrunning hrun)
    | markReady hrun => exact .inl (hrunning hrun)
    | failDispatch error now hrun => exact .inl (hrunning hrun)
  | noteLease since hrun => exact .inl (hrunning hrun)
  | redispatch now hrun => exact .inl (hrunning hrun)
  | expire reason budgetLeft now hrun => exact .inl (hrunning hrun)
  | progress checkpoint now hmem hopen _ => exact .inr (.inl ⟨_, hmem, hopen⟩)
  | block now hopen => exact .inl hopen
  | unblock hopen => exact .inl hopen
  | reenter hopen => exact .inl hopen
  | failExternally reason now hopen => exact .inl hopen
  | report now hopen => exact .inl hopen
  | decide verdict now hopen => exact .inl hopen
  | budget hopen => exact .inl hopen
  | skip status now hopen => exact .inl hopen
  | amend input a hopen => exact .inl hopen
  | reassign a hopen => exact .inl hopen
  | retry input a hopen => exact .inl hopen
  | plan hplan _ =>
    obtain ⟨haccepted⟩ := acceptPlan_ok hplan
    exact .inl (hstarted haccepted.open_)
  | patch hpatch _ => exact .inl (hstarted (acceptPatch_ok hpatch).1)
  | life hlife => exact .inr (.inr hlife)

/-- Nothing about the rest or about work. -/
def Calm (es : List Effect) : Prop := ∀ e ∈ es, e.turnsRest = false ∧ e.startsWork = false

theorem calm_nil : Calm [] := nofun

theorem calm_singleton {e : Effect} (hturn : e.turnsRest = false) (hstart : e.startsWork = false) :
    Calm [e] := by
  intro x hx
  rw [List.mem_singleton.mp hx]
  exact ⟨hturn, hstart⟩

/-- What cancelling the steps of a mission and closing it leaves in the history. -/
theorem calm_closing {p : Step → Bool} {how : EndedBy} :
    Calm ((r.steps.filter p).map (Effect.ended ·.step_key) ++ [.closed how]) := by
  intro e he
  cases List.mem_append.mp he with
  | inl he =>
    obtain ⟨s, _, rfl⟩ := List.mem_map.mp he
    exact ⟨rfl, rfl⟩
  | inr he =>
    rw [List.mem_singleton.mp he]
    exact ⟨rfl, rfl⟩

/-- How an operation on the mission ends it, opens it or leaves it. -/
inductive LifeCases (G : Guards) (r r' : Runner) : Prop where
  | frame {es : List Effect} : r'.steps = r.steps →
      (r'.mission.status.isTerminal = true → r.mission.status.isTerminal = true) →
      r'.log = r.log ++ es → Calm es → LifeCases G r r'
  | close {es : List Effect} : r'.AllEnded → r'.log = r.log ++ es → Calm es → LifeCases G r r'
  | reopen : r'.steps = r.steps → r.mission.status.isTerminal = true → G.reopen r.mission →
      r'.log = r.log ++ [.reopened] → LifeCases G r r'

theorem lifeCases_postStep (now : Date) (fate : LaunchFate) :
    LifeCases G r (r.postStep now fate) := by
  have hnil : r.log = r.log ++ [] := (List.append_nil _).symm
  rcases postStep_move r now fate with heq | ⟨run, _, ⟨_, heq⟩ | ⟨pa, _, hmove⟩⟩
  · rw [heq]
    exact .frame rfl id hnil calm_nil
  · rw [heq]
    exact .frame rfl id hnil calm_nil
  · generalize r.postStep now fate = r' at hmove
    cases hmove with
    | pass _ _ => exact .frame rfl id hnil calm_nil
    | settle _ _ _ _ _ => exact .frame rfl id hnil calm_nil
    | mark _ _ _ _ _ => exact .frame rfl id hnil calm_nil
    | miss error _ => exact .frame rfl id hnil calm_nil
    | call runs result _ => exact .frame rfl id rfl (calm_singleton rfl rfl)

theorem LifeWrite.cases (hw : LifeWrite G r r') (hclose : ∀ r, G.complete r → OpenInFlight r) :
    LifeCases G r r' := by
  have hnil : r.log = r.log ++ [] := (List.append_nil _).symm
  have hopenOr : ∀ t ∈ r.steps, t.status.isTerminal = true ∨ (!t.status.isTerminal) = true := by
    intro t _
    cases t.status.isTerminal <;> simp
  cases hw.lifeCase with
  | same => exact .frame rfl id hnil calm_nil
  | settings =>
    refine .frame rfl id rfl ?_
    split
    · exact calm_singleton rfl rfl
    · exact calm_nil
  | prepared => exact .frame rfl id hnil calm_nil
  | unbriefed => exact .frame rfl nofun hnil calm_nil
  | started => exact .frame rfl nofun hnil calm_nil
  | paused => exact .frame rfl nofun hnil calm_nil
  | resumed =>
    refine .frame rfl (fun h => ?_) hnil calm_nil
    dsimp only [saveMission] at h
    split at h <;> cases h
  | closed =>
    exact .close (allEnded_cancelSteps rfl hopenOr) (List.append_assoc _ _ _) calm_closing
  | redrafted hguard _ hended => exact .reopen rfl hended hguard rfl
  | reopened hguard _ hended => exact .reopen rfl hended hguard rfl
  | completed _ _ _ hguard =>
    -- the walk over the post-actions starts with the rows and the history as they are
    unfold runPostActions
    split <;> exact .close (allEnded_cancelSteps rfl (hclose r hguard)) (List.append_assoc _ _ _)
      calm_closing
  | criteria => exact .frame rfl id hnil calm_nil
  | postStep now fate => exact lifeCases_postStep now fate
  | crash => exact .frame rfl id hnil calm_nil
  | recover =>
    unfold runPostActions
    split <;> exact .frame rfl id hnil calm_nil

/-- An ended mission holds no open row, and neither does one that rests; a call that found an
    open row does not bring the rest about. -/
structure RestInv (quiet : Bool) (r : Runner) : Prop where
  ended : r.mission.status.isTerminal = true → r.AllEnded
  rests : Rests r.log → r.AllEnded
  starts : Each StartsAwake r.log
  busy : quiet = false → ¬ Rests r.log

theorem RestInv.life (h : RestInv quiet r) (hw : LifeCases (restGuards quiet) r r') :
    RestInv quiet r' := by
  have hstarts : ∀ {es : List Effect}, r'.log = r.log ++ es → (∀ e ∈ es, e.startsWork = false) →
      Each StartsAwake r'.log := by
    intro es hlog hes
    rw [hlog]
    refine h.starts.append_of_forall fun e he pre hstarts => ?_
    rw [hes e he] at hstarts
    cases hstarts
  have hrested : ∀ {es : List Effect}, r'.log = r.log ++ es → Calm es → Rests r'.log →
      Rests r.log := by
    intro es hlog hcalm hrests
    rw [hlog] at hrests
    exact rests_append_of_not (fun e he => (hcalm e he).1) hrests
  cases hw with
  | frame hsteps hstatus hlog hcalm =>
    exact ⟨fun hended => (h.ended (hstatus hended)).congr hsteps,
      fun hrests => (h.rests (hrested hlog hcalm hrests)).congr hsteps,
      hstarts hlog fun e he => (hcalm e he).2,
      fun hbusy hrests => h.busy hbusy (hrested hlog hcalm hrests)⟩
  | close hall hlog hcalm =>
    exact ⟨fun _ => hall, fun _ => hall, hstarts hlog fun e he => (hcalm e he).2,
      fun hbusy hrests => h.busy hbusy (hrested hlog hcalm hrests)⟩
  | reopen hsteps hended hguard hlog =>
    have hall : r'.AllEnded := (h.ended hended).congr hsteps
    refine ⟨fun _ => hall, fun _ => hall, hstarts hlog ?_, fun hbusy => ?_⟩
    · intro e he
      rw [List.mem_singleton.mp he]
      rfl
    · -- an open mission is not reopened
      rcases hguard with hquiet | hopen
      · rw [hbusy] at hquiet
        cases hquiet
      · rw [hended] at hopen
        cases hopen

theorem RestInv.kept (h : RestInv quiet r) (hkept : Kept r r')
    (hgrown : Grown (restGuards quiet) r r') (hopen : r.mission.status.isTerminal = false ∨
      ∃ s ∈ r.steps, s.status.isTerminal = false) : RestInv quiet r' := by
  obtain ⟨es, hlog, hes⟩ := hkept.log
  have hnew : Effect.reopened ∉ es := fun hmem => hes _ hmem rfl
  have hnotAll : (∃ s ∈ r.steps, s.status.isTerminal = false) → ¬ r.AllEnded := by
    rintro ⟨s, hs, hsopen⟩ hall
    rw [hall s hs] at hsopen
    cases hsopen
  refine ⟨fun hended => ?_, fun hrests => ?_, ?_, fun hbusy hrests => ?_⟩
  · -- a mission that is ended behind the write was ended before it
    exfalso
    obtain ⟨_, _, _, _, _, status, hmission, hstatus⟩ := hkept.mission
    rw [hmission] at hended
    have hended : r.mission.status.isTerminal = true := by
      rcases hstatus with rfl | ⟨_, rfl⟩
      · exact hended
      · cases hended
    rcases hopen with hopen | hopen
    · rw [hopen] at hended
      cases hended
    · exact hnotAll hopen (h.ended hended)
  · rw [hlog] at hrests
    obtain ⟨hrested, hquiet⟩ := rests_append hnew hrests
    refine hgrown.allEnded hlog (fun s hback => ?_) hquiet (h.rests hrested)
    exact h.busy hback hrested
  · rw [hlog]
    refine h.starts.append fun pre e post hsplit hstarts hrests => ?_
    have hmem : e ∈ es := by
      rw [hsplit]
      exact List.mem_append_right _ List.mem_cons_self
    have hpre : Effect.reopened ∉ pre := by
      intro hpre
      rw [hsplit] at hnew
      exact hnew (List.mem_append_left _ hpre)
    exact hnotAll (hgrown.starts hlog hmem hstarts) (h.rests (rests_append hpre hrests).1)
  · rw [hlog] at hrests
    exact h.busy hbusy (rests_append hnew hrests).1

/-- Every write keeps the rest. -/
theorem RestInv.write (h : RestInv quiet r) (hs : r.Sane) (hw : Write (restGuards quiet) r r') :
    RestInv quiet r' := by
  cases hw.kept_or_life with
  | inr hlife => exact h.life (hlife.cases fun _ hc => hc)
  | inl hkept =>
    rcases hw.open_or with hopen | hopen | hlife
    · exact h.kept hkept (hw.grown hs) (.inl hopen)
    · exact h.kept hkept (hw.grown hs) (.inr hopen)
    · exact h.life (hlife.cases fun _ hc => hc)

end Writes

/-! ## Calls -/

namespace Runner

section Calls

variable {r : Runner} {now : Date}

/-- The condition on a call: a completion finds every open step in flight. -/
def ClosesAll (now : Date) (r : Runner) : Action → Prop
  | .completeMission caller status summary =>
    ∀ r', r.completeMission caller status summary now = .ok r' → r.OpenInFlight
  | _ => True

/-- Where every row is ended, no report and no answer is accepted. -/
theorem AllEnded.meets {a : Action} (h : r.AllEnded) (hc : ClosesAll now r a) :
    Meets (restGuards true) now r a := by
  have hclosed : ∀ {key step}, r.stepOf key = some step → step.status.isTerminal = false →
      False := by
    intro key step hstep hopen
    rw [h step (stepOf_some hstep).1] at hopen
    cases hopen
  cases a with
  | completeMission => exact hc
  | reopenMission => exact .inl rfl
  | reportStep =>
    intro step hchecks
    obtain ⟨hstep, _, hopen, _⟩ := reportChecks_ok hchecks
    exact (hclosed hstep hopen).elim
  | submitConfirmDecision =>
    intro step verdict hchecks
    obtain ⟨hstep, _, _, hawait, _⟩ := confirmChecks_some hchecks
    exact (hclosed hstep (by rw [hawait]; rfl)).elim
  | _ => simp [Meets, restGuards]

theorem meets_open {a : Action} (hopen : r.mission.status.isTerminal = false)
    (hc : ClosesAll now r a) : Meets (restGuards false) now r a := by
  cases a with
  | completeMission => exact hc
  | reopenMission => exact .inr hopen
  | _ => simp [Meets, restGuards]

/-- A call either finds every row ended or keeps an open mission busy. -/
theorem RestInv.step {r' : Runner} {a : Action} (hs : r.Sane) (h : RestInv true r)
    (hcall : missionSystem.step r (now, a) r') (hc : ClosesAll now r a) :
    r'.Sane ∧ RestInv true r' := by
  by_cases hall : r.AllEnded
  · exact (step_writes hs hcall (hall.meets hc)).invariant
      (fun _ _ hs h hw => RestInv.write h hs hw) hs h
  · have hopen : r.mission.status.isTerminal = false := by
      cases hended : r.mission.status.isTerminal with
      | false => rfl
      | true => exact absurd (h.ended hended) hall
    have hbusy : RestInv false r :=
      ⟨h.ended, h.rests, h.starts, fun _ hrests => hall (h.rests hrests)⟩
    obtain ⟨hs', h'⟩ := (step_writes hs hcall (meets_open hopen hc)).invariant
      (fun _ _ hs h hw => RestInv.write h hs hw) hs hbusy
    exact ⟨hs', h'.ended, h'.rests, h'.starts, nofun⟩

/-- Where every row is ended, the pump finds nothing to dispatch. -/
theorem AllEnded.dispatchable (hs : r.Sane) (h : r.AllEnded) :
    (progressOf r.mission r.steps).dispatchable = [] := by
  refine List.eq_nil_iff_forall_not_mem.mpr fun key hkey => ?_
  have hrow : key ∈ r.keys := by
    cases hspec : r.mission.graph_spec with
    | some spec => exact hs.rows spec hspec key (node_of_dispatchable hspec hkey)
    | none =>
      rw [progressOf_wave hspec] at hkey
      obtain ⟨v, hv, rfl⟩ := List.mem_map.mp hkey
      obtain ⟨t, ht, rfl⟩ := List.mem_map.mp (List.mem_of_mem_filter hv)
      exact mem_keys ht
  obtain ⟨t, ht, rfl⟩ := List.mem_map.mp hrow
  have hwaits := hs.distinct.waits_of_mem ht (.inl hkey)
  have hended := h t ht
  rw [not_terminal_of_isWaiting hwaits] at hended
  cases hended

end Calls

/-! ## Result -/

/-- In every run whose completions find the open steps in flight, an ended mission holds no
    open step, a reopened one has nothing to dispatch as long as it rests, and no work is
    started while it rests: first a step is redone, added, or released from behind a failed
    one. -/
theorem reopened_rests {r : Runner}
    (h : (missionSystem.restrict fun r call _ => ClosesAll call.1 r call.2).Reachable r) :
    (r.mission.status.isTerminal = true → r.AllEnded) ∧
      (Rests r.log → r.AllEnded ∧ (progressOf r.mission r.steps).dispatchable = []) ∧
      ∀ pre e post, r.log = pre ++ e :: post → e.startsWork = true → ¬ Rests pre := by
  have hinv : r.Sane ∧ RestInv true r := by
    refine h.invariant (P := fun r => r.Sane ∧ RestInv true r) ?_ ?_
    · rintro r ⟨input, hcreate⟩
      obtain ⟨_, _, _, hsteps, _, hlog⟩ := createMission_ok hcreate
      have hall : r.AllEnded := by
        intro t ht
        rw [hsteps] at ht
        cases ht
      exact ⟨sane_createMission hcreate, fun _ => hall, fun _ => hall, hlog ▸ each_nil,
        nofun⟩
    · rintro r ⟨now, a⟩ r' _ ⟨hs, hrest⟩ ⟨hcall, hc⟩
      exact RestInv.step hs hrest hcall hc
  obtain ⟨hs, hrest⟩ := hinv
  exact ⟨hrest.ended, fun hrests => ⟨hrest.rests hrests, (hrest.rests hrests).dispatchable hs⟩,
    hrest.starts⟩

/-- A step of a plan for the member. -/
def forMember (step_key : String) (depends_on : List String) : PlanStep :=
  { step_key, title := step_key, depends_on := some depends_on, assignee := some "member" }

/-- The mission is given up by its orchestrator behind a failed step and reopened. -/
def reopenedCalls : List (Date × Action) :=
  [(0, .startMission smallView),
    (1, .submitPlan (smallCaller smallOrchestrator)
      { steps := [forMember "a" [], forMember "b" ["a"]] } fun _ => .delivered),
    (2, .reportStep "a" (smallCaller smallMember) { status := .failed, lease_token := some 0 }
      fun _ => .delivered),
    (3, .completeMission (smallCaller smallOrchestrator) .failed ""),
    (4, .reopenMission none smallView)]

/-- The check of `ClosesAll` on a run. -/
def closesAllCheck (r : Runner) (call : Date × Action) : Bool :=
  match call.2 with
  | .completeMission .. => r.steps.all fun t => t.status.isTerminal || t.status.isInFlight
  | _ => true

theorem closesAll_of_check {r : Runner} {call : Date × Action} (h : closesAllCheck r call = true) :
    ClosesAll call.1 r call.2 := by
  obtain ⟨now, a⟩ := call
  cases a with
  | completeMission caller status summary =>
    intro _ _ t ht
    simpa using List.all_eq_true.mp h t ht
  | _ => trivial

/-- A mission that was reopened rests. -/
theorem reopened_rests_small : ∃ r : Runner, Rests r.log ∧
    (progressOf r.mission r.steps).dispatchable = [] := by
  obtain ⟨r, hr, hp⟩ := exists_restricted_of_run closesAllCheck
    (fun _ _ _ h => closesAll_of_check h) smallMission reopenedCalls
    (fun r => latest Effect.turnsRest r.log = some .reopened) (by decide +kernel)
  have hlast : latest Effect.turnsRest r.log = some .reopened := of_decide_eq_true hp
  have hrests : Rests r.log := hlast
  exact ⟨r, hrests, ((reopened_rests hr).2.1 hrests).2⟩

/-- What asks for work by name: a retry or another assignee, and a new step. -/
def Effect.asksWork : Effect → Bool
  | .reopened | .redone _ | .added _ => true
  | _ => false

/-- Work is started after a reopen although no step was retried, reassigned or added: the
    failed step was skipped, which releases the one behind it. And a mission that its
    orchestrator ended can hold a step that still waits. -/
theorem skip_wakes :
    (∃ r, (missionSystem.restrict fun r call _ => ClosesAll call.1 r call.2).Reachable r ∧
      ∃ pre post, r.log = pre ++ .dispatched "b" 1 1 :: post ∧
        latest Effect.asksWork pre = some .reopened) ∧
    ∃ r, missionSystem.Reachable r ∧ r.mission.status = .failed ∧
      ∃ t ∈ r.steps, t.status = .pending := by
  constructor
  · obtain ⟨r, hr, hp⟩ := exists_restricted_of_run closesAllCheck
      (fun _ _ _ h => closesAll_of_check h) smallMission
      (reopenedCalls ++ [(5, .updateStep "a" (smallCaller smallOrchestrator) { action := .skip }
        fun _ => .delivered)])
      (fun r => r.log = [.added "a", .added "b", .dispatched "a" 0 1, .ended "a",
        .closed .complete, .reopened, .ended "a", .unblocked "b"] ++ .dispatched "b" 1 1 :: [])
      (by decide +kernel)
    exact ⟨r, hr, _, _, of_decide_eq_true hp, rfl⟩
  · obtain ⟨r, hr, hp⟩ := exists_reachable_of_run smallMission
      [(0, .startMission smallView),
        (1, .submitPlan (smallCaller smallOrchestrator)
          { steps := [forMember "a" [], forMember "b" []] } fun _ => .delivered),
        (2, .completeMission (smallCaller smallOrchestrator) .failed "")]
      (fun r => decide (r.mission.status = .failed) && r.steps.any (·.status = .pending))
      (by decide +kernel)
    simp only [Bool.and_eq_true, decide_eq_true_eq, List.any_eq_true] at hp
    exact ⟨r, hr, hp.1, hp.2⟩

end Runner

end WorkflowBoard.Orchestration
