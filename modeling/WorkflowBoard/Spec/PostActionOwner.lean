import WorkflowBoard.ForStd.History
import WorkflowBoard.Spec.MissionCalls

/-!
# Who ended the mission a post-action fires for

Post-actions are meant for a mission that its orchestrator ended. `completeMission` starts
the walk over the list itself. The sweep of the reaper only looks at the status and at the
pending flag, and `failMissionExternally` uses the status `failed` too, so that it also walks
the list of a mission that was given up. Where each walk that the reaper starts finds a
mission that was completed, or nothing left to fire, every Action is dispatched for a mission
its orchestrator ended.
-/

namespace WorkflowBoard.Orchestration

/-- Neither pending nor in flight. -/
def MissionPostAction.settled (pa : MissionPostAction) : Bool :=
  pa.status ≠ .pending && pa.status ≠ .in_flight

/-- How the mission was ended, unless it was reopened since. -/
def closedBy (log : List Effect) : Option EndedBy :=
  log.foldl (fun how e => match e with
    | .closed how => some how
    | .reopened => none
    | _ => how) none

theorem closedBy_append (log es : List Effect)
    (h : ∀ e ∈ es, e ≠ .reopened ∧ ∀ how, e ≠ .closed how) :
    closedBy (log ++ es) = closedBy log := by
  induction es generalizing log with
  | nil => rw [List.append_nil]
  | cons e es ih =>
    rw [← List.singleton_append, ← List.append_assoc,
      ih (log ++ [e]) fun x hx => h x (List.mem_cons_of_mem _ hx)]
    obtain ⟨hreopened, hclosed⟩ := h e List.mem_cons_self
    unfold closedBy
    rw [List.foldl_append]
    cases e with
    | closed how => exact absurd rfl (hclosed how)
    | reopened => exact absurd rfl hreopened
    | _ => rfl

theorem closedBy_closed (log : List Effect) (how : EndedBy) :
    closedBy (log ++ [.closed how]) = some how := by
  simp [closedBy]

namespace Runner

/-! ## The walk -/

/-- What a step of the walk does with the entry it stands at. -/
inductive PostMove (r : Runner) (run : PostRun) (pa : MissionPostAction) : Runner → Prop where
  /-- An entry that is settled or was launched a moment ago is passed over. -/
  | pass : run.phase = .entry → pa.status ≠ .pending →
      PostMove r run pa { r with post := some { run with index := run.index + 1 } }
  | settle {pa' : MissionPostAction} : (run.phase = .entry ∧ (pa.status = .in_flight ∨
        pa.status = .pending ∧ postActionApplies pa.condition r.mission.status = false)) ∨
      (∃ result, run.phase = .launched result) →
      pa'.order = pa.order → pa'.condition = pa.condition → pa'.action_id = pa.action_id →
      MissionPostAction.settled pa' = true → PostMove r run pa (r.settleEntry run pa')
  | mark {pa' : MissionPostAction} : run.phase = .entry → pa.status = .pending →
      postActionApplies pa.condition r.mission.status = true →
      pa'.order = pa.order → pa'.status = .in_flight →
      PostMove r run pa { r.savePostActions (run.list.set run.index pa') with
        post := some { run with list := run.list.set run.index pa', phase := .launching } }
  | miss (error : String) : run.phase = .launching →
      PostMove r run pa { r with post := some { run with phase := .launched (.error error) } }
  | call (runs : List ActionRun) (result : Except String Nat) : run.phase = .launching →
      PostMove r run pa { r with
        runs, log := r.log ++ [.actionDispatched pa.order]
        post := some { run with phase := .launched result } }

/-- A step of the walk: there is none, it is over, or it moves at an entry. -/
theorem postStep_move (r : Runner) (now : Date) (fate : LaunchFate) :
    r.postStep now fate = r ∨
      ∃ run, r.post = some run ∧ ((run.list[run.index]? = none ∧
          r.postStep now fate = { r with post := none }) ∨
        ∃ pa, run.list[run.index]? = some pa ∧ PostMove r run pa (r.postStep now fate)) := by
  unfold postStep
  split
  · exact .inl rfl
  · rename_i run hpost
    refine .inr ⟨run, hpost, ?_⟩
    split
    · rename_i hend
      exact .inl ⟨hend, rfl⟩
    · rename_i pa hpa
      refine .inr ⟨pa, hpa, ?_⟩
      split
      · rename_i hphase
        unfold visitEntry
        dsimp only
        split
        · rename_i hflight
          have hpass : pa.status ≠ .pending := fun h => by rw [h] at hflight; cases hflight
          split
          · exact .pass hphase hpass
          · split
            · exact .settle (.inl ⟨hphase, .inl hflight⟩) rfl rfl rfl rfl
            · exact .settle (.inl ⟨hphase, .inl hflight⟩) rfl rfl rfl rfl
        · rename_i hpending
          split
          · rename_i happlies
            rw [Bool.not_eq_true'] at happlies
            exact .settle (.inl ⟨hphase, .inr ⟨hpending, happlies⟩⟩) rfl rfl rfl rfl
          · rename_i happlies
            exact .mark hphase hpending (by simpa using happlies) rfl rfl
        · rename_i _ hne
          exact .pass hphase hne
      · rename_i hphase
        unfold launch
        dsimp only
        split
        · exact .miss _ hphase
        · exact .call _ _ hphase
        · exact .call _ _ hphase
      · rename_i result hphase
        unfold finishLaunch
        split <;> exact .settle (.inr ⟨_, hphase⟩) rfl rfl rfl rfl

/-! ## The owner of the walk -/

/-- The mission was completed, or no pending entry of the list applies. -/
def Owned (r : Runner) (list : List MissionPostAction) : Prop :=
  closedBy r.log = some .complete ∨ ∀ pa ∈ list, pa.status = .pending →
    postActionApplies pa.condition r.mission.status = false

/-- The guard of this module: the reaper walks the lists that have an owner. -/
def ownerGuards : Guards := { post := fun r => Owned r r.mission.post_actions }

/-- Every dispatched Action belongs to a completed mission. -/
def OwnedDispatch (pre : List Effect) (e : Effect) : Prop :=
  ∀ order, e = .actionDispatched order → closedBy pre = some .complete

structure OwnerInv (r : Runner) : Prop where
  /-- The walk runs over an ended mission; one that is not completed launches nothing. -/
  walk : ∀ run, r.post = some run → r.mission.status.isTerminal = true ∧
    (closedBy r.log = some .complete ∨ (run.phase = .entry ∧ ∀ i pa, run.index ≤ i →
      run.list[i]? = some pa → pa.status = .pending →
        postActionApplies pa.condition r.mission.status = false))
  owned : Each OwnedDispatch r.log

theorem ownedDispatch_of_ne {pre : List Effect} {e : Effect}
    (h : ∀ order, e ≠ .actionDispatched order) : OwnedDispatch pre e :=
  fun order heq => absurd heq (h order)

variable {r r' : Runner}

theorem OwnerInv.of_idle {es : List Effect} (h : OwnerInv r)
    (hpost : r'.post = none) (hlog : r'.log = r.log ++ es)
    (hes : ∀ e ∈ es, ∀ order, e ≠ .actionDispatched order) : OwnerInv r' := by
  refine ⟨fun run hrun => (by rw [hpost] at hrun; cases hrun), ?_⟩
  rw [hlog]
  exact h.owned.append_of_forall fun e he pre => ownedDispatch_of_ne (hes e he)

theorem OwnerInv.idle {r : Runner} (h : OwnerInv r) (hopen : r.mission.status.isTerminal = false) :
    r.post = none := by
  cases hpost : r.post with
  | none => rfl
  | some run =>
    have hended := (h.walk run hpost).1
    rw [hopen] at hended
    cases hended

theorem OwnerInv.start {r : Runner} (h : OwnerInv r) (hended : r.mission.status.isTerminal = true)
    (howned : Owned r r.mission.post_actions) : OwnerInv r.runPostActions := by
  unfold runPostActions
  split
  · exact h
  · refine ⟨fun run hrun => ?_, h.owned⟩
    cases hrun
    refine ⟨hended, howned.imp_right fun hquiet => ⟨rfl, fun i pa _ hpa => ?_⟩⟩
    exact hquiet pa ((List.mem_insertionSort _).mp (List.mem_of_getElem? hpa))

theorem OwnerInv.move {run : PostRun} {pa : MissionPostAction} (h : OwnerInv r)
    (hpost : r.post = some run) (hpa : run.list[run.index]? = some pa)
    (hmove : PostMove r run pa r') : OwnerInv r' := by
  obtain ⟨hended, howner⟩ := h.walk run hpost
  cases hmove with
  | pass hphase _ =>
    refine ⟨fun run' hrun => ?_, h.owned⟩
    cases hrun
    exact ⟨hended, howner.imp_right fun hquiet => ⟨hquiet.1, fun i pa hi hget =>
      hquiet.2 i pa (Nat.le_of_succ_le hi) hget⟩⟩
  | settle _ _ _ _ _ =>
    refine ⟨fun run' hrun => ?_, h.owned⟩
    cases hrun
    refine ⟨hended, howner.imp_right fun hquiet => ⟨rfl, fun i x hi hget => ?_⟩⟩
    -- the entries behind the settled one are the old ones
    refine hquiet.2 i x (Nat.le_of_succ_le hi) ?_
    rwa [List.getElem?_set_ne (Nat.ne_of_lt hi)] at hget
  | mark hphase hpending happlies _ _ =>
    refine ⟨fun run' hrun => ?_, h.owned⟩
    refine ⟨hended, .inl ?_⟩
    cases howner with
    | inl hcomplete => exact hcomplete
    | inr hquiet =>
      have hnot := hquiet.2 run.index pa (Nat.le_refl _) hpa hpending
      rw [happlies] at hnot
      cases hnot
  | miss error hphase =>
    refine ⟨fun run' hrun => ⟨hended, .inl ?_⟩, h.owned⟩
    cases howner with
    | inl hcomplete => exact hcomplete
    | inr hquiet => rw [hphase] at hquiet; cases hquiet.1
  | call runs result hphase =>
    have hcomplete : closedBy r.log = some .complete := by
      cases howner with
      | inl hcomplete => exact hcomplete
      | inr hquiet => rw [hphase] at hquiet; cases hquiet.1
    refine ⟨fun run' hrun => ⟨hended, .inl ?_⟩, h.owned.snoc fun _ _ => hcomplete⟩
    rw [← hcomplete]
    refine closedBy_append _ _ fun e he => ?_
    rw [List.mem_singleton.mp he]
    exact ⟨nofun, nofun⟩

/-- The operations that keep the walk and the status. -/
theorem OwnerInv.frame {es : List Effect} (h : OwnerInv r)
    (hpost : r'.post = r.post) (hstatus : r'.mission.status = r.mission.status)
    (hlog : r'.log = r.log ++ es) (hes : ∀ e ∈ es, (∀ order, e ≠ .actionDispatched order) ∧
      e ≠ .reopened ∧ ∀ how, e ≠ .closed how) : OwnerInv r' := by
  refine ⟨fun run hrun => ?_, ?_⟩
  · rw [hpost] at hrun
    rw [hstatus, hlog, closedBy_append _ _ fun e he => (hes e he).2]
    exact h.walk run hrun
  · rw [hlog]
    exact h.owned.append_of_forall fun e he pre => ownedDispatch_of_ne (hes e he).1

theorem not_actionDispatched_of_stepKey {e : Effect} (h : e.stepKey ≠ none) (order : Nat) :
    e ≠ .actionDispatched order := by
  rintro rfl
  exact h rfl

/-- An operation that cancels steps and closes the mission. -/
theorem not_actionDispatched_of_closing {r : Runner} {p : Step → Bool} {how : EndedBy} :
    ∀ e ∈ (r.steps.filter p).map (Effect.ended ·.step_key) ++ [.closed how],
      ∀ order, e ≠ .actionDispatched order := by
  intro e he order
  cases List.mem_append.mp he with
  | inl he =>
    obtain ⟨s, _, rfl⟩ := List.mem_map.mp he
    exact nofun
  | inr he =>
    rw [List.mem_singleton.mp he]
    exact nofun

theorem OwnerInv.life (h : OwnerInv r) (hw : LifeWrite ownerGuards r r') :
    OwnerInv r' := by
  have hnil : r.log = r.log ++ [] := (List.append_nil _).symm
  have hsilent : ∀ e ∈ ([] : List Effect), ∀ order, e ≠ .actionDispatched order :=
    nofun
  have hreopened : ∀ e ∈ [Effect.reopened], ∀ order, e ≠ .actionDispatched order := by
    intro e he order
    rw [List.mem_singleton.mp he]
    exact nofun
  cases hw.lifeCase with
  | same => exact h
  | settings =>
    refine h.frame rfl rfl rfl fun e he => ?_
    split at he
    · rw [List.mem_singleton.mp he]
      exact ⟨nofun, nofun, nofun⟩
    · cases he
  | prepared _ hdraft => exact h.of_idle (h.idle (by rw [hdraft]; rfl)) hnil hsilent
  | unbriefed _ _ hdraft => exact h.of_idle (h.idle (by rw [hdraft]; rfl)) hnil hsilent
  | started _ _ _ _ _ hdraft => exact h.of_idle (h.idle (by rw [hdraft]; rfl)) hnil hsilent
  | paused hopen _ => exact h.of_idle (h.idle hopen) hnil hsilent
  | resumed hpaused => exact h.of_idle (h.idle (by rw [hpaused]; rfl)) hnil hsilent
  | closed _ _ _ hopen _ =>
    exact h.of_idle (h.idle hopen) (List.append_assoc _ _ _) not_actionDispatched_of_closing
  | redrafted _ hpost => exact h.of_idle hpost rfl hreopened
  | reopened _ hpost => exact h.of_idle hpost rfl hreopened
  | completed _ _ _ _ hopen hstatus =>
    exact OwnerInv.start (h.of_idle (h.idle hopen) (List.append_assoc _ _ _)
      not_actionDispatched_of_closing) hstatus (.inl (closedBy_closed _ _))
  | criteria => exact h.frame rfl rfl hnil nofun
  | postStep now fate =>
    rcases postStep_move r now fate with heq | ⟨run, hpost, ⟨_, heq⟩ | ⟨pa, hpa, hmove⟩⟩
    · rw [heq]
      exact h
    · rw [heq]
      exact h.of_idle rfl hnil hsilent
    · exact h.move hpost hpa hmove
  | crash => exact h.of_idle rfl hnil hsilent
  | recover _ hended hguard => exact h.start hended hguard

/-- Every write keeps the owner of the walk. -/
theorem OwnerInv.write (h : OwnerInv r) (hw : Write ownerGuards r r') :
    OwnerInv r' := by
  cases hw.kept_or_life with
  | inl hkept =>
    obtain ⟨es, hlog, hes⟩ := hkept.log
    obtain ⟨_, _, _, _, _, status, hmission, hstatus⟩ := hkept.mission
    cases hstatus with
    | inl hsame =>
      refine h.frame hkept.post (by rw [hmission, hsame]) hlog fun e he => ?_
      refine ⟨not_actionDispatched_of_stepKey (hes e he), ?_, ?_⟩
      · rintro rfl
        exact hes _ he rfl
      · rintro how rfl
        exact hes _ he rfl
    | inr hplan =>
      -- a plan starts the mission, so nobody walks over it
      have hpost := h.idle (by rw [hplan.1]; rfl)
      exact h.of_idle (hkept.post.trans hpost) hlog fun e he =>
        not_actionDispatched_of_stepKey (hes e he)
  | inr hlife => exact h.life hlife

/-! ## Result -/

/-- A recovery or a sweep that walks over the list finds a mission that was completed, or no
    pending entry that applies. -/
def SweepsOwned (r : Runner) : Action → Prop
  | .recoverPostActions => r.mission.status.isTerminal = true → Owned r r.mission.post_actions
  | .sweepPostActions => r.mission.status ∈ [.completed, .failed] →
      r.mission.post_actions_pending = true → Owned r r.mission.post_actions
  | _ => True

/-- In every run whose sweeps find lists with an owner, an Action is only dispatched for a
    mission that was last ended by its orchestrator. -/
theorem dispatched_owned {r : Runner}
    (h : (missionSystem.restrict fun r call _ => SweepsOwned r call.2).Reachable r)
    {pre post : List Effect} {order : Nat} (hlog : r.log = pre ++ .actionDispatched order :: post) :
    closedBy pre = some .complete := by
  have hinv := (mission_invariant (P := OwnerInv) ownerGuards ?_ ?_
    (fun r r' _ hinv hw => hinv.write hw) h).2
  · exact hinv.owned pre _ post hlog order rfl
  · intro r now a r' hc
    cases a with
    | recoverPostActions => exact hc
    | sweepPostActions => exact hc
    | _ => simp [Meets, ownerGuards]
  · intro input r hcreate
    obtain ⟨_, _, _, _, hpost, hempty⟩ := createMission_ok hcreate
    refine ⟨fun run hrun => (by rw [hpost] at hrun; cases hrun), ?_⟩
    rw [hempty]
    exact each_nil

/-- The small mission with one post-action. -/
def actionMission : MissionInput := { smallMission with post_actions := [⟨"action", none⟩] }

/-- A completed mission dispatches its post-action. -/
theorem dispatched_owned_small : ∃ r : Runner, ∃ pre post order,
    r.log = pre ++ .actionDispatched order :: post ∧ closedBy pre = some .complete := by
  let check : Runner → Date × Action → Bool := fun _ call =>
    match call.2 with
    | .recoverPostActions | .sweepPostActions => false
    | _ => true
  have hcheck : ∀ (r : Runner) (call : Date × Action) (_ : Runner), check r call = true →
      SweepsOwned r call.2 := by
    rintro r ⟨now, a⟩ _ hpass
    cases a with
    | recoverPostActions => cases hpass
    | sweepPostActions => cases hpass
    | _ => trivial
  obtain ⟨r, hr, hp⟩ := exists_restricted_of_run check hcheck actionMission
    [(0, .startMission smallView),
      (1, .completeMission (smallCaller smallOrchestrator) .completed ""),
      (2, .postStep .returns), (3, .postStep .returns)]
    (fun r => r.log = [.closed .complete] ++ .actionDispatched 0 :: []) (by decide +kernel)
  have hlog := of_decide_eq_true hp
  exact ⟨r, _, _, _, hlog, dispatched_owned hr hlog⟩

/-- A mission that the reaper gave up has its post-action dispatched by the next sweep. -/
theorem given_up_dispatched : ∃ r, missionSystem.Reachable r ∧ ∃ pre post order,
    r.log = pre ++ .actionDispatched order :: post ∧ closedBy pre = some .giveUp := by
  obtain ⟨r, hr, hp⟩ := exists_reachable_of_run actionMission
    [(0, .startMission smallView), (1, .failMissionExternally false "silent"),
      (2, .sweepPostActions), (3, .postStep .returns), (4, .postStep .returns)]
    (fun r => r.log = [.closed .giveUp] ++ .actionDispatched 0 :: []) (by decide +kernel)
  exact ⟨r, hr, _, _, _, of_decide_eq_true hp, rfl⟩

end Runner

end WorkflowBoard.Orchestration
