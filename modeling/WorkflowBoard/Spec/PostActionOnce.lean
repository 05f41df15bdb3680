import WorkflowBoard.Spec.PostActionOwner

/-!
# Post-actions fire at most once

An entry is saved as `in_flight` before `dispatch` is called, and a walk over the list never
calls it for an entry it does not find pending. The entries are numbered by their place and
every walk starts at the first, so the pending ones are always a tail of the list: an entry
that is dispatched comes behind every entry dispatched before, whatever was lost in a crash
between two steps. The pending flag is saved with the list and says the same.
-/

namespace WorkflowBoard.Orchestration

/-- The orders dispatched since the list was last given. -/
def dispatches (log : List Effect) : List Nat :=
  log.foldl (fun orders e => match e with
    | .listed => []
    | .actionDispatched order => orders ++ [order]
    | _ => orders) []

theorem dispatches_append (log es : List Effect)
    (h : ∀ e ∈ es, e ≠ .listed ∧ ∀ order, e ≠ .actionDispatched order) :
    dispatches (log ++ es) = dispatches log := by
  induction es generalizing log with
  | nil => rw [List.append_nil]
  | cons e es ih =>
    rw [← List.singleton_append, ← List.append_assoc,
      ih (log ++ [e]) fun x hx => h x (List.mem_cons_of_mem _ hx)]
    obtain ⟨hlisted, hdispatched⟩ := h e List.mem_cons_self
    unfold dispatches
    rw [List.foldl_append]
    cases e with
    | listed => exact absurd rfl hlisted
    | actionDispatched order => exact absurd rfl (hdispatched order)
    | _ => rfl

theorem dispatches_dispatched (log : List Effect) (order : Nat) :
    dispatches (log ++ [.actionDispatched order]) = dispatches log ++ [order] := by
  simp [dispatches]

theorem dispatches_listed (log : List Effect) : dispatches (log ++ [.listed]) = [] := by
  simp [dispatches]

/-- A dispatched entry comes behind the ones dispatched before it. -/
def IncreasingDispatch (pre : List Effect) (e : Effect) : Prop :=
  ∀ order, e = .actionDispatched order → ∀ o ∈ dispatches pre, o < order

theorem increasingDispatch_of_ne {pre : List Effect} {e : Effect}
    (h : ∀ order, e ≠ .actionDispatched order) : IncreasingDispatch pre e :=
  fun order heq => absurd heq (h order)

/-- The entries are numbered by their place. -/
def Numbered (list : List MissionPostAction) : Prop :=
  ∀ (i : Nat) (pa : MissionPostAction), list[i]? = some pa → pa.order = i

/-- The pending entries are a tail of the list. -/
def PendingTail (list : List MissionPostAction) : Prop :=
  ∀ (i j : Nat) (pa pb : MissionPostAction), i < j → list[i]? = some pa → list[j]? = some pb →
    pa.status = .pending → pb.status = .pending

section List

variable {list : List MissionPostAction} {pa pa' : MissionPostAction} {index : Nat}

theorem numbered_normalizePostActions (input : List PostActionInput) :
    Numbered (normalizePostActions input) := by
  intro i pa h
  unfold normalizePostActions at h
  rw [List.getElem?_map, List.getElem?_zipIdx] at h
  cases hget : (input.filter (trimText ·.action_id ≠ ""))[i]? with
  | none => rw [hget] at h; cases h
  | some raw =>
    rw [hget] at h
    cases h
    exact Nat.zero_add i

theorem pending_normalizePostActions {input : List PostActionInput} {pa : MissionPostAction}
    (h : pa ∈ normalizePostActions input) : pa.status = .pending := by
  unfold normalizePostActions at h
  obtain ⟨_, _, rfl⟩ := List.mem_map.mp h
  rfl

theorem pendingTail_normalizePostActions (input : List PostActionInput) :
    PendingTail (normalizePostActions input) :=
  fun _ _ _ _ _ _ hb _ => pending_normalizePostActions (List.mem_of_getElem? hb)

/-- The flag of a new list says whether it has an entry. -/
theorem anyUnsettled_normalizePostActions (input : List PostActionInput) :
    anyUnsettled (normalizePostActions input) = decide (normalizePostActions input ≠ []) := by
  cases hlist : normalizePostActions input with
  | nil => rfl
  | cons pa list =>
    have hmem : pa ∈ normalizePostActions input := by
      rw [hlist]
      exact List.mem_cons_self
    have hpending := pending_normalizePostActions hmem
    simp [anyUnsettled, hpending]

/-- A numbered list is in the order the walk sorts it to. -/
theorem Numbered.sorted (h : Numbered list) :
    (list.insertionSort fun a b => a.order ≤ b.order) = list := by
  refine List.Pairwise.insertionSort_eq (List.pairwise_iff_getElem.mpr fun i j hi hj hij => ?_)
  rw [h i _ (List.getElem?_eq_getElem hi), h j _ (List.getElem?_eq_getElem hj)]
  exact Nat.le_of_lt hij

theorem Numbered.set (h : Numbered list) (hpa : list[index]? = some pa)
    (horder : pa'.order = pa.order) : Numbered (list.set index pa') := by
  intro i x hx
  rcases getElem?_set_cases hx with ⟨rfl, rfl⟩ | ⟨_, hold⟩
  · rw [horder]
    exact h index pa hpa
  · exact h i x hold

/-- The tail behind an entry that is no longer pending, when none before it was. -/
theorem PendingTail.set (h : PendingTail list)
    (hbefore : ∀ i < index, ∀ x : MissionPostAction, list[i]? = some x → x.status ≠ .pending)
    (hdone : pa'.status ≠ .pending) : PendingTail (list.set index pa') := by
  intro i j x y hij hx hy hpending
  rcases getElem?_set_cases hx with ⟨_, rfl⟩ | ⟨_, hxold⟩
  · exact absurd hpending hdone
  · rcases getElem?_set_cases hy with ⟨rfl, _⟩ | ⟨_, hyold⟩
    · exact absurd hpending (hbefore i hij x hxold)
    · exact h i j x y hij hxold hyold hpending

end List

namespace Runner

/-- Where the walk stands, with the list in memory the saved one. -/
structure WalkInv (r : Runner) (run : PostRun) : Prop where
  ended : r.mission.status.isTerminal = true
  list : run.list = r.mission.post_actions
  before : ∀ i < run.index, ∀ pa : MissionPostAction, run.list[i]? = some pa →
    pa.status ≠ .pending
  marked : run.phase ≠ .entry → ∃ pa, run.list[run.index]? = some pa ∧ pa.status = .in_flight
  ahead : run.phase = .launching → ∀ o ∈ dispatches r.log, o < run.index

structure OnceInv (r : Runner) : Prop where
  flag : r.mission.post_actions_pending = anyUnsettled r.mission.post_actions
  numbered : Numbered r.mission.post_actions
  tail : PendingTail r.mission.post_actions
  gone : ∀ o ∈ dispatches r.log, ∃ pa, r.mission.post_actions[o]? = some pa ∧ pa.status ≠ .pending
  walk : ∀ run, r.post = some run → WalkInv r run
  increasing : Each IncreasingDispatch r.log

variable {r r' : Runner}

theorem OnceInv.idle (h : OnceInv r) (hopen : r.mission.status.isTerminal = false) :
    r.post = none := by
  cases hpost : r.post with
  | none => rfl
  | some run =>
    have hended := (h.walk run hpost).ended
    rw [hopen] at hended
    cases hended

/-- The operations that neither walk nor touch the list. -/
theorem OnceInv.frame {es : List Effect} (h : OnceInv r)
    (hpost : r'.post = none ∨ (r'.post = r.post ∧ r'.mission.status = r.mission.status))
    (hlist : r'.mission.post_actions = r.mission.post_actions)
    (hflag : r'.mission.post_actions_pending = r.mission.post_actions_pending)
    (hlog : r'.log = r.log ++ es)
    (hes : ∀ e ∈ es, e ≠ .listed ∧ ∀ order, e ≠ .actionDispatched order) : OnceInv r' := by
  have hgone : dispatches r'.log = dispatches r.log := by rw [hlog, dispatches_append _ _ hes]
  refine ⟨?_, ?_, ?_, ?_, fun run hrun => ?_, ?_⟩
  · rw [hflag, hlist]
    exact h.flag
  · rw [hlist]
    exact h.numbered
  · rw [hlist]
    exact h.tail
  · rw [hgone, hlist]
    exact h.gone
  · cases hpost with
    | inl hnone => rw [hnone] at hrun; cases hrun
    | inr hsame =>
      rw [hsame.1] at hrun
      have hwalk := h.walk run hrun
      refine ⟨?_, ?_, hwalk.before, hwalk.marked, ?_⟩
      · rw [hsame.2]
        exact hwalk.ended
      · rw [hlist]
        exact hwalk.list
      · rw [hgone]
        exact hwalk.ahead
  · rw [hlog]
    exact h.increasing.append_of_forall fun e he pre => increasingDispatch_of_ne (hes e he).2

/-- A walk starts at the first entry of the saved list. -/
theorem OnceInv.start (h : OnceInv r) (hended : r.mission.status.isTerminal = true) :
    OnceInv r.runPostActions := by
  unfold runPostActions
  split
  · exact h
  · refine ⟨h.flag, h.numbered, h.tail, h.gone, fun run hrun => ?_, h.increasing⟩
    cases hrun
    exact ⟨hended, h.numbered.sorted, fun i hi => absurd hi (Nat.not_lt_zero i),
      fun hphase => absurd rfl hphase, nofun⟩

/-- A new list is given to a mission that nobody walks over. -/
theorem OnceInv.relist {input : List PostActionInput} (h : OnceInv r) (hpost : r'.post = none)
    (hlist : r'.mission.post_actions = normalizePostActions input)
    (hflag : r'.mission.post_actions_pending = decide (normalizePostActions input ≠ []))
    (hlog : r'.log = r.log ++ [.listed]) : OnceInv r' := by
  refine ⟨?_, ?_, ?_, ?_, fun run hrun => ?_, ?_⟩
  · rw [hflag, hlist, anyUnsettled_normalizePostActions]
  · rw [hlist]
    exact numbered_normalizePostActions input
  · rw [hlist]
    exact pendingTail_normalizePostActions input
  · intro o ho
    rw [hlog, dispatches_listed] at ho
    cases ho
  · rw [hpost] at hrun
    cases hrun
  · rw [hlog]
    exact h.increasing.snoc (increasingDispatch_of_ne fun _ heq => by cases heq)

/-! ## One step of the walk -/

variable {run : PostRun} {G : Guards} {order : Nat}

/-- Saving the list with an entry that is no longer pending. -/
theorem OnceInv.saved {pa pa' : MissionPostAction} (h : OnceInv r)
    (hwalk : WalkInv r run) (hpa : run.list[run.index]? = some pa)
    (horder : pa'.order = pa.order) (hdone : pa'.status ≠ .pending) :
    Numbered (run.list.set run.index pa') ∧ PendingTail (run.list.set run.index pa') ∧
      ∀ o ∈ dispatches r.log, ∃ x, (run.list.set run.index pa')[o]? = some x ∧
        x.status ≠ .pending := by
  have hlist := hwalk.list
  refine ⟨Numbered.set (hlist ▸ h.numbered) hpa horder,
    PendingTail.set (hlist ▸ h.tail) hwalk.before hdone, fun o ho => ?_⟩
  by_cases ho' : run.index = o
  · subst ho'
    refine ⟨pa', ?_, hdone⟩
    rw [getElem?_set_self hpa]
  · rw [List.getElem?_set_ne ho', hlist]
    exact h.gone o ho

theorem OnceInv.move {pa : MissionPostAction} (h : OnceInv r)
    (hpost : r.post = some run) (hpa : run.list[run.index]? = some pa)
    (hmove : PostMove r run pa r') : OnceInv r' := by
  have hwalk := h.walk run hpost
  have hlist := hwalk.list
  have hindex : pa.order = run.index := h.numbered run.index pa (hlist ▸ hpa)
  cases hmove with
  | pass hphase hne =>
    refine ⟨h.flag, h.numbered, h.tail, h.gone, fun run' hrun => ?_, h.increasing⟩
    cases hrun
    refine ⟨hwalk.ended, hlist, fun i hi x hx => ?_, fun hne' => absurd hphase hne', fun hlaunch =>
      by rw [hphase] at hlaunch; cases hlaunch⟩
    rcases Nat.lt_succ_iff_lt_or_eq.mp hi with hi | rfl
    · exact hwalk.before i hi x hx
    · cases hpa.symm.trans hx
      exact hne
  | @settle pa' _ horder _ _ hsettled =>
    have hdone : pa'.status ≠ .pending := by
      intro hpending
      simp [MissionPostAction.settled, hpending] at hsettled
    obtain ⟨hnumbered, htail, hgone⟩ := h.saved hwalk hpa horder hdone
    refine ⟨rfl, hnumbered, htail, hgone, fun run' hrun => ?_, h.increasing⟩
    cases hrun
    refine ⟨hwalk.ended, rfl, fun i hi x hx => ?_, fun hne => absurd rfl hne, fun hlaunch => by
      cases hlaunch⟩
    rcases getElem?_set_cases hx with ⟨_, rfl⟩ | ⟨hne, hold⟩
    · exact hdone
    · exact hwalk.before i (Nat.lt_of_le_of_ne (Nat.lt_succ_iff.mp hi) (Ne.symm hne)) x hold
  | @mark pa' hphase hpending _ horder hflight =>
    have hdone : pa'.status ≠ .pending := by
      rw [hflight]
      exact nofun
    obtain ⟨hnumbered, htail, hgone⟩ := h.saved hwalk hpa horder hdone
    refine ⟨rfl, hnumbered, htail, hgone, fun run' hrun => ?_, h.increasing⟩
    cases hrun
    have hlength := lt_of_getElem? hpa
    refine ⟨hwalk.ended, rfl, fun i hi x hx => ?_, fun _ => ⟨pa', ?_, hflight⟩, fun _ o ho => ?_⟩
    · rcases getElem?_set_cases hx with ⟨rfl, _⟩ | ⟨_, hold⟩
      · exact absurd hi (Nat.lt_irrefl _)
      · exact hwalk.before i hi x hold
    · exact List.getElem?_set_self hlength
    · -- an entry dispatched before is not pending, so it lies before the pending one
      obtain ⟨x, hx, hxdone⟩ := h.gone o ho
      rcases Nat.lt_trichotomy o run.index with hlt | heq | hgt
      · exact hlt
      · rw [heq, ← hlist, hpa] at hx
        cases hx
        exact absurd hpending hxdone
      · exact absurd (h.tail run.index o pa x hgt (hlist ▸ hpa) hx hpending) hxdone
  | miss error hphase =>
    have hmarked := hwalk.marked (by rw [hphase]; exact fun heq => by cases heq)
    refine ⟨h.flag, h.numbered, h.tail, h.gone, fun run' hrun => ?_, h.increasing⟩
    cases hrun
    exact ⟨hwalk.ended, hlist, hwalk.before, fun _ => hmarked, nofun⟩
  | call runs result hphase =>
    have hmarked := hwalk.marked (by rw [hphase]; exact fun heq => by cases heq)
    have hahead := hwalk.ahead hphase
    refine ⟨h.flag, h.numbered, h.tail, fun o ho => ?_, fun run' hrun => ?_, ?_⟩
    · change o ∈ dispatches (r.log ++ [.actionDispatched pa.order]) at ho
      rw [dispatches_dispatched, List.mem_append, List.mem_singleton] at ho
      cases ho with
      | inl ho => exact h.gone o ho
      | inr ho =>
        obtain ⟨x, hx, hflight⟩ := hmarked
        refine ⟨x, ?_, by rw [hflight]; exact nofun⟩
        rw [ho, hindex]
        exact hlist ▸ hx
    · cases hrun
      exact ⟨hwalk.ended, hlist, hwalk.before, fun _ => hmarked, nofun⟩
    · refine h.increasing.snoc fun order heq o ho => ?_
      obtain rfl := (Effect.actionDispatched.inj heq)
      rw [hindex]
      exact hahead o ho

/-! ## The other operations -/

/-- The list, its flag and the dispatches stay; a walk goes on where it was or is dropped. -/
structure Unwalked (r r' : Runner) : Prop where
  post : r'.post = none ∨ (r'.post = r.post ∧ r'.mission.status = r.mission.status)
  list : r'.mission.post_actions = r.mission.post_actions
  flag : r'.mission.post_actions_pending = r.mission.post_actions_pending
  log : ∃ es, r'.log = r.log ++ es ∧ ∀ e ∈ es, e ≠ .listed ∧ ∀ order, e ≠ .actionDispatched order

/-- What a write does to the list: nothing, it is given anew, a walk starts or moves. -/
def PostCases (r r' : Runner) : Prop :=
  Unwalked r r' ∨
    (∃ input, r'.post = none ∧ r'.mission.post_actions = normalizePostActions input ∧
      r'.mission.post_actions_pending = decide (normalizePostActions input ≠ []) ∧
      r'.log = r.log ++ [.listed]) ∨
    (∃ r₁, Unwalked r r₁ ∧ r₁.mission.status.isTerminal = true ∧ r' = r₁.runPostActions) ∨
    ∃ now fate, r' = r.postStep now fate

theorem Unwalked.refl (r : Runner) : Unwalked r r :=
  ⟨.inr ⟨rfl, rfl⟩, rfl, rfl, [], (List.append_nil _).symm, nofun⟩

theorem quiet_closing {p : Step → Bool} {how : EndedBy} :
    ∀ e ∈ (r.steps.filter p).map (Effect.ended ·.step_key) ++ [.closed how],
      e ≠ .listed ∧ ∀ order, e ≠ .actionDispatched order := by
  intro e he
  refine ⟨?_, not_actionDispatched_of_closing e he⟩
  cases List.mem_append.mp he with
  | inl he =>
    obtain ⟨s, _, rfl⟩ := List.mem_map.mp he
    exact nofun
  | inr he =>
    rw [List.mem_singleton.mp he]
    exact nofun

theorem LifeWrite.post_cases (hw : LifeWrite G r r')
    (hidle : r.mission.status.isTerminal = false → r.post = none) : PostCases r r' := by
  have hnil : ∃ es, r.log = r.log ++ es ∧
      ∀ e ∈ es, e ≠ .listed ∧ ∀ order, e ≠ .actionDispatched order :=
    ⟨[], (List.append_nil _).symm, nofun⟩
  have hreopened : ∀ e ∈ [Effect.reopened], e ≠ .listed ∧ ∀ order, e ≠ .actionDispatched order := by
    intro e he
    rw [List.mem_singleton.mp he]
    exact ⟨nofun, nofun⟩
  cases hw.lifeCase with
  | same => exact .inl (.refl r)
  | @settings p criteria hbrief _ =>
    cases hgiven : p.post_actions with
    | none =>
      refine .inl ⟨.inr ⟨rfl, rfl⟩, ?_, ?_, [], ?_, nofun⟩
      · simp [patchedBy, hgiven]
      · simp [patchedBy, hgiven]
      · simp
    | some input =>
      -- a new list is only accepted by a draft
      have hdraft : r.mission.status = .draft := by
        cases hbrief with
        | inl hdraft => exact hdraft
        | inr hbrief => simp [MissionPatch.touchesBrief, hgiven] at hbrief
      refine .inr (.inl ⟨input, hidle (by rw [hdraft]; rfl), ?_, ?_, ?_⟩)
      · simp [patchedBy, hgiven]
      · simp [patchedBy, hgiven]
      · simp
  | prepared _ hdraft => exact .inl ⟨.inl (hidle (by rw [hdraft]; rfl)), rfl, rfl, hnil⟩
  | unbriefed _ _ hdraft => exact .inl ⟨.inl (hidle (by rw [hdraft]; rfl)), rfl, rfl, hnil⟩
  | started _ _ _ _ _ hdraft => exact .inl ⟨.inl (hidle (by rw [hdraft]; rfl)), rfl, rfl, hnil⟩
  | paused hopen _ => exact .inl ⟨.inl (hidle hopen), rfl, rfl, hnil⟩
  | resumed hpaused => exact .inl ⟨.inl (hidle (by rw [hpaused]; rfl)), rfl, rfl, hnil⟩
  | closed _ _ _ hopen _ =>
    exact .inl ⟨.inl (hidle hopen), rfl, rfl, _, List.append_assoc _ _ _, quiet_closing⟩
  | redrafted _ hpost => exact .inl ⟨.inl hpost, rfl, rfl, _, rfl, hreopened⟩
  | reopened _ hpost => exact .inl ⟨.inl hpost, rfl, rfl, _, rfl, hreopened⟩
  | completed _ _ _ _ hopen hstatus =>
    refine .inr (.inr (.inl ⟨_, ?_, ?_, rfl⟩))
    · exact ⟨.inl (hidle hopen), rfl, rfl, _, List.append_assoc _ _ _, quiet_closing⟩
    · exact hstatus
  | criteria => exact .inl ⟨.inr ⟨rfl, rfl⟩, rfl, rfl, hnil⟩
  | postStep now fate => exact .inr (.inr (.inr ⟨now, fate, rfl⟩))
  | crash => exact .inl ⟨.inl rfl, rfl, rfl, hnil⟩
  | recover _ hended _ => exact .inr (.inr (.inl ⟨r, .refl r, hended, rfl⟩))

theorem Write.post_cases (hw : Write G r r')
    (hidle : r.mission.status.isTerminal = false → r.post = none) : PostCases r r' := by
  cases hw.kept_or_life with
  | inl hkept =>
    obtain ⟨es, hlog, hes⟩ := hkept.log
    obtain ⟨_, _, _, _, _, status, hmission, hstatus⟩ := hkept.mission
    refine .inl ⟨?_, by rw [hmission], by rw [hmission], es, hlog, fun e he =>
      ⟨?_, not_actionDispatched_of_stepKey (hes e he)⟩⟩
    · cases hstatus with
      | inl hsame => exact .inr ⟨hkept.post, by rw [hmission, hsame]⟩
      | inr hplan => exact .inl (hkept.post.trans (hidle (by rw [hplan.1]; rfl)))
    · rintro rfl
      exact hes _ he rfl
  | inr hlife => exact LifeWrite.post_cases hlife hidle

theorem OnceInv.unwalked (h : OnceInv r) (hsame : Unwalked r r') : OnceInv r' := by
  obtain ⟨es, hlog, hes⟩ := hsame.log
  exact h.frame hsame.post hsame.list hsame.flag hlog hes

/-- Every write keeps the list, the walk and the history together. -/
theorem OnceInv.write (h : OnceInv r) (hw : Write G r r') : OnceInv r' := by
  rcases Write.post_cases hw h.idle with hsame | ⟨_, hpost, hlist, hflag, hlog⟩ |
    ⟨r₁, hsame, hended, rfl⟩ | ⟨now, fate, rfl⟩
  · exact h.unwalked hsame
  · exact h.relist hpost hlist hflag hlog
  · exact (h.unwalked hsame).start hended
  · rcases postStep_move r now fate with heq | ⟨run, hpost, ⟨_, heq⟩ | ⟨pa, hpa, hmove⟩⟩
    · rw [heq]
      exact h
    · rw [heq]
      exact h.frame (.inl rfl) rfl rfl (List.append_nil _).symm nofun
    · exact h.move hpost hpa hmove

/-! ## Entries that are spent -/

/-- The walk stands right before the call for the entry. -/
def Launching (r : Runner) (order : Nat) : Prop :=
  ∃ run, r.post = some run ∧ run.phase = .launching ∧ run.index = order

/-- The entry is not pending, and it is not about to be dispatched. -/
structure Spent (order : Nat) (r : Runner) : Prop where
  entry : ∃ pa, r.mission.post_actions[order]? = some pa ∧ pa.status ≠ .pending
  idle : ¬ r.Launching order

/-- Since the history `log`, the list was given anew or the spent entry was not dispatched. -/
def StillSpent (log : List Effect) (order : Nat) (r : Runner) : Prop :=
  ∃ es, r.log = log ++ es ∧ (.listed ∈ es ∨ (.actionDispatched order ∉ es ∧ Spent order r))

theorem Spent.unwalked (h : Spent order r) (hsame : Unwalked r r') :
    Spent order r' := by
  refine ⟨hsame.list ▸ h.entry, fun ⟨run, hrun, hphase, hindex⟩ => ?_⟩
  cases hsame.post with
  | inl hnone => rw [hnone] at hrun; cases hrun
  | inr hpost => exact h.idle ⟨run, hpost.1 ▸ hrun, hphase, hindex⟩

theorem Spent.start (h : Spent order r) : Spent order r.runPostActions := by
  refine ⟨by rw [runPostActions_mission]; exact h.entry, fun ⟨run, hrun, hphase, hindex⟩ => ?_⟩
  unfold runPostActions at hrun
  split at hrun
  · exact h.idle ⟨run, hrun, hphase, hindex⟩
  · cases hrun
    cases hphase

/-- A step of the walk dispatches no spent entry and leaves it spent. -/
theorem Spent.move {pa : MissionPostAction} (h : Spent order r)
    (hinv : OnceInv r) (hpost : r.post = some run) (hpa : run.list[run.index]? = some pa)
    (hmove : PostMove r run pa r') :
    ∃ es, r'.log = r.log ++ es ∧ .actionDispatched order ∉ es ∧ Spent order r' := by
  have hwalk := hinv.walk run hpost
  have hlist := hwalk.list
  have hindex : pa.order = run.index := hinv.numbered run.index pa (hlist ▸ hpa)
  obtain ⟨x, hx, hdone⟩ := h.entry
  have hnil : r.log = r.log ++ [] := (List.append_nil _).symm
  -- the entry in the list with the entry of the walk set
  have hset : ∀ pa' : MissionPostAction, pa'.status ≠ .pending →
      ∃ y, (run.list.set run.index pa')[order]? = some y ∧ y.status ≠ .pending := by
    intro pa' hdone'
    by_cases ho : run.index = order
    · subst ho
      exact ⟨pa', getElem?_set_self hpa, hdone'⟩
    · rw [List.getElem?_set_ne ho, hlist]
      exact ⟨x, hx, hdone⟩
  cases hmove with
  | pass hphase _ =>
    refine ⟨[], hnil, by simp, h.entry, fun ⟨run', hrun, hphase', _⟩ => ?_⟩
    cases hrun
    rw [hphase] at hphase'
    cases hphase'
  | @settle pa' _ _ _ _ hsettled =>
    have hdone' : pa'.status ≠ .pending := by
      intro hpending
      simp [MissionPostAction.settled, hpending] at hsettled
    refine ⟨[], hnil, by simp, hset pa' hdone', fun ⟨run', hrun, hphase', _⟩ => ?_⟩
    cases hrun
    cases hphase'
  | @mark pa' hphase hpending _ _ hflight =>
    refine ⟨[], hnil, by simp, hset pa' (by rw [hflight]; exact fun hp => by cases hp),
      fun ⟨run', hrun, _, hindex'⟩ => ?_⟩
    cases hrun
    -- the entry of the walk was pending, so it is another one
    have hsame : run.index = order := hindex'
    rw [← hsame, ← hlist, hpa] at hx
    exact hdone (Option.some.inj hx ▸ hpending)
  | miss error hphase =>
    refine ⟨[], hnil, by simp, h.entry, fun ⟨run', hrun, hphase', _⟩ => ?_⟩
    cases hrun
    cases hphase'
  | call runs result hphase =>
    refine ⟨[.actionDispatched pa.order], rfl, ?_, h.entry, fun ⟨run', hrun, hphase', _⟩ => ?_⟩
    · rw [List.mem_singleton]
      intro heq
      exact h.idle ⟨run, hpost, hphase, (Effect.actionDispatched.inj heq ▸ hindex).symm⟩
    · cases hrun
      cases hphase'

theorem StillSpent.write {log : List Effect}
    (h : StillSpent log order r) (hinv : OnceInv r) (hw : Write G r r') :
    StillSpent log order r' := by
  obtain ⟨es, hlog, hcases⟩ := h
  -- it is enough to look at what the write adds
  have hadd : ∀ es', r'.log = r.log ++ es' → (.listed ∈ es' ∨ (Spent order r →
      .actionDispatched order ∉ es' ∧ Spent order r')) → StillSpent log order r' := by
    intro es' hlog' hnew
    refine ⟨es ++ es', by rw [hlog', hlog, List.append_assoc], ?_⟩
    rcases hcases with hlisted | ⟨hnot, hspent⟩
    · exact .inl (List.mem_append_left _ hlisted)
    · rcases hnew with hlisted | hkeep
      · exact .inl (List.mem_append_right _ hlisted)
      · obtain ⟨hnot', hspent'⟩ := hkeep hspent
        exact .inr ⟨fun hmem => (List.mem_append.mp hmem).elim hnot hnot', hspent'⟩
  rcases Write.post_cases hw hinv.idle with hsame | ⟨_, _, _, _, hlog'⟩ | ⟨r₁, hsame, _, rfl⟩ |
    ⟨now, fate, rfl⟩
  · obtain ⟨es', hlog', hes⟩ := hsame.log
    exact hadd es' hlog' (.inr fun hspent => ⟨fun hmem => (hes _ hmem).2 order rfl,
      hspent.unwalked hsame⟩)
  · exact hadd _ hlog' (.inl (List.mem_singleton.mpr rfl))
  · obtain ⟨es', hlog', hes⟩ := hsame.log
    have hlog₁ : r₁.runPostActions.log = r.log ++ es' := by
      rw [← hlog']
      unfold runPostActions
      split <;> rfl
    exact hadd es' hlog₁ (.inr fun hspent => ⟨fun hmem => (hes _ hmem).2 order rfl,
      (hspent.unwalked hsame).start⟩)
  · rcases postStep_move r now fate with heq | ⟨run, hpost, ⟨_, heq⟩ | ⟨pa, hpa, hmove⟩⟩
    · rw [heq]
      exact ⟨es, hlog, hcases⟩
    · rw [heq] at hadd ⊢
      refine hadd [] (List.append_nil _).symm (.inr fun hspent => ⟨by simp, hspent.entry, ?_⟩)
      rintro ⟨run', hrun, _⟩
      cases hrun
    · by_cases hspent : Spent order r
      · obtain ⟨es', hlog', hnot, hspent'⟩ := hspent.move hinv hpost hpa hmove
        exact hadd es' hlog' (.inr fun _ => ⟨hnot, hspent'⟩)
      · obtain ⟨es', hlog', _⟩ := (framed_postStep (r := r) now fate).log
        exact hadd es' hlog' (.inr fun h => absurd h hspent)

/-! ## Result -/

theorem onceInv_createMission {input : MissionInput} (h : createMission input = some r) :
    OnceInv r := by
  unfold createMission at h
  cases hcriteria : normalizeCompletionCriteria input.completion_criteria with
  | none => rw [hcriteria] at h; cases h
  | some criteria =>
    rw [hcriteria] at h
    cases h
    exact ⟨(anyUnsettled_normalizePostActions _).symm, numbered_normalizePostActions _,
      pendingTail_normalizePostActions _, nofun, nofun,
      each_nil⟩

/-- A history whose dispatches increase dispatches no entry of a list twice. -/
theorem nodup_dispatches {log : List Effect} (h : Each IncreasingDispatch log) :
    (dispatches log).Pairwise (· < ·) := by
  induction log using List.reverseRecOn with
  | nil => exact List.Pairwise.nil
  | append_singleton log e ih =>
    have hlog := ih fun pre x post hsplit =>
      h pre x (post ++ [e]) (by rw [hsplit, List.append_assoc, List.cons_append])
    by_cases hlisted : e = .listed
    · rw [hlisted, dispatches_listed]
      exact List.Pairwise.nil
    · by_cases hcall : ∃ order, e = .actionDispatched order
      · obtain ⟨order, rfl⟩ := hcall
        rw [dispatches_dispatched]
        refine List.pairwise_append.mpr ⟨hlog, List.pairwise_singleton _ _, fun o ho x hx => ?_⟩
        rw [List.mem_singleton.mp hx]
        exact h log _ [] rfl order rfl o ho
      · rw [dispatches_append log [e] fun x hx => ?_]
        · exact hlog
        · rw [List.mem_singleton.mp hx]
          exact ⟨hlisted, fun order heq => hcall ⟨order, heq⟩⟩

/-- In every reachable state: each Action of a list is dispatched at most once and behind the
    ones dispatched before it, the pending flag says whether some entry is pending or in flight,
    and an entry that is found in flight is not dispatched again while the list is the same. -/
theorem post_actions_once (h : missionSystem.Reachable r) :
    Each IncreasingDispatch r.log ∧ (dispatches r.log).Nodup ∧
      r.mission.post_actions_pending = anyUnsettled r.mission.post_actions ∧
      ∀ calls r', missionSystem.Path r calls r' → ∀ pa ∈ r.mission.post_actions,
        pa.status = .in_flight → ¬ r.Launching pa.order →
        ∃ es, r'.log = r.log ++ es ∧ (.listed ∉ es → .actionDispatched pa.order ∉ es) := by
  have hinv : ∀ {r}, missionSystem.Reachable r → OnceInv r := fun hr =>
    (reachable_invariant (P := OnceInv) (fun _ _ hcreate => onceInv_createMission hcreate)
      (fun _ _ _ hinv hw => hinv.write hw) hr).2
  refine ⟨(hinv h).increasing, (nodup_dispatches (hinv h).increasing).imp Nat.ne_of_lt,
    (hinv h).flag, fun calls r' hpath pa hmem hflight hidle => ?_⟩
  -- the entry is spent now, and stays so along the path
  have hspent : Spent pa.order r := by
    obtain ⟨i, hi⟩ := List.mem_iff_getElem?.mp hmem
    refine ⟨⟨pa, ?_, by rw [hflight]; exact nofun⟩, hidle⟩
    rw [(hinv h).numbered i pa hi]
    exact hi
  have hstill : StillSpent r.log pa.order r' := by
    refine h.path_invariant hpath ?_ ⟨[], (List.append_nil _).symm, .inr ⟨by simp, hspent⟩⟩
    rintro s ⟨now, a⟩ s' hs hstill hcall
    refine ((step_writes (reachable_sane hs) hcall (meets_default a)).invariant
      (P := fun r => OnceInv r ∧ StillSpent _ _ r) (fun _ _ _ hp hw => ⟨hp.1.write hw,
        hp.2.write hp.1 hw⟩) (reachable_sane hs) ⟨hinv hs, hstill⟩).2.2
  obtain ⟨es, hlog, hcases⟩ := hstill
  refine ⟨es, hlog, fun hlisted => ?_⟩
  rcases hcases with hl | ⟨hnot, _⟩
  · exact absurd hl hlisted
  · exact hnot

/-- The process dies right before the call: the entry is in flight and stays undispatched. -/
theorem post_actions_once_small : ∃ r : Runner, ∃ pa ∈ r.mission.post_actions,
    pa.status = .in_flight ∧ r.mission.post_actions_pending = anyUnsettled r.mission.post_actions ∧
      ∀ calls r', missionSystem.Path r calls r' →
        ∃ es, r'.log = r.log ++ es ∧ (.listed ∉ es → .actionDispatched pa.order ∉ es) := by
  obtain ⟨r, hr, hp⟩ := exists_reachable_of_run actionMission
    [(0, .startMission smallView),
      (1, .completeMission (smallCaller smallOrchestrator) .completed ""),
      (2, .postStep .returns), (3, .crash)]
    (fun r => r.post = none && r.mission.post_actions.any (·.status = .in_flight))
    (by decide +kernel)
  simp only [Bool.and_eq_true, decide_eq_true_eq, List.any_eq_true] at hp
  obtain ⟨hpost, pa, hmem, hflight⟩ := hp
  obtain ⟨_, _, hflag, hnever⟩ := post_actions_once hr
  refine ⟨r, pa, hmem, hflight, hflag, fun calls r' hpath =>
    hnever calls r' hpath pa hmem hflight ?_⟩
  rintro ⟨run, hrun, _⟩
  rw [hpost] at hrun
  cases hrun

end Runner

end WorkflowBoard.Orchestration
