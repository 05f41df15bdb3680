import WorkflowBoard.Spec.QaLoopRows

/-!
# One open failure ticket for a scenario

`maybeCreateOnFailure` looks for an open ticket of the scenario and, where it finds none, inserts
one some statements later. What it has not seen by then is a second ticket: one that was inserted
behind its search, or one that the search does not ask for, because it is filed under no project
or has lost the scenario's marker. Where every open ticket was there at the search and is one it
asks for, there is at most one.
-/

namespace WorkflowBoard.Qa

open WorkflowBoard.Tickets

/-- An open ticket that a failed run has filed. -/
def FixTicket.isOpen (t : FixTicket) : Bool :=
  t.filed && t.row.archived_at.isNone && t.row.status ≠ .done

namespace LoopState

variable (w : QaWorld)

/-- The open failure tickets of the scenario. -/
def openFiled (s : LoopState) : Nat := s.tickets.countP FixTicket.isOpen

/-- The write of a move does not open a finished ticket. -/
def noReopen (s : LoopState) : LoopAction → Bool
  | .next k .. =>
    match s.calls[k]? with
    | some (.moving i entity (some reread) _) =>
      (s.tickets[i]?).all fun t =>
        t.row.status ≠ .done || (entity.row.save reread.row t.row).status = .done
    | _ => true
  | _ => true

/-- A ticket is inserted when each open one was there at the search, and is one it asks for. -/
def searchedAll (s : LoopState) : LoopAction → Bool
  | .next k .. =>
    match s.calls[k]? with
    | some (.filing _ _ p (.inserting seen _)) =>
      s.tickets.zipIdx.all fun (t, i) =>
        !t.isOpen || (i < seen && isOpenScenarioTicket w p t.row)
    | _ => true
  | _ => true

section Steps

variable {w} {s s' : LoopState} {i k n : Nat} {t : FixTicket} {c : LoopCall} {p : ResultPolicy}

/-- The search found none of the first `n` tickets. -/
def Searched (w : QaWorld) (s : LoopState) (p : ResultPolicy) (n : Nat) : Prop :=
  n ≤ s.tickets.length ∧ ∀ (i : Nat) (t : FixTicket), i < n → s.tickets[i]? = some t →
    isOpenScenarioTicket w p t.row = false

/-- What a filing knows behind its search. -/
def KnowsNone (w : QaWorld) (s : LoopState) : LoopCall → Prop
  | .filing _ _ p (.resolving seen) => Searched w s p seen
  | .filing _ _ p (.inserting seen _) => Searched w s p seen
  | _ => True

/-- The finished tickets stay finished. -/
def StayDone (s s' : LoopState) : Prop :=
  ∀ (i : Nat) (t t' : FixTicket), s.tickets[i]? = some t → s'.tickets[i]? = some t' →
    t.row.status = .done → t'.row.status = .done

theorem StayDone.of_eq (h : s'.tickets = s.tickets) : StayDone s s' := by
  intro i t t' ht ht' hdone
  rw [h, ht] at ht'
  exact Option.some.inj ht' ▸ hdone

/-- The query does not find a finished ticket, nor one that belongs elsewhere. -/
theorem isOpenScenarioTicket_stay {u v : Ticket} (hplace : place v = place u)
    (hdone : u.status = .done → v.status = .done) (h : isOpenScenarioTicket w p u = false) :
    isOpenScenarioTicket w p v = false := by
  simp only [place, Prod.mk.injEq] at hplace
  obtain ⟨ha, hd, hv, ht, hp⟩ := hplace
  by_contra hopen
  rw [Bool.not_eq_false] at hopen
  have hstatus : v.status ≠ .done := by
    simp only [isOpenScenarioTicket, Bool.and_eq_true, decide_eq_true_eq] at hopen
    exact hopen.1.1.2
  have hsame : isOpenScenarioTicket w p u = isOpenScenarioTicket w p v := by
    unfold isOpenScenarioTicket
    rw [ha, hd, hv, ht, hp]
    simp [hstatus, mt hdone hstatus]
  rw [hsame, hopen] at h
  cases h

theorem Searched.stay (h : Searched w s p n) (hs : Stay s s') (hdone : StayDone s s') :
    Searched w s' p n := by
  have hbound : ∀ i < n, ∃ t t', s.tickets[i]? = some t ∧ s'.tickets[i]? = some t' ∧
      place t'.row = place t.row := by
    intro i hi
    have hlt : i < s.tickets.length := lt_of_lt_of_le hi h.1
    obtain ⟨t', ht', hplace⟩ := hs i _ (List.getElem?_eq_getElem hlt)
    exact ⟨_, t', List.getElem?_eq_getElem hlt, ht', hplace⟩
  refine ⟨?_, fun i t' hi ht' => ?_⟩
  · rcases Nat.eq_zero_or_pos n with rfl | hn
    · exact Nat.zero_le _
    · obtain ⟨-, t', -, ht', -⟩ := hbound (n - 1) (by omega)
      have := lt_of_getElem? ht'
      omega
  · obtain ⟨t, u, ht, hu, hplace⟩ := hbound i hi
    rw [ht'] at hu
    cases hu
    exact isOpenScenarioTicket_stay hplace (hdone i t t' ht ht') (h.2 i t hi ht)

theorem KnowsNone.stay (h : KnowsNone w s c) (hs : Stay s s') (hdone : StayDone s s') :
    KnowsNone w s' c := by
  unfold KnowsNone at h ⊢
  split at h
  · exact h.stay hs hdone
  · exact h.stay hs hdone
  · exact h

/-- What holds along a run: one open ticket, and no filing behind its search whose query finds
    any of those it has seen. -/
structure FilingInv (w : QaWorld) (s : LoopState) : Prop where
  one : s.openFiled ≤ 1
  known : ∀ c ∈ s.calls, KnowsNone w s c
  dedupes : ∀ r ∈ s.runs, r.policy.dedupes = true

theorem openFiled_set {t' : FixTicket} (ht : s.tickets[i]? = some t)
    (h : s'.tickets = s.tickets.set i t') (hopen : t'.isOpen = true → t.isOpen = true) :
    s'.openFiled ≤ s.openFiled := by
  have hcount := countP_set_add (b := t') ht FixTicket.isOpen
  unfold openFiled
  rw [h]
  by_cases h' : t'.isOpen = true
  · rw [if_pos h', if_pos (hopen h')] at hcount
    omega
  · rw [if_neg h'] at hcount
    omega

/-- A step that opens no ticket; a call that is new knows what it should. -/
theorem FilingInv.move (h : FilingInv w s) (hstay : Stay s s') (hdone : StayDone s s')
    (hone : s'.openFiled ≤ 1) (hcalls : ∀ c ∈ s'.calls, c ∈ s.calls ∨ KnowsNone w s' c)
    (hruns : ∀ r ∈ s'.runs, r.policy.dedupes = true) : FilingInv w s' where
  one := hone
  known c hc := (hcalls c hc).elim (fun hold => (h.known c hold).stay hstay hdone) id
  dedupes := hruns

theorem known_of_mem_set {d : LoopCall} (hd : d ∈ s.calls.set k c) (hc : KnowsNone w s' c) :
    d ∈ s.calls ∨ KnowsNone w s' d := by
  rcases List.mem_or_eq_of_mem_set hd with hd | rfl
  · exact .inl hd
  · exact .inr hc

theorem known_of_mem_append {d : LoopCall} (hd : d ∈ s.calls ++ [c]) (hc : KnowsNone w s' c) :
    d ∈ s.calls ∨ KnowsNone w s' d := by
  rcases List.mem_append.mp hd with hd | hd
  · exact .inl hd
  · exact .inr (List.mem_singleton.mp hd ▸ hc)

/-- A call goes on, and the tickets are as they were. -/
theorem FilingInv.setCall (h : FilingInv w s) (hc : KnowsNone w s c) :
    FilingInv w (s.setCall k c) := by
  exact h.move (.of_eq rfl) (.of_eq rfl) h.one
    (fun d hd => known_of_mem_set hd (hc.stay (.of_eq rfl) (.of_eq rfl))) h.dedupes

theorem searched_of_none (h : (s.ticketsWhere (isOpenScenarioTicket w p)).getLast? = none) :
    Searched w s p s.tickets.length := by
  refine ⟨Nat.le_refl _, fun i t hi ht => ?_⟩
  rw [List.getLast?_eq_none_iff] at h
  have hnone := List.filter_eq_nil_iff.mp h i (List.mem_range.mpr hi)
  rw [ht] at hnone
  simpa using hnone

theorem none_open_of_searched (h : Searched w s p n)
    (hall : (s.tickets.zipIdx.all fun (t, i) =>
      !t.isOpen || (i < n && isOpenScenarioTicket w p t.row)) = true) :
    s.openFiled = 0 := by
  refine List.countP_eq_zero.mpr fun t ht hopen => ?_
  obtain ⟨i, hi, rfl⟩ := List.getElem_of_mem ht
  have hmem : (s.tickets[i], i) ∈ s.tickets.zipIdx := by
    rw [List.mem_zipIdx_iff_getElem?]
    exact List.getElem?_eq_getElem hi
  have hseen := List.all_eq_true.mp hall _ hmem
  simp only [hopen, Bool.not_true, Bool.false_or, Bool.and_eq_true, decide_eq_true_eq] at hseen
  have hnone := h.2 i _ hseen.1 (List.getElem?_eq_getElem hi)
  rw [hseen.2] at hnone
  cases hnone

theorem FilingInv.fileNext {now : Date} {run generation : Nat} {phase : FilingPhase}
    (h : FilingInv w s) (hk : s.calls[k]? = some (.filing run generation p phase))
    (hclear : s.searchedAll w (.next k now 0) = true) :
    FilingInv w (s.fileNext w now k run generation p phase) := by
  have hc := h.known _ (List.mem_of_getElem? hk)
  unfold LoopState.fileNext
  split
  · split
    · exact h.setCall trivial
    · rename_i hnone
      exact h.setCall (searched_of_none hnone)
  · exact h.setCall trivial
  · exact h.setCall hc
  · -- One ticket more, and none was open.
    simp only [searchedAll, hk] at hclear
    have hnone := none_open_of_searched hc hclear
    refine h.move (.of_append rfl) (fun i t t' ht ht' hdone => ?_) ?_ (fun d hd => ?_) h.dedupes
    · have hlt := lt_of_getElem? ht
      rw [List.getElem?_append_left hlt, ht] at ht'
      exact Option.some.inj ht' ▸ hdone
    · show (s.tickets ++ [_]).countP FixTicket.isOpen ≤ 1
      rw [List.countP_append, List.countP_singleton]
      unfold openFiled at hnone
      split <;> omega
    · exact known_of_mem_set hd trivial
  · refine h.move (.of_eq rfl) (.of_eq rfl) h.one (fun d hd => ?_) fun r hr => ?_
    · exact known_of_mem_set hd trivial
    · obtain ⟨j, hj⟩ := List.mem_iff_getElem?.mp hr
      rcases getElem?_modify_cases hj with ⟨-, r₀, hr₀, rfl⟩ | ⟨-, hold⟩
      · exact h.dedupes r₀ (List.mem_of_getElem? hr₀)
      · exact h.dedupes r (List.mem_of_getElem? hold)

/-- The write of a move that opens no finished ticket. -/
theorem FilingInv.saveMove {entity reread : FixTicket} {auto : Bool} (h : FilingInv w s)
    (hk : s.calls[k]? = some (.moving i entity (some reread) auto))
    (ht : s.tickets[i]? = some t) (hstay : Stay s (s.saveMove k i entity reread auto t))
    (hclear : s.noReopen (.next k 0 0) = true) :
    FilingInv w (s.saveMove k i entity reread auto t) := by
  simp only [noReopen, hk, ht, Option.all_some, Bool.or_eq_true, decide_eq_true_eq] at hclear
  have hdone : t.row.status = .done → (entity.row.save reread.row t.row).status = .done :=
    fun hd => hclear.resolve_left (by simp [hd])
  have hset : (s.saveMove k i entity reread auto t).tickets[i]? = some
      { t with
        row := entity.row.save reread.row t.row
        qa_rerun_dispatched_at := saveColumn entity.qa_rerun_dispatched_at
          reread.qa_rerun_dispatched_at t.qa_rerun_dispatched_at
        entered := t.entered || decide (entity.row.status = .done) } :=
    getElem?_set_self ht
  refine h.move hstay (fun j u u' hu hu' hd => ?_) ?_ (fun d hd => ?_) h.dedupes
  · by_cases hij : i = j
    · subst hij
      rw [ht] at hu
      rw [hset] at hu'
      cases hu
      cases hu'
      exact hdone hd
    · have hother := List.getElem?_set_ne hij (l := s.tickets) (a := u')
      rw [show (s.saveMove k i entity reread auto t).tickets[j]? = s.tickets[j]? from
        List.getElem?_set_ne hij, hu] at hu'
      exact Option.some.inj hu' ▸ hd
  · refine (openFiled_set ht rfl fun hopen => ?_).trans h.one
    obtain ⟨u, hu, hplace⟩ := hstay i t ht
    rw [hset] at hu
    cases hu
    simp only [place, Prod.mk.injEq] at hplace
    simp only [FixTicket.isOpen, Bool.and_eq_true, decide_eq_true_eq, hplace.2.2.1] at hopen ⊢
    exact ⟨hopen.1, mt hdone hopen.2⟩
  · exact known_of_mem_set hd trivial

theorem handle_tickets {now : Date} {cfg : QaOnFailureTicketConfig} {environment : String}
    {satisfied : Bool} {x : Handler}
    (hs : s.handle w now cfg environment satisfied k x = some s') :
    StayDone s s' ∧ s'.openFiled ≤ s.openFiled ∧ s'.runs = s.runs := by
  obtain ⟨phase, -, rfl | ⟨t, ht, rfl⟩⟩ := handle_cases hs
  · exact ⟨.of_eq rfl, Nat.le_refl _, rfl⟩
  · refine ⟨fun j u u' hu hu' hd => ?_, openFiled_set ht rfl id, rfl⟩
    rcases getElem?_set_cases hu' with ⟨rfl, rfl⟩ | ⟨-, hold⟩
    · rw [ht] at hu
      exact Option.some.inj hu ▸ hd
    · rw [hu] at hold
      exact Option.some.inj hold ▸ hd

/-- A statement of a call keeps what is filed. -/
theorem FilingInv.callNext {now : Date} {position : Int} (h : FilingInv w s) (hrows : LoopRows s)
    (hk : s.calls[k]? = some c) (hs : s.callNext w now position k c = some s')
    (hreopen : s.noReopen (.next k now position) = true)
    (hsearched : s.searchedAll w (.next k now position) = true) : FilingInv w s' := by
  have hstay := (hrows.callNext hk hs).1
  unfold LoopState.callNext at hs
  split at hs
  · cases hs
    exact h.fileNext hk hsearched
  · cases hs
    exact h.setCall trivial
  · cases hs
    exact h.setCall trivial
  · obtain ⟨t, ht, rfl⟩ := Option.map_eq_some_iff.mp hs
    dsimp only
    have hclosing : ∀ rest, FilingInv w (s.setCall k (.closing rest)) :=
      fun rest => h.setCall trivial
    split
    · exact hclosing _
    · exact (hclosing _).move (.of_eq rfl) (.of_eq rfl) h.one
        (fun d hd => known_of_mem_append hd trivial) h.dedupes
  · obtain ⟨t, ht, rfl⟩ := Option.map_eq_some_iff.mp hs
    split
    · exact h.setCall trivial
    · split <;> exact h.setCall trivial
  · obtain ⟨t, ht, rfl⟩ := Option.map_eq_some_iff.mp hs
    exact h.setCall trivial
  · obtain ⟨t, ht, rfl⟩ := Option.map_eq_some_iff.mp hs
    exact h.saveMove hk ht hstay hreopen
  · cases hs

/-- A step whose insert finds every open ticket among those its search asked for. -/
theorem FilingInv.step {a : LoopAction} (h : FilingInv w s) (hrows : LoopRows s)
    (hs : a.run w s = some s') (hreopen : s.noReopen a = true)
    (hsearched : s.searchedAll w a = true) : FilingInv w s' := by
  cases a with
  | start p =>
    obtain ⟨hp, rfl⟩ := dispatch_rows hs
    refine h.move (.of_eq rfl) (.of_eq rfl) h.one (fun d hd => .inl hd) fun r hr => ?_
    rcases List.mem_append.mp hr with hr | hr
    · exact h.dedupes r hr
    · rwa [List.mem_singleton.mp hr]
  | finalize k status fresh =>
    obtain ⟨run, hk, hs⟩ := Option.bind_eq_some_iff.mp hs
    have hpolicy := h.dedupes run (List.mem_of_getElem? hk)
    obtain ⟨-, calls, chains, hcalls, rfl⟩ := finalize_cases hs
    refine h.move (.of_eq rfl) (.of_eq rfl) h.one (fun d hd => ?_) fun r hr => ?_
    · cases hcalls with
      | none => exact .inl hd
      | sweep => exact known_of_mem_append hd trivial
      | file hphase =>
        rw [hphase hpolicy] at hd
        exact known_of_mem_append hd trivial
    · rcases List.mem_or_eq_of_mem_set hr with hr | rfl
      · exact h.dedupes r hr
      · exact hpolicy
  | move ticket status =>
    cases hs
    exact h.move (.of_eq rfl) (.of_eq rfl) h.one (fun d hd => known_of_mem_append hd trivial)
      h.dedupes
  | next k now position =>
    obtain ⟨c, hk, hs⟩ := Option.bind_eq_some_iff.mp hs
    exact h.callNext hrows hk hs hreopen hsearched
  | throws k =>
    obtain ⟨c, hk, rfl⟩ := Option.map_eq_some_iff.mp hs
    exact h.setCall trivial
  | handle k now cfg environment satisfied =>
    obtain ⟨x, hk, hs⟩ := Option.bind_eq_some_iff.mp hs
    obtain ⟨hstay, hcalls⟩ := handle_rows hs
    obtain ⟨hdone, hone, hruns⟩ := handle_tickets hs
    exact h.move hstay hdone (hone.trans h.one) (fun d hd => .inl (hcalls ▸ hd)) (hruns ▸ h.dedupes)
  | fire k p =>
    obtain ⟨x, hk, hs⟩ := Option.bind_eq_some_iff.mp hs
    obtain ⟨generation, gated, -, hp, rfl⟩ := startRerun_rows hs
    refine h.move (.of_eq rfl) (.of_eq rfl) h.one (fun d hd => .inl hd) fun r hr => ?_
    rcases List.mem_append.mp hr with hr | hr
    · exact h.dedupes r hr
    · rwa [List.mem_singleton.mp hr]
  | drop k =>
    obtain ⟨x, hk, rfl⟩ := Option.map_eq_some_iff.mp hs
    exact h.move (.of_eq rfl) (.of_eq rfl) h.one (fun d hd => .inl hd) h.dedupes

/-- One open failure ticket: in every run whose moves reopen no ticket and whose inserts find
    every open ticket among those their search has asked for. -/
theorem failure_ticket_once (h : ((loopSystem w).restrict fun s a _ =>
      (s.noReopen a && s.searchedAll w a) = true).Reachable s) : s.openFiled ≤ 1 := by
  have hinv : FilingInv w s := by
    refine h.invariant (P := FilingInv w) ?_ ?_
    · rintro s ⟨htickets, hruns, hcalls, -⟩
      refine ⟨?_, by simp [hcalls], by simp [hruns]⟩
      have hnone : s.openFiled = 0 := by
        refine List.countP_eq_zero.mpr fun t ht hopen => ?_
        simp [FixTicket.isOpen, htickets t ht] at hopen
      omega
    · rintro s a s' hreach hi ⟨hs, hclear⟩
      rw [Bool.and_eq_true] at hclear
      exact hi.step (.reachable hreach.of_restrict) hs hclear.1 hclear.2
  exact hinv.one

end Steps

/-! ## Runs of one scenario -/

/-- A scenario of an account whose projects are gone. -/
def smallWorld : QaWorld :=
  { likeFold := id, unicode := { nfkc := id, lower := id, isLetterOrNumber := fun _ => true }
    scenario_id := "s1", account_id := "a" }

theorem exists_checked_loop (C : LoopState → LoopAction → Bool) (actions : List LoopAction)
    (q : LoopState → Bool)
    (h : (Transition.runChecked (LoopAction.run smallWorld) C { tickets := [] }
      actions).any q = true) :
    ∃ s, ((loopSystem smallWorld).restrict fun s a _ => C s a = true).Reachable s ∧
      q s = true :=
  Transition.exists_reachable_checked (M := loopSystem smallWorld) (fun _ _ _ hs => hs)
    ⟨by simp, rfl, rfl, rfl, rfl⟩ actions q h

/-- Two runs that have failed. -/
def twoFailed (p : ResultPolicy) : List LoopAction :=
  [.start p, .start p, .finalize 0 .failed false, .finalize 1 .failed false]

/-- The next `n` statements of call `k`. -/
def statements (k n : Nat) : List LoopAction := List.replicate n (.next k 1 0)

/-- The second run finds the ticket of the first. -/
theorem failure_ticket_once_small : ∃ s : LoopState, s.runs.length = 2 ∧ s.openFiled ≠ 0 ∧
    s.openFiled ≤ 1 := by
  obtain ⟨s, hreach, hq⟩ := exists_checked_loop
    (fun s a => s.noReopen a && s.searchedAll smallWorld a)
    (twoFailed {} ++ statements 0 4 ++ statements 1 3)
    (fun s => s.runs.length = 2 && s.openFiled ≠ 0) (by decide +kernel)
  simp only [Bool.and_eq_true, decide_eq_true_eq] at hq
  exact ⟨s, hq.1, hq.2, failure_ticket_once hreach⟩

/-- Both runs have searched before either has filed. -/
theorem filed_twice : ¬∀ s, ((loopSystem smallWorld).restrict fun s a _ =>
    s.noReopen a = true).Reachable s → s.openFiled ≤ 1 := by
  intro hall
  obtain ⟨s, hreach, hq⟩ := exists_checked_loop noReopen
    (twoFailed {} ++ statements 0 1 ++ statements 1 1 ++ statements 0 3 ++ statements 1 3)
    (fun s => s.openFiled = 2) (by decide +kernel)
  have htwo := hall s hreach
  rw [of_decide_eq_true hq] at htwo
  omega

/-- The policy names a project that is gone: the ticket of the first run is filed without one,
    and the search of the second one asks for it. -/
theorem filed_twice_apart : ¬∀ s, ((loopSystem smallWorld).restrict fun s a _ =>
    s.noReopen a = true).Reachable s → s.openFiled ≤ 1 := by
  intro hall
  obtain ⟨s, hreach, hq⟩ := exists_checked_loop noReopen
    (twoFailed { project_id := some "p" } ++ statements 0 4 ++ statements 1 4)
    (fun s => s.openFiled = 2) (by decide +kernel)
  have htwo := hall s hreach
  rw [of_decide_eq_true hq] at htwo
  omega

end LoopState

end WorkflowBoard.Qa
