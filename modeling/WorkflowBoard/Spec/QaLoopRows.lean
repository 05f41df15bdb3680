import WorkflowBoard.ForStd.List
import WorkflowBoard.Native.QaRerunLoop

/-!
# The tickets of the failure loop

No statement of the loop changes where a ticket belongs: its account, depth, archive, tags and
project. A move writes the entity it has loaded, and that belongs where its row does.
-/

namespace WorkflowBoard.Qa

open WorkflowBoard.Tickets

/-- Where a ticket belongs. -/
def place (t : Ticket) : String × Nat × Option Date × List String × Option String :=
  (t.account_id, t.depth, t.archived_at, t.tags, t.project_id)

theorem tags_of_place {t u : Ticket} (h : place t = place u) : t.tags = u.tags := by
  simp only [place, Prod.mk.injEq] at h
  exact h.2.2.2.1

theorem place_save {entity reread row : Ticket} (he : place entity = place row)
    (hr : place reread = place row) : place (entity.save reread row) = place row := by
  simp only [place, Prod.mk.injEq] at he hr
  obtain ⟨ha, hd, hv, ht, hp⟩ := he
  obtain ⟨ra, rd, rv, rt, rp⟩ := hr
  show (saveColumn .., saveColumn .., saveColumn .., saveColumn .., saveColumn ..) = _
  rw [ra, rd, rv, rt, rp]
  simp only [saveColumn_self, place, ha, hd, hv, ht, hp]

theorem place_move? {t entity : Ticket} {status : TicketStatus} {position : Option Int}
    {next : Int} {now : Date} (h : t.move? status position next now = some entity) :
    place entity = place t := by
  unfold Ticket.move? at h
  split at h <;> split at h
  · cases h
  · cases h
    rfl
  · cases h
  · cases h
    rfl

namespace LoopState

variable {w : QaWorld} {s s' : LoopState} {i k : Nat} {t : FixTicket} {c : LoopCall}

/-- The entity belongs where ticket `i` does. -/
def Held (s : LoopState) (i : Nat) (entity : Ticket) : Prop :=
  ∃ t, s.tickets[i]? = some t ∧ place entity = place t.row

/-- What a move in progress holds. -/
def HoldsRow (s : LoopState) : LoopCall → Prop
  | .moving i entity reread _ => s.Held i entity.row ∧ ∀ r, reread = some r → s.Held i r.row
  | _ => True

/-- The tickets stay, each in its place. -/
def Stay (s s' : LoopState) : Prop :=
  ∀ (i : Nat) (t : FixTicket), s.tickets[i]? = some t →
    ∃ t', s'.tickets[i]? = some t' ∧ place t'.row = place t.row

theorem Stay.of_eq (h : s'.tickets = s.tickets) : Stay s s' := by
  intro i t ht
  exact ⟨t, by rw [h, ht], rfl⟩

theorem Stay.of_append (h : s'.tickets = s.tickets ++ [t]) : Stay s s' := by
  intro i u hu
  have hlt := lt_of_getElem? hu
  exact ⟨u, by rw [h, List.getElem?_append_left hlt, hu], rfl⟩

theorem Stay.of_set {t' : FixTicket} (h : s'.tickets = s.tickets.set i t')
    (ht : s.tickets[i]? = some t) (hplace : place t'.row = place t.row) : Stay s s' := by
  intro j u hu
  by_cases hij : i = j
  · subst hij
    have hlt := lt_of_getElem? hu
    rw [ht] at hu
    cases hu
    exact ⟨t', by rw [h, List.getElem?_set_self hlt], hplace⟩
  · exact ⟨u, by rw [h, List.getElem?_set_ne hij, hu], rfl⟩

theorem Held.stay {entity : Ticket} (h : s.Held i entity) (hs : Stay s s') :
    s'.Held i entity := by
  obtain ⟨t, ht, hplace⟩ := h
  obtain ⟨t', ht', hsame⟩ := hs i t ht
  exact ⟨t', ht', hplace.trans hsame.symm⟩

theorem HoldsRow.stay (h : s.HoldsRow c) (hs : Stay s s') : s'.HoldsRow c := by
  cases c with
  | moving i entity reread auto => exact ⟨h.1.stay hs, fun r hr => (h.2 r hr).stay hs⟩
  | _ => trivial

/-- Each move in progress holds a row of its ticket. -/
def LoopRows (s : LoopState) : Prop := ∀ c ∈ s.calls, s.HoldsRow c

theorem LoopRows.set (h : LoopRows s) (hstay : Stay s s') (hcalls : s'.calls = s.calls.set k c)
    (hc : s'.HoldsRow c) : LoopRows s' := by
  intro d hd
  rw [hcalls] at hd
  rcases List.mem_or_eq_of_mem_set hd with hd | rfl
  · exact (h d hd).stay hstay
  · exact hc

theorem LoopRows.append (h : LoopRows s) (hstay : Stay s s')
    (hcalls : s'.calls = s.calls ++ [c]) (hc : s'.HoldsRow c) : LoopRows s' := by
  intro d hd
  rw [hcalls, List.mem_append, List.mem_singleton] at hd
  rcases hd with hd | rfl
  · exact (h d hd).stay hstay
  · exact hc

theorem LoopRows.keep (h : LoopRows s) (hstay : Stay s s') (hcalls : s'.calls = s.calls) :
    LoopRows s' := by
  intro d hd
  rw [hcalls] at hd
  exact (h d hd).stay hstay

/-- The next statement of a call keeps the tickets in their places. -/
theorem LoopRows.callNext {now : Date} {position : Int} (h : LoopRows s)
    (hk : s.calls[k]? = some c) (hs : s.callNext w now position k c = some s') :
    Stay s s' ∧ LoopRows s' := by
  have hc : s.HoldsRow c := h c (List.mem_of_getElem? hk)
  have hkeep : ∀ d, s.HoldsRow d → Stay s (s.setCall k d) ∧ LoopRows (s.setCall k d) :=
    fun d hd => ⟨.of_eq rfl, h.set (.of_eq rfl) rfl (hd.stay (.of_eq rfl))⟩
  unfold LoopState.callNext at hs
  split at hs
  · cases hs
    unfold fileNext
    split
    · split
      · exact hkeep _ trivial
      · exact hkeep _ trivial
    · exact hkeep _ trivial
    · exact hkeep _ trivial
    · exact ⟨.of_append rfl, h.set (.of_append rfl) rfl trivial⟩
    · exact ⟨.of_eq rfl, h.set (.of_eq rfl) rfl trivial⟩
  · cases hs
    exact hkeep _ trivial
  · obtain rfl := Option.some.inj hs
    exact hkeep _ trivial
  · obtain ⟨t, ht, rfl⟩ := Option.map_eq_some_iff.mp hs
    dsimp only
    split
    · exact hkeep _ trivial
    · exact ⟨.of_eq rfl, (hkeep (.closing _) trivial).2.append (.of_eq rfl) rfl trivial⟩
  · obtain ⟨t, ht, rfl⟩ := Option.map_eq_some_iff.mp hs
    split
    · exact hkeep _ trivial
    · split
      · rename_i hmove
        exact hkeep _ ⟨⟨t, ht, place_move? hmove⟩, fun r hr => by cases hr⟩
      · exact hkeep _ trivial
  · obtain ⟨t, ht, rfl⟩ := Option.map_eq_some_iff.mp hs
    refine hkeep _ ⟨hc.1, fun r hr => ?_⟩
    cases hr
    exact ⟨t, ht, rfl⟩
  · rename_i i entity reread auto
    obtain ⟨t, ht, rfl⟩ := Option.map_eq_some_iff.mp hs
    obtain ⟨⟨t₁, ht₁, he⟩, hreread⟩ := hc
    obtain ⟨t₂, ht₂, hr⟩ := hreread _ rfl
    rw [ht] at ht₁ ht₂
    cases ht₁
    cases ht₂
    have hstay : Stay s (s.saveMove k i entity reread auto t) := .of_set rfl ht (place_save he hr)
    exact ⟨hstay, h.set hstay rfl trivial⟩
  · cases hs

/-- Where the handling of an activity goes in one statement. -/
inductive Advance (w : QaWorld) (s : LoopState) (x : Handler) : HandlerPhase → Prop where
  | stop : Advance w s x .ended
  | load {t : FixTicket} : x.phase = .moved → s.tickets[x.ticket]? = some t →
      defaultTags.all (· ∈ t.row.tags) = true →
      parseScenarioId t.row.tags = some w.scenario_id →
      Advance w s x (.claiming (parseGeneration t.row.tags))
  | gate {gen : Nat} : x.phase = .claiming gen → gen < resolveMaxAttempts w.max_rerun_attempts →
      Advance w s x (.gating (gen + 1))
  | wait {gen : Nat} : x.phase = .claiming gen → gen < resolveMaxAttempts w.max_rerun_attempts →
      Advance w s x (.waiting (gen + 1) false)
  | gated {generation : Nat} (gated : Bool) : x.phase = .gating generation →
      Advance w s x (.waiting generation gated)

variable {cfg : QaOnFailureTicketConfig} {x : Handler}

/-- The next statement of the handling of an activity. -/
theorem handle_cases {now : Date} {environment : String} {satisfied : Bool}
    (hs : s.handle w now cfg environment satisfied k x = some s') :
    ∃ phase, Advance w s x phase ∧ (s' = s.setHandler k { x with phase } ∨
      ∃ t, s.tickets[x.ticket]? = some t ∧ s' = { s with
        tickets := s.tickets.set x.ticket { t with qa_rerun_dispatched_at := some now }
        handlers := s.handlers.set k { x with phase } }) := by
  unfold LoopState.handle at hs
  dsimp only at hs
  split at hs
  · rename_i hphase
    obtain ⟨t, ht, rfl⟩ := Option.map_eq_some_iff.mp hs
    split
    · rename_i hok
      exact ⟨_, .load hphase ht hok.2.2.1 hok.2.2.2.1, .inl rfl⟩
    · exact ⟨_, .stop, .inl rfl⟩
  · rename_i gen hphase
    obtain ⟨t, ht, rfl⟩ := Option.map_eq_some_iff.mp hs
    split
    · split
      · exact ⟨_, .stop, .inr ⟨t, ht, rfl⟩⟩
      · rename_i hmax
        split
        · exact ⟨_, .gate hphase (by omega), .inr ⟨t, ht, rfl⟩⟩
        · exact ⟨_, .wait hphase (by omega), .inr ⟨t, ht, rfl⟩⟩
    · exact ⟨_, .stop, .inl rfl⟩
  · rename_i generation hphase
    split at hs
    · cases hs
      exact ⟨_, .gated false hphase, .inl rfl⟩
    · split at hs <;> cases hs
      · exact ⟨_, .stop, .inl rfl⟩
      · exact ⟨_, .gated true hphase, .inl rfl⟩
  · cases hs
  · cases hs

/-- The handling of an activity keeps the tickets in their places, and touches no call. -/
theorem handle_rows {now : Date} {environment : String} {satisfied : Bool}
    (hs : s.handle w now cfg environment satisfied k x = some s') :
    Stay s s' ∧ s'.calls = s.calls := by
  obtain ⟨phase, -, rfl | ⟨t, ht, rfl⟩⟩ := handle_cases hs
  · exact ⟨.of_eq rfl, rfl⟩
  · exact ⟨.of_set rfl ht rfl, rfl⟩

theorem dispatch_rows {p : ResultPolicy} {generation : Nat} {cause : Option Nat}
    (hs : s.dispatch p generation cause = some s') :
    p.dedupes = true ∧
      s' = { s with
        runs := s.runs ++ [{ policy := p, rerun_generation := generation, cause }] } := by
  unfold dispatch at hs
  split at hs
  · rename_i hp
    exact ⟨hp, (Option.some.inj hs).symm⟩
  · cases hs

theorem startRerun_rows {p : ResultPolicy} (hs : s.startRerun p k x = some s') :
    ∃ generation gated, x.phase = .waiting generation gated ∧ p.dedupes = true ∧
      s' = { s with
        handlers := s.handlers.set k { x with phase := .ended }
        runs := s.runs ++
          [{ policy := p, rerun_generation := generation, cause := some k }] } := by
  unfold startRerun at hs
  split at hs
  · rename_i generation gated hphase
    obtain ⟨hp, rfl⟩ := dispatch_rows hs
    exact ⟨generation, gated, hphase, hp, rfl⟩
  · cases hs

/-- What the processing of a run that ends starts: nothing, a sweep or a filing. -/
inductive Processed (s : LoopState) (k : Nat) (run : LoopRun) : List LoopCall → Nat → Prop where
  | none : Processed s k run s.calls s.chains
  | sweep : Processed s k run (s.calls ++ [.sweeping run.policy]) s.chains
  | file {phase : FilingPhase} : (run.policy.dedupes = true → phase = .searching) →
      Processed s k run
        (s.calls ++ [.filing k run.rerun_generation run.policy phase])
        (s.chains + if run.cause.isSome ∧ run.status = .running then 0 else 1)

theorem finalize_cases {status : QaRunStatus} {fresh : Bool} {run : LoopRun}
    (hs : s.finalize k status fresh run = some s') :
    status.isTerminal = true ∧ ∃ calls chains, Processed s k run calls chains ∧
      s' = { s with runs := s.runs.set k { run with status }, calls, chains } := by
  unfold LoopState.finalize at hs
  dsimp only at hs
  split at hs
  · cases hs
  · rename_i hended
    refine ⟨Bool.eq_true_of_not_eq_false hended, ?_⟩
    split at hs
    · exact ⟨_, _, .none, (Option.some.inj hs).symm⟩
    · split at hs
      · exact ⟨_, _, .sweep, (Option.some.inj hs).symm⟩
      · split at hs
        · exact ⟨_, _, .none, (Option.some.inj hs).symm⟩
        · exact ⟨_, _, .file fun hp => if_pos hp, (Option.some.inj hs).symm⟩

/-- A step keeps every ticket in its place, and what the moves hold. -/
theorem LoopRows.step {a : LoopAction} (h : LoopRows s) (hs : a.run w s = some s') :
    Stay s s' ∧ LoopRows s' := by
  cases a with
  | start p =>
    obtain ⟨-, rfl⟩ := dispatch_rows hs
    exact ⟨.of_eq rfl, h.keep (.of_eq rfl) rfl⟩
  | finalize k status fresh =>
    obtain ⟨run, hk, hs⟩ := Option.bind_eq_some_iff.mp hs
    obtain ⟨-, calls, chains, hcalls, rfl⟩ := finalize_cases hs
    refine ⟨.of_eq rfl, ?_⟩
    cases hcalls with
    | none => exact h.keep (.of_eq rfl) rfl
    | sweep => exact h.append (.of_eq rfl) rfl trivial
    | file => exact h.append (.of_eq rfl) rfl trivial
  | move ticket status =>
    cases hs
    exact ⟨.of_eq rfl, h.append (.of_eq rfl) rfl trivial⟩
  | next k now position =>
    obtain ⟨c, hk, hs⟩ := Option.bind_eq_some_iff.mp hs
    exact h.callNext hk hs
  | throws k =>
    obtain ⟨c, hk, rfl⟩ := Option.map_eq_some_iff.mp hs
    exact ⟨.of_eq rfl, h.set (.of_eq rfl) rfl trivial⟩
  | handle k now cfg environment satisfied =>
    obtain ⟨x, hk, hs⟩ := Option.bind_eq_some_iff.mp hs
    obtain ⟨hstay, hcalls⟩ := handle_rows hs
    exact ⟨hstay, h.keep hstay hcalls⟩
  | fire k p =>
    obtain ⟨x, hk, hs⟩ := Option.bind_eq_some_iff.mp hs
    obtain ⟨generation, gated, -, -, rfl⟩ := startRerun_rows hs
    exact ⟨.of_eq rfl, h.keep (.of_eq rfl) rfl⟩
  | drop k =>
    obtain ⟨x, hk, rfl⟩ := Option.map_eq_some_iff.mp hs
    exact ⟨.of_eq rfl, h.keep (.of_eq rfl) rfl⟩

/-- The moves of a reachable state hold rows of their tickets. -/
theorem LoopRows.reachable (h : (loopSystem w).Reachable s) : LoopRows s := by
  refine h.invariant (P := LoopRows) ?_ fun s a s' _ hi hs => (hi.step hs).2
  rintro s ⟨-, -, hcalls, -⟩ c hc
  rw [hcalls] at hc
  cases hc

end LoopState

end WorkflowBoard.Qa
