import WorkflowBoard.Spec.QaLoopRows
import WorkflowBoard.Spec.RerunTags

/-!
# The reruns of a scenario are bounded

A failure ticket of generation `g` that is done starts a rerun of generation `g + 1`, whose failure
files a ticket of that generation, until `max_rerun_attempts`. The reruns that are still to come
are counted where the chain is: a ticket that has not been done, an activity that is handled, a run,
a filing. A statement moves what is left from one to the next, and loses some of it on the way.

A ticket that is taken out of `done` and enters it again fires again, so what is left grows with
each such entry, and with each filing that does not continue a rerun. The bound is for each chain.
-/

namespace WorkflowBoard.Qa

open WorkflowBoard.Tickets

/-- `max_rerun_attempts`, where none is the same as zero. -/
def QaWorld.maxReruns (w : QaWorld) : Nat := (resolveMaxAttempts w.max_rerun_attempts).toNat

/-- The reruns that a ticket of a generation may still lead to. -/
def QaWorld.left (w : QaWorld) (generation : Nat) : Nat := w.maxReruns - generation

/-- Tags that a handled activity goes by. -/
def QaWorld.reruns (w : QaWorld) (tags : List String) : Bool :=
  defaultTags.all (· ∈ tags) && parseScenarioId tags = some w.scenario_id

namespace LoopState

variable (w : QaWorld)

/-- The reruns that were started. -/
def reruns (s : LoopState) : Nat := s.runs.countP (·.cause.isSome)

/-- The places a chain can be at. -/
def ticketLive (t : FixTicket) : Bool := !t.entered && w.reruns t.row.tags

def runLive (r : LoopRun) : Bool := r.cause.isSome && r.status = .running

def callLive : LoopCall → Bool
  | .filing _ _ _ .searching | .filing _ _ _ (.resolving _) | .filing _ _ _ (.inserting ..) => true
  | _ => false

def handlerLive (h : Handler) : Bool := h.phase ≠ .ended

/-- The chains that are under way. -/
def alive (s : LoopState) : Nat :=
  s.tickets.countP (ticketLive w) + s.runs.countP runLive + s.calls.countP callLive +
    s.handlers.countP handlerLive

/-- What is left of a chain, by the place it is at. -/
def ticketLeft (t : FixTicket) : Nat :=
  if ticketLive w t then w.left (parseGeneration t.row.tags) else 0

def runLeft (r : LoopRun) : Nat := if runLive r then w.left r.rerun_generation else 0

def callLeft : LoopCall → Nat
  | .filing _ generation _ phase =>
    match phase with
    | .searching | .resolving _ | .inserting .. => w.left generation
    | .recurring _ | .stamping _ => 0
  | _ => 0

def handlerLeft (s : LoopState) (h : Handler) : Nat :=
  match h.phase with
  | .moved =>
    match s.tickets[h.ticket]? with
    | some t => if w.reruns t.row.tags then w.left (parseGeneration t.row.tags) else 0
    | none => 0
  | .claiming gen => w.left gen
  | .gating generation => w.left (generation - 1)
  | .waiting generation _ => w.left (generation - 1)
  | .ended => 0

def potential (s : LoopState) : Nat :=
  (s.tickets.map (ticketLeft w)).sum + (s.runs.map (runLeft w)).sum +
    (s.calls.map (callLeft w)).sum + (s.handlers.map (handlerLeft w s)).sum

/-- A run is dispatched under a policy whose tags leave room for the generation. -/
def roomy (_ : LoopState) : LoopAction → Bool
  | .start p => p.leavesRoom w
  | .fire _ p => p.leavesRoom w
  | _ => true

section Steps

variable {w} {s s' : LoopState} {i k : Nat} {t : FixTicket} {c : LoopCall} {p : ResultPolicy}

theorem left_le (generation : Nat) : w.left generation ≤ w.maxReruns := Nat.sub_le ..

/-- What is known of an activity that is handled. -/
structure HandlerOk (w : QaWorld) (s : LoopState) (h : Handler) : Prop where
  ticket : h.ticket < s.tickets.length
  generation : ∀ g, h.phase = .gating g ∨ (∃ gated, h.phase = .waiting g gated) →
    1 ≤ g ∧ g ≤ w.maxReruns

/-- What is known of a filing. -/
def FilingOk (w : QaWorld) : LoopCall → Prop
  | .filing _ generation p _ => generation ≤ w.maxReruns ∧ p.leavesRoom w = true
  | _ => True

/-- What is known of a run. -/
structure RunOk (w : QaWorld) (s : LoopState) (r : LoopRun) : Prop where
  room : r.policy.leavesRoom w = true
  generation : r.rerun_generation ≤ w.maxReruns
  rerun : r.cause.isSome → 1 ≤ r.rerun_generation
  caused : ∀ k, r.cause = some k → ∃ h, s.handlers[k]? = some h ∧ h.phase = .ended

/-- What holds along a run. -/
structure BoundInv (w : QaWorld) (s : LoopState) : Prop where
  handlers : ∀ h ∈ s.handlers, HandlerOk w s h
  filings : ∀ c ∈ s.calls, FilingOk w c
  runs : ∀ r ∈ s.runs, RunOk w s r
  once : (s.runs.filterMap (·.cause)).Nodup

/-- The reruns and what is left, against the chains. -/
def Within (w : QaWorld) (s s' : LoopState) : Prop :=
  s'.reruns + s'.potential w + w.maxReruns * s.chains ≤
    s.reruns + s.potential w + w.maxReruns * s'.chains

/-- What is left of an activity depends on the place of its ticket. -/
theorem handlerLeft_stay (hs : Stay s s') {h : Handler} (hok : h.ticket < s.tickets.length) :
    s'.handlerLeft w h = s.handlerLeft w h := by
  obtain ⟨t', ht', hplace⟩ := hs _ _ (List.getElem?_eq_getElem hok)
  unfold handlerLeft
  rw [ht', List.getElem?_eq_getElem hok]
  simp only [tags_of_place hplace]

theorem handlers_sum_stay (hs : Stay s s') {l : List Handler}
    (hok : ∀ h ∈ l, h.ticket < s.tickets.length) :
    (l.map (s'.handlerLeft w)).sum = (l.map (s.handlerLeft w)).sum := by
  congr 1
  exact List.map_congr_left fun h hh => handlerLeft_stay hs (hok h hh)

theorem Stay.length_le (hs : Stay s s') : s.tickets.length ≤ s'.tickets.length := by
  rcases Nat.eq_zero_or_pos s.tickets.length with h | h
  · omega
  · obtain ⟨t', ht', -⟩ := hs (s.tickets.length - 1) _
      (List.getElem?_eq_getElem (Nat.sub_lt h Nat.one_pos))
    have := lt_of_getElem? ht'
    omega

theorem HandlerOk.stay {h : Handler} (hok : HandlerOk w s h) (hs : Stay s s') :
    HandlerOk w s' h :=
  ⟨lt_of_lt_of_le hok.ticket hs.length_le, hok.generation⟩

theorem RunOk.of_handlers {r : LoopRun} (h : RunOk w s r) (hs : s'.handlers = s.handlers) :
    RunOk w s' r :=
  ⟨h.room, h.generation, h.rerun, by rw [hs]; exact h.caused⟩

/-- A step that changes the tickets, runs, calls and handlers, seen by their sums. -/
theorem Within.of_sums (tickets runs calls handlers gain : Nat)
    (hreruns : s'.reruns + tickets + runs + calls + handlers ≤
      s.reruns + (s.tickets.map (ticketLeft w)).sum + (s.runs.map (runLeft w)).sum +
        (s.calls.map (callLeft w)).sum + (s.handlers.map (s.handlerLeft w)).sum +
        w.maxReruns * gain)
    (ht : (s'.tickets.map (ticketLeft w)).sum = tickets)
    (hr : (s'.runs.map (runLeft w)).sum = runs) (hc : (s'.calls.map (callLeft w)).sum = calls)
    (hh : (s'.handlers.map (s'.handlerLeft w)).sum = handlers)
    (hchains : s'.chains = s.chains + gain) : Within w s s' := by
  unfold Within potential
  rw [ht, hr, hc, hh, hchains, Nat.mul_add]
  omega

/-! ### Calls -/

/-- A call goes on with less than it had, and the rest is as it was. -/
theorem BoundInv.setCall {d : LoopCall} (h : BoundInv w s) (hk : s.calls[k]? = some c)
    (hok : FilingOk w d) (hleft : callLeft w d ≤ callLeft w c) :
    BoundInv w (s.setCall k d) ∧ Within w s (s.setCall k d) := by
  refine ⟨⟨fun x hx => (h.handlers x hx).stay (.of_eq rfl), fun e he => ?_,
    fun r hr => (h.runs r hr).of_handlers rfl, h.once⟩, ?_⟩
  · rcases List.mem_or_eq_of_mem_set he with he | rfl
    · exact h.filings e he
    · exact hok
  · have hsum := sum_map_set_add (b := d) hk (callLeft w)
    refine Within.of_sums (s.tickets.map (ticketLeft w)).sum (s.runs.map (runLeft w)).sum
      ((s.calls.set k d).map (callLeft w)).sum (s.handlers.map (s.handlerLeft w)).sum 0
      ?_ rfl rfl rfl rfl rfl
    show s.reruns + _ + _ + _ + _ ≤ _
    omega

theorem BoundInv.openCall {d : LoopCall} (h : BoundInv w s) (hok : FilingOk w d)
    (hleft : callLeft w d = 0) :
    BoundInv w { s with calls := s.calls ++ [d] } ∧
      Within w s { s with calls := s.calls ++ [d] } := by
  refine ⟨⟨fun x hx => (h.handlers x hx).stay (.of_eq rfl), fun e he => ?_,
    fun r hr => (h.runs r hr).of_handlers rfl, h.once⟩, ?_⟩
  · rcases List.mem_append.mp he with he | he
    · exact h.filings e he
    · exact List.mem_singleton.mp he ▸ hok
  · refine Within.of_sums (s.tickets.map (ticketLeft w)).sum (s.runs.map (runLeft w)).sum
      (s.calls.map (callLeft w)).sum (s.handlers.map (s.handlerLeft w)).sum 0 (Nat.le_refl _)
      rfl rfl ?_ rfl rfl
    simp [hleft]

theorem Within.trans {s'' : LoopState} (h : Within w s s') (h' : Within w s' s'') :
    Within w s s'' := by
  unfold Within at *
  omega

/-- The insert: what was left to the filing is left to the ticket. -/
theorem BoundInv.insert {run generation seen : Nat} {project : Option String} {now : Date}
    (hlower : ∀ g, w.unicode.lower (rerunTag g) = rerunTag g)
    (hsafe : w.maxReruns ≤ maxSafeInteger) (h : BoundInv w s)
    (hk : s.calls[k]? = some (.filing run generation p (.inserting seen project))) :
    BoundInv w (s.fileNext w now k run generation p (.inserting seen project)) ∧
      Within w s (s.fileNext w now k run generation p (.inserting seen project)) := by
  obtain ⟨hmax, hroom⟩ := h.filings _ (List.mem_of_getElem? hk)
  obtain ⟨t, ht⟩ : ∃ t : FixTicket, t =
    { row := failureTicket w p generation project now, filed := true } := ⟨_, rfl⟩
  have hleft : ticketLeft w t ≤ w.left generation := by
    have hgen : generation ≤ parseGeneration (failureTicket w p generation project now).tags :=
      le_parseGeneration hlower hroom (hmax.trans hsafe)
    unfold ticketLeft
    rw [ht]
    split
    · exact Nat.sub_le_sub_left hgen _
    · exact Nat.zero_le _
  have hstay : Stay s (s.fileNext w now k run generation p (.inserting seen project)) :=
    .of_append rfl
  refine ⟨⟨fun x hx => (h.handlers x hx).stay hstay, fun e he => ?_,
    fun r hr => (h.runs r hr).of_handlers rfl, h.once⟩, ?_⟩
  · rcases List.mem_or_eq_of_mem_set he with he | rfl
    · exact h.filings e he
    · exact ⟨hmax, hroom⟩
  · have hsum := sum_map_set_add (b := .filing run generation p (.stamping s.tickets.length)) hk
      (callLeft w)
    simp only [callLeft] at hsum
    refine Within.of_sums ((s.tickets.map (ticketLeft w)).sum + ticketLeft w t)
      (s.runs.map (runLeft w)).sum ((s.calls.set k _).map (callLeft w)).sum
      (s.handlers.map (s.handlerLeft w)).sum 0 ?_ ?_ rfl rfl
      (handlers_sum_stay hstay fun x hx => (h.handlers x hx).ticket) rfl
    · show s.reruns + _ + _ + _ + _ ≤ _
      omega
    · show ((s.tickets ++ [_]).map (ticketLeft w)).sum = _
      rw [← ht]
      simp

theorem BoundInv.stamp {run ticket : Nat} (h : BoundInv w s) (hk : s.calls[k]? = some c) :
    let s' := { s with
      runs := s.runs.modify run fun r => { r with auto_ticket_id := some ticket }
      calls := s.calls.set k .ended }
    BoundInv w s' ∧ Within w s s' := by
  intro s'
  have hcause : s'.runs.map (·.cause) = s.runs.map (·.cause) := map_modify_of_eq fun _ => rfl
  have hruns : (s'.runs.map (runLeft w)).sum = (s.runs.map (runLeft w)).sum :=
    congrArg List.sum (map_modify_of_eq fun _ => rfl)
  have hreruns : s'.reruns = s.reruns := by
    have := congrArg (List.countP Option.isSome) hcause
    rwa [List.countP_map, List.countP_map] at this
  have hended : callLeft w .ended = 0 := rfl
  have hsum := sum_map_set_add (b := .ended) hk (callLeft w)
  refine ⟨⟨fun x hx => (h.handlers x hx).stay (.of_eq rfl), fun e he => ?_, fun r hr => ?_, ?_⟩, ?_⟩
  · rcases List.mem_or_eq_of_mem_set he with he | rfl
    · exact h.filings e he
    · trivial
  · obtain ⟨j, hj⟩ := List.mem_iff_getElem?.mp hr
    rcases getElem?_modify_cases hj with ⟨-, r₀, hr₀, rfl⟩ | ⟨-, hold⟩
    · have hrun := h.runs r₀ (List.mem_of_getElem? hr₀)
      exact ⟨hrun.room, hrun.generation, hrun.rerun, hrun.caused⟩
    · exact (h.runs r (List.mem_of_getElem? hold)).of_handlers rfl
  · have := congrArg (List.filterMap id) hcause
    simp only [List.filterMap_map, Function.id_comp] at this
    rw [show s'.runs.filterMap (·.cause) = s.runs.filterMap (·.cause) from this]
    exact h.once
  · refine Within.of_sums (s.tickets.map (ticketLeft w)).sum (s.runs.map (runLeft w)).sum
      ((s.calls.set k .ended).map (callLeft w)).sum (s.handlers.map (s.handlerLeft w)).sum 0
      ?_ rfl hruns rfl rfl rfl
    rw [hreruns]
    omega

/-- A ticket that has been done stays one that has. -/
theorem ticketLeft_le {t' : FixTicket} (hplace : place t'.row = place t.row)
    (hentered : t.entered = true → t'.entered = true) : ticketLeft w t' ≤ ticketLeft w t := by
  have htags := tags_of_place hplace
  unfold ticketLeft ticketLive
  rw [htags]
  cases ht : t.entered with
  | true => simp [hentered ht]
  | false =>
    cases ht' : t'.entered with
    | true => simp
    | false => exact Nat.le_refl _

/-- The write of a move: what was left to the ticket is left to its activity, and a ticket that
    is done again begins a chain. -/
theorem BoundInv.saveMove {entity reread : FixTicket} {auto : Bool} (h : BoundInv w s)
    (hk : s.calls[k]? = some c) (ht : s.tickets[i]? = some t)
    (hplace : place (entity.row.save reread.row t.row) = place t.row) :
    BoundInv w (s.saveMove k i entity reread auto t) ∧
      Within w s (s.saveMove k i entity reread auto t) := by
  obtain ⟨t', ht'⟩ : ∃ t' : FixTicket, t' = { t with
      row := entity.row.save reread.row t.row
      qa_rerun_dispatched_at := saveColumn entity.qa_rerun_dispatched_at
        reread.qa_rerun_dispatched_at t.qa_rerun_dispatched_at
      entered := t.entered || decide (entity.row.status = .done) } := ⟨_, rfl⟩
  have hplace' : place t'.row = place t.row := by rw [ht']; exact hplace
  have hlt : i < s.tickets.length := lt_of_getElem? ht
  have hstay : Stay s (s.saveMove k i entity reread auto t) := .of_set rfl ht hplace
  have hold := handlers_sum_stay (w := w) hstay fun x hx => (h.handlers x hx).ticket
  have hcalls := sum_map_set_add (b := .ended) hk (callLeft w)
  have htickets := sum_map_set_add (b := t') ht (ticketLeft w)
  have hfilings : ∀ e ∈ s.calls.set k .ended, FilingOk w e := by
    intro e he
    rcases List.mem_or_eq_of_mem_set he with he | rfl
    · exact h.filings e he
    · trivial
  have hended : callLeft w .ended = 0 := rfl
  by_cases hfires : entity.row.status = .done ∧ entity.row.parent_id = none ∧ auto = false
  · -- An activity more, which has what the ticket had.
    have hs' : s.saveMove k i entity reread auto t = { s with
        tickets := s.tickets.set i t'
        calls := s.calls.set k .ended
        handlers := s.handlers ++ [{ ticket := i }]
        chains := s.chains + if t.entered = true then 1 else 0 } := by
      simp [LoopState.saveMove, ht', hfires]
    have hnew : (s.saveMove k i entity reread auto t).handlerLeft w { ticket := i } =
        if w.reruns t.row.tags then w.left (parseGeneration t.row.tags) else 0 := by
      rw [hs']
      unfold handlerLeft
      simp only [List.getElem?_set_self hlt, tags_of_place hplace']
    have hgain : ticketLeft w t' + (s.saveMove k i entity reread auto t).handlerLeft w
        { ticket := i } ≤ ticketLeft w t + w.maxReruns * if t.entered = true then 1 else 0 := by
      have hdone : ticketLeft w t' = 0 := by
        unfold ticketLeft ticketLive
        simp [ht', hfires.1]
      rw [hdone, hnew]
      unfold ticketLeft ticketLive
      cases t.entered with
      | true =>
        have := left_le (w := w) (parseGeneration t.row.tags)
        split <;> simp
        exact this
      | false => simp
    obtain ⟨fresh, hfresh⟩ : ∃ fresh, fresh =
      (s.saveMove k i entity reread auto t).handlerLeft w { ticket := i } := ⟨_, rfl⟩
    rw [← hfresh] at hgain
    rw [hs'] at hold hfresh hstay ⊢
    refine ⟨⟨fun x hx => ?_, hfilings, fun r hr => ?_, h.once⟩, ?_⟩
    · rcases List.mem_append.mp hx with hx | hx
      · exact (h.handlers x hx).stay hstay
      · obtain rfl := List.mem_singleton.mp hx
        refine ⟨by simpa using hlt, fun g hg => ?_⟩
        rcases hg with hg | ⟨gated, hg⟩ <;> cases hg
    · obtain ⟨hroom, hgen, hrerun, hcaused⟩ := h.runs r hr
      refine ⟨hroom, hgen, hrerun, fun j hj => ?_⟩
      obtain ⟨x, hx, hphase⟩ := hcaused j hj
      exact ⟨x, (List.getElem?_append_left (lt_of_getElem? hx)).trans hx, hphase⟩
    · refine Within.of_sums ((s.tickets.set i t').map (ticketLeft w)).sum
        (s.runs.map (runLeft w)).sum ((s.calls.set k .ended).map (callLeft w)).sum
        ((s.handlers.map (s.handlerLeft w)).sum + fresh) (if t.entered = true then 1 else 0)
        ?_ rfl rfl rfl ?_ rfl
      · show s.reruns + _ + _ + _ + _ ≤ _
        omega
      · show ((s.handlers ++ [_]).map _).sum = _
        rw [List.map_append, List.sum_append, hold, List.map_singleton, List.sum_singleton, hfresh]
  · have hs' : s.saveMove k i entity reread auto t = { s with
        tickets := s.tickets.set i t'
        calls := s.calls.set k .ended } := by
      unfold LoopState.saveMove
      rw [ht']
      simp only [if_neg hfires]
      rw [if_neg fun hboth => hfires hboth.1]
      simp
    have hloss : ticketLeft w t' ≤ ticketLeft w t :=
      ticketLeft_le hplace' fun hentered => by simp [ht', hentered]
    rw [hs'] at hold hstay ⊢
    refine ⟨⟨fun x hx => (h.handlers x hx).stay hstay, hfilings,
      fun r hr => (h.runs r hr).of_handlers rfl, h.once⟩, ?_⟩
    refine Within.of_sums ((s.tickets.set i t').map (ticketLeft w)).sum
      (s.runs.map (runLeft w)).sum ((s.calls.set k .ended).map (callLeft w)).sum
      (s.handlers.map (s.handlerLeft w)).sum 0 ?_ rfl rfl rfl hold rfl
    show s.reruns + _ + _ + _ + _ ≤ _
    omega

theorem BoundInv.callNext {now : Date} {position : Int}
    (hlower : ∀ g, w.unicode.lower (rerunTag g) = rerunTag g)
    (hsafe : w.maxReruns ≤ maxSafeInteger) (h : BoundInv w s) (hrows : LoopRows s)
    (hk : s.calls[k]? = some c) (hs : s.callNext w now position k c = some s') :
    BoundInv w s' ∧ Within w s s' := by
  have hfiling := h.filings c (List.mem_of_getElem? hk)
  have hholds := hrows c (List.mem_of_getElem? hk)
  unfold LoopState.callNext at hs
  split at hs
  · rename_i run generation p phase
    cases hs
    cases phase with
    | searching =>
      unfold LoopState.fileNext
      dsimp only
      split
      · exact h.setCall hk hfiling (Nat.zero_le _)
      · exact h.setCall hk hfiling (Nat.le_refl _)
    | recurring ticket => exact h.setCall hk hfiling (Nat.le_refl _)
    | resolving seen => exact h.setCall hk hfiling (Nat.le_refl _)
    | inserting seen project => exact h.insert hlower hsafe hk
    | stamping ticket => exact h.stamp hk
  · cases hs
    exact h.setCall hk trivial (Nat.le_refl _)
  · cases hs
    exact h.setCall hk trivial (Nat.le_refl _)
  · rename_i i rest
    obtain ⟨t, ht, rfl⟩ := Option.map_eq_some_iff.mp hs
    obtain ⟨hinv, hwithin⟩ := h.setCall (d := .closing rest) hk trivial (Nat.le_refl _)
    dsimp only
    split
    · exact ⟨hinv, hwithin⟩
    · obtain ⟨hinv', hwithin'⟩ := hinv.openCall (d := .loading i .done true) trivial rfl
      exact ⟨hinv', hwithin.trans hwithin'⟩
  · obtain ⟨t, ht, rfl⟩ := Option.map_eq_some_iff.mp hs
    split
    · exact h.setCall hk trivial (Nat.le_refl _)
    · split <;> exact h.setCall hk trivial (Nat.le_refl _)
  · obtain ⟨t, ht, rfl⟩ := Option.map_eq_some_iff.mp hs
    exact h.setCall hk trivial (Nat.le_refl _)
  · obtain ⟨t, ht, rfl⟩ := Option.map_eq_some_iff.mp hs
    obtain ⟨⟨t₁, ht₁, he⟩, hreread⟩ := hholds
    obtain ⟨t₂, ht₂, hr⟩ := hreread _ rfl
    rw [ht] at ht₁ ht₂
    cases ht₁
    cases ht₂
    exact h.saveMove hk ht (place_save he hr)
  · cases hs

/-! ### Runs and activities -/

/-- The processing of a run that ends: a rerun leaves what it had to its filing, and any other
    filing begins a chain. -/
theorem BoundInv.finalize {status : QaRunStatus} {fresh : Bool} {run : LoopRun}
    (h : BoundInv w s) (hk : s.runs[k]? = some run)
    (hs : s.finalize k status fresh run = some s') : BoundInv w s' ∧ Within w s s' := by
  obtain ⟨hended, calls, chains, hcalls, rfl⟩ := finalize_cases hs
  have hrun := h.runs run (List.mem_of_getElem? hk)
  obtain ⟨run', hrun'⟩ : ∃ run' : LoopRun, run' = { run with status } := ⟨_, rfl⟩
  rw [← hrun']
  have hnone : runLeft w run' = 0 := by
    unfold runLeft runLive
    rw [hrun']
    cases status <;> simp_all [QaRunStatus.isTerminal]
  have hcause : (s.runs.set k run').map (·.cause) = s.runs.map (·.cause) :=
    map_set_of_eq hk (by rw [hrun'])
  have hruns := sum_map_set_add (b := run') hk (runLeft w)
  have hreruns : (s.runs.set k run').countP (·.cause.isSome) = s.reruns := by
    have := congrArg (List.countP Option.isSome) hcause
    rwa [List.countP_map, List.countP_map] at this
  -- What the call that is opened is left with, against the run's share.
  have hgain : ∃ gain, chains = s.chains + gain ∧ (∀ c ∈ calls, FilingOk w c) ∧
      (calls.map (callLeft w)).sum ≤
        (s.calls.map (callLeft w)).sum + runLeft w run + w.maxReruns * gain := by
    cases hcalls with
    | none => exact ⟨0, rfl, h.filings, by omega⟩
    | sweep =>
      refine ⟨0, rfl, fun c hc => ?_, ?_⟩
      · rcases List.mem_append.mp hc with hc | hc
        · exact h.filings c hc
        · exact List.mem_singleton.mp hc ▸ trivial
      · simp [callLeft]
    | file =>
      rename_i phase _
      refine ⟨_, rfl, fun c hc => ?_, ?_⟩
      · rcases List.mem_append.mp hc with hc | hc
        · exact h.filings c hc
        · exact List.mem_singleton.mp hc ▸ ⟨hrun.generation, hrun.room⟩
      · have hle : callLeft w (.filing k run.rerun_generation run.policy phase) ≤
            w.left run.rerun_generation := by
          cases phase <;> simp [callLeft]
        have hmax := left_le (w := w) run.rerun_generation
        rw [List.map_append, List.sum_append, List.map_singleton, List.sum_singleton]
        by_cases hcont : run.cause.isSome ∧ run.status = .running
        · have hshare : runLeft w run = w.left run.rerun_generation := by
            simp [runLeft, runLive, hcont.1, hcont.2]
          rw [if_pos hcont, hshare]
          omega
        · rw [if_neg hcont]
          omega
  obtain ⟨gain, rfl, hfilings, hle⟩ := hgain
  refine ⟨⟨fun x hx => (h.handlers x hx).stay (.of_eq rfl), hfilings, fun r hr => ?_, ?_⟩, ?_⟩
  · rcases List.mem_or_eq_of_mem_set hr with hr | rfl
    · exact (h.runs r hr).of_handlers rfl
    · exact ⟨by rw [hrun']; exact hrun.room, by rw [hrun']; exact hrun.generation,
        by rw [hrun']; exact hrun.rerun, by rw [hrun']; exact hrun.caused⟩
  · have := congrArg (List.filterMap id) hcause
    simp only [List.filterMap_map, Function.id_comp] at this
    show ((s.runs.set k run').filterMap (·.cause)).Nodup
    rw [show (s.runs.set k run').filterMap (·.cause) = s.runs.filterMap (·.cause) from this]
    exact h.once
  · refine Within.of_sums (s.tickets.map (ticketLeft w)).sum
      ((s.runs.set k run').map (runLeft w)).sum (calls.map (callLeft w)).sum
      (s.handlers.map (s.handlerLeft w)).sum gain ?_ rfl rfl rfl rfl rfl
    show (s.runs.set k run').countP (·.cause.isSome) + _ + _ + _ + _ ≤ _
    rw [hreruns]
    omega

variable {x : Handler}

/-- Where the handling of an activity goes, it has no more than before. -/
theorem handlerLeft_advance {phase : HandlerPhase} (h : Advance w s x phase) :
    s.handlerLeft w { x with phase } ≤ s.handlerLeft w x := by
  cases h with
  | stop => exact Nat.zero_le _
  | load hphase ht htags hscenario =>
    rename_i t
    have hreruns : w.reruns t.row.tags = true := by
      simp only [QaWorld.reruns, Bool.and_eq_true, decide_eq_true_eq]
      exact ⟨htags, hscenario⟩
    simp only [handlerLeft, hphase, ht, hreruns, if_true]
    exact Nat.le_refl _
  | gate hphase _ => simp [handlerLeft, hphase]
  | wait hphase _ => simp [handlerLeft, hphase]
  | gated gated hphase => simp [handlerLeft, hphase]

theorem handlerOk_advance {phase : HandlerPhase} (hok : HandlerOk w s x)
    (h : Advance w s x phase) : HandlerOk w s { x with phase } := by
  refine ⟨hok.ticket, fun g hg => ?_⟩
  have hnext : ∀ gen : Nat, (gen : Int) < resolveMaxAttempts w.max_rerun_attempts →
      1 ≤ gen + 1 ∧ gen + 1 ≤ w.maxReruns := by
    intro gen hgen
    unfold QaWorld.maxReruns
    omega
  cases h with
  | stop => rcases hg with hg | ⟨_, hg⟩ <;> cases hg
  | load => rcases hg with hg | ⟨_, hg⟩ <;> cases hg
  | gate _ hgen =>
    rcases hg with hg | ⟨_, hg⟩
    · cases hg
      exact hnext _ hgen
    · cases hg
  | wait _ hgen =>
    rcases hg with hg | ⟨_, hg⟩
    · cases hg
    · cases hg
      exact hnext _ hgen
  | gated gated hphase =>
    rcases hg with hg | ⟨_, hg⟩
    · cases hg
    · cases hg
      exact hok.generation _ (.inl hphase)

/-- An activity that is not at its end has started no rerun. -/
theorem BoundInv.not_caused (h : BoundInv w s) (hk : s.handlers[k]? = some x)
    (hphase : x.phase ≠ .ended) : ∀ r ∈ s.runs, r.cause ≠ some k := by
  intro r hr hcause
  obtain ⟨y, hy, hended⟩ := (h.runs r hr).caused k hcause
  rw [hk] at hy
  exact hphase (Option.some.inj hy ▸ hended)

/-- Handler `k` goes on with no more than it had; the tickets have what they had. -/
theorem BoundInv.setHandler {x y : Handler} (h : BoundInv w s) (hk : s.handlers[k]? = some x)
    (hlive : x.phase ≠ .ended ∨ y.phase = .ended) (hok : HandlerOk w s y)
    (hleft : s.handlerLeft w y ≤ s.handlerLeft w x) (hstay : Stay s s')
    (htickets : s'.tickets.map (ticketLeft w) = s.tickets.map (ticketLeft w))
    (hs : s' = { s with tickets := s'.tickets, handlers := s.handlers.set k y }) :
    BoundInv w s' ∧ Within w s s' := by
  have hmem : ∀ z ∈ s.handlers.set k y, HandlerOk w s z := by
    intro z hz
    rcases List.mem_or_eq_of_mem_set hz with hz | rfl
    · exact h.handlers z hz
    · exact hok
  have hsum := sum_map_set_add (b := y) hk (s.handlerLeft w)
  have hsame := handlers_sum_stay (w := w) hstay fun z hz => (hmem z hz).ticket
  obtain ⟨tickets, htickets'⟩ : ∃ tickets, tickets = s'.tickets := ⟨_, rfl⟩
  rw [← htickets'] at hs htickets
  subst hs
  refine ⟨⟨fun z hz => (hmem z hz).stay hstay, h.filings, fun r hr => ?_, h.once⟩, ?_⟩
  · obtain ⟨hroom, hgen, hrerun, hcaused⟩ := h.runs r hr
    refine ⟨hroom, hgen, hrerun, fun j hj => ?_⟩
    obtain ⟨z, hz, hended⟩ := hcaused j hj
    by_cases hkj : k = j
    · subst hkj
      rw [hk] at hz
      cases hz
      have hlt := lt_of_getElem? hk
      exact ⟨y, List.getElem?_set_self hlt, hlive.resolve_left (not_not.mpr hended)⟩
    · exact ⟨z, (List.getElem?_set_ne hkj).trans hz, hended⟩
  · refine Within.of_sums (s.tickets.map (ticketLeft w)).sum (s.runs.map (runLeft w)).sum
      (s.calls.map (callLeft w)).sum ((s.handlers.set k y).map (s.handlerLeft w)).sum 0
      ?_ (congrArg List.sum htickets) rfl rfl hsame rfl
    show s.reruns + _ + _ + _ + _ ≤ _
    omega

/-- The next statement of the handling of an activity. -/
theorem BoundInv.handle {now : Date} {cfg : QaOnFailureTicketConfig} {environment : String}
    {satisfied : Bool} (h : BoundInv w s) (hk : s.handlers[k]? = some x)
    (hs : s.handle w now cfg environment satisfied k x = some s') :
    BoundInv w s' ∧ Within w s s' := by
  have hlive : x.phase ≠ .ended := by
    intro hended
    unfold LoopState.handle at hs
    rw [hended] at hs
    cases hs
  obtain ⟨phase, hadvance, rfl | ⟨t, ht, rfl⟩⟩ := handle_cases hs
  all_goals
    have hok := handlerOk_advance (h.handlers x (List.mem_of_getElem? hk)) hadvance
    have hleft := handlerLeft_advance hadvance
  · exact h.setHandler hk (.inl hlive) hok hleft (.of_eq rfl) rfl rfl
  · refine h.setHandler hk (.inl hlive) hok hleft (.of_set rfl ht rfl) ?_ rfl
    exact map_set_of_eq ht rfl

/-- A rerun is dispatched: it takes one of what its activity had left. -/
theorem BoundInv.fire (h : BoundInv w s) (hk : s.handlers[k]? = some x)
    (hroom : p.leavesRoom w = true) (hs : s.startRerun p k x = some s') :
    BoundInv w s' ∧ Within w s s' := by
  obtain ⟨generation, gated, hphase, -, rfl⟩ := startRerun_rows hs
  have hok := h.handlers x (List.mem_of_getElem? hk)
  obtain ⟨hone, hmax⟩ := hok.generation generation (.inr ⟨gated, hphase⟩)
  have hlive : x.phase ≠ .ended := by simp [hphase]
  have hended : s.handlerLeft w { x with phase := .ended } = 0 := rfl
  have hended' : BoundInv w (s.setHandler k { x with phase := .ended }) ∧
      Within w s (s.setHandler k { x with phase := .ended }) :=
    h.setHandler hk (.inl hlive) (handlerOk_advance hok .stop) (Nat.zero_le _) (.of_eq rfl) rfl rfl
  have hinv := hended'.1
  obtain ⟨run, hrun⟩ : ∃ run : LoopRun, run =
    { policy := p, rerun_generation := generation, cause := some k } := ⟨_, rfl⟩
  rw [← hrun]
  have hlt := lt_of_getElem? hk
  refine ⟨⟨fun z hz => (hinv.handlers z hz).stay (.of_eq rfl), h.filings, fun r hr => ?_, ?_⟩, ?_⟩
  · rcases List.mem_append.mp hr with hr | hr
    · exact (hinv.runs r hr).of_handlers rfl
    · obtain rfl := List.mem_singleton.mp hr
      rw [hrun]
      refine ⟨hroom, hmax, fun _ => hone, fun j hj => ?_⟩
      cases hj
      exact ⟨_, List.getElem?_set_self hlt, rfl⟩
  · show ((s.runs ++ [run]).filterMap (·.cause)).Nodup
    rw [List.filterMap_append, List.nodup_append]
    refine ⟨h.once, by simp [hrun], fun j hj j' hj' heq => ?_⟩
    obtain ⟨r, hr, hcause⟩ := List.mem_filterMap.mp hj
    simp only [hrun, List.filterMap_cons, List.filterMap_nil, List.mem_singleton] at hj'
    exact h.not_caused hk hlive r hr (by rw [hcause, heq, hj'])
  · have hsum := sum_map_set_add (b := { x with phase := .ended }) hk (s.handlerLeft w)
    have hleft : runLeft w run + 1 ≤ s.handlerLeft w x := by
      simp only [runLeft, runLive, hrun, handlerLeft, hphase, QaWorld.left]
      simp
      omega
    refine Within.of_sums (s.tickets.map (ticketLeft w)).sum
      ((s.runs.map (runLeft w)).sum + runLeft w run) (s.calls.map (callLeft w)).sum
      ((s.handlers.set k { x with phase := .ended }).map (s.handlerLeft w)).sum 0
      ?_ rfl (by simp) rfl rfl rfl
    have hreruns : (s.runs ++ [run]).countP (·.cause.isSome) = s.reruns + 1 := by
      rw [List.countP_append, List.countP_singleton, hrun]
      rfl
    show (s.runs ++ [run]).countP (·.cause.isSome) + _ + _ + _ + _ ≤ _
    rw [hreruns]
    omega

theorem BoundInv.start (h : BoundInv w s) (hroom : p.leavesRoom w = true)
    (hs : s.dispatch p 0 none = some s') : BoundInv w s' ∧ Within w s s' := by
  obtain ⟨-, rfl⟩ := dispatch_rows hs
  refine ⟨⟨fun z hz => (h.handlers z hz).stay (.of_eq rfl), h.filings, fun r hr => ?_, ?_⟩, ?_⟩
  · rcases List.mem_append.mp hr with hr | hr
    · exact (h.runs r hr).of_handlers rfl
    · obtain rfl := List.mem_singleton.mp hr
      exact ⟨hroom, Nat.zero_le _, nofun, nofun⟩
  · show ((s.runs ++ [_]).filterMap LoopRun.cause).Nodup
    rw [List.filterMap_append]
    simpa using h.once
  · have hreruns : (s.runs ++ [{ policy := p : LoopRun }]).countP (·.cause.isSome) = s.reruns := by
      rw [List.countP_append, List.countP_singleton]
      rfl
    refine Within.of_sums (s.tickets.map (ticketLeft w)).sum (s.runs.map (runLeft w)).sum
      (s.calls.map (callLeft w)).sum (s.handlers.map (s.handlerLeft w)).sum 0
      ?_ rfl (by simp [runLeft, runLive]) rfl rfl rfl
    show (s.runs ++ [_]).countP (fun r : LoopRun => r.cause.isSome) + _ + _ + _ + _ ≤ _
    rw [hreruns]
    omega

/-- A step keeps the reruns and what is left within what the chains allow. -/
theorem BoundInv.step {a : LoopAction} (hlower : ∀ g, w.unicode.lower (rerunTag g) = rerunTag g)
    (hsafe : w.maxReruns ≤ maxSafeInteger) (h : BoundInv w s) (hrows : LoopRows s)
    (hs : a.run w s = some s') (hroomy : s.roomy w a = true) :
    BoundInv w s' ∧ Within w s s' := by
  cases a with
  | start p => exact h.start hroomy hs
  | finalize k status fresh =>
    obtain ⟨run, hk, hs⟩ := Option.bind_eq_some_iff.mp hs
    exact h.finalize hk hs
  | move ticket status =>
    cases hs
    exact h.openCall trivial rfl
  | next k now position =>
    obtain ⟨c, hk, hs⟩ := Option.bind_eq_some_iff.mp hs
    exact h.callNext hlower hsafe hrows hk hs
  | throws k =>
    obtain ⟨c, hk, rfl⟩ := Option.map_eq_some_iff.mp hs
    exact h.setCall hk trivial (Nat.zero_le _)
  | handle k now cfg environment satisfied =>
    obtain ⟨x, hk, hs⟩ := Option.bind_eq_some_iff.mp hs
    exact h.handle hk hs
  | fire k p =>
    obtain ⟨x, hk, hs⟩ := Option.bind_eq_some_iff.mp hs
    exact h.fire hk hroomy hs
  | drop k =>
    obtain ⟨x, hk, rfl⟩ := Option.map_eq_some_iff.mp hs
    have hok := h.handlers x (List.mem_of_getElem? hk)
    exact h.setHandler hk (.inr rfl) (handlerOk_advance hok .stop) (Nat.zero_le _) (.of_eq rfl)
      rfl rfl

/-! ## The bound -/

theorem BoundInv.reachable (hlower : ∀ g, w.unicode.lower (rerunTag g) = rerunTag g)
    (hsafe : w.maxReruns ≤ maxSafeInteger)
    (h : ((loopSystem w).restrict fun s a _ => s.roomy w a = true).Reachable s) :
    BoundInv w s := by
  refine h.invariant (P := BoundInv w) ?_ ?_
  · rintro s ⟨-, hruns, hcalls, hhandlers, -⟩
    refine ⟨?_, ?_, ?_, ?_⟩ <;> simp [hruns, hcalls, hhandlers]
  · rintro s a s' hreach hi ⟨hs, hroomy⟩
    exact (hi.step hlower hsafe (.reachable hreach.of_restrict) hs hroomy).1

/-- What is left is at most the maximum for each chain that is under way. -/
theorem potential_le (s : LoopState) : s.potential w ≤ w.maxReruns * s.alive w := by
  have hhandlers : (s.handlers.map (s.handlerLeft w)).sum ≤
      w.maxReruns * s.handlers.countP handlerLive := by
    refine sum_map_le_countP fun h _ => ?_
    cases hphase : h.phase with
    | ended => simp [handlerLeft, hphase]
    | moved =>
      simp only [handlerLeft, handlerLive, hphase]
      split
      · split
        · simpa using left_le _
        · exact Nat.zero_le _
      · exact Nat.zero_le _
    | _ => simpa [handlerLeft, handlerLive, hphase] using left_le _
  have htickets : (s.tickets.map (ticketLeft w)).sum ≤
      w.maxReruns * s.tickets.countP (ticketLive w) :=
    sum_map_le_countP fun t _ => by
      unfold ticketLeft
      split
      · exact left_le _
      · exact Nat.le_refl _
  have hruns : (s.runs.map (runLeft w)).sum ≤ w.maxReruns * s.runs.countP runLive :=
    sum_map_le_countP fun r _ => by
      unfold runLeft
      split
      · exact left_le _
      · exact Nat.le_refl _
  have hcalls : (s.calls.map (callLeft w)).sum ≤ w.maxReruns * s.calls.countP callLive :=
    sum_map_le_countP fun c _ => by
      unfold callLeft callLive
      split
      · split <;> simp [left_le]
      · exact Nat.zero_le _
  unfold potential alive
  rw [Nat.mul_add, Nat.mul_add, Nat.mul_add]
  omega

/-- Along a run from a reachable state, the reruns and what is left stay within what the chains
    allow. -/
theorem within_path (hlower : ∀ g, w.unicode.lower (rerunTag g) = rerunTag g)
    (hsafe : w.maxReruns ≤ maxSafeInteger) {actions : List LoopAction}
    (h : ((loopSystem w).restrict fun s a _ => s.roomy w a = true).Reachable s)
    (hp : ((loopSystem w).restrict fun s a _ => s.roomy w a = true).Path s actions s') :
    Within w s s' := by
  -- Induction on the run, one step at its end.
  induction hp with
  | nil => exact Nat.le_refl _
  | snoc hp' hstep ih =>
    have hreach := h.path hp'
    have hinv := BoundInv.reachable hlower hsafe hreach
    exact ih.trans (hinv.step hlower hsafe (.reachable hreach.of_restrict) hstep.1 hstep.2).2

/-- The loop is bounded for each chain: a handled move starts one rerun at most, a rerun has a
    generation up to the maximum, and from any moment on there are at most as many reruns as the
    maximum allows for each chain that was under way or has begun since. -/
theorem reruns_bounded (hlower : ∀ g, w.unicode.lower (rerunTag g) = rerunTag g)
    (hsafe : w.maxReruns ≤ maxSafeInteger) {actions : List LoopAction}
    (h : ((loopSystem w).restrict fun s a _ => s.roomy w a = true).Reachable s)
    (hp : ((loopSystem w).restrict fun s a _ => s.roomy w a = true).Path s actions s') :
    (s'.runs.filterMap (·.cause)).Nodup ∧
      (∀ r ∈ s'.runs, r.cause.isSome →
        1 ≤ r.rerun_generation ∧ r.rerun_generation ≤ w.maxReruns) ∧
      s'.reruns + w.maxReruns * s.chains ≤
        s.reruns + w.maxReruns * (s.alive w + s'.chains) := by
  have hinv := BoundInv.reachable hlower hsafe (h.path hp)
  have hwithin := within_path hlower hsafe h hp
  have hpotential := potential_le (w := w) s
  refine ⟨hinv.once, fun r hr hc => ⟨(hinv.runs r hr).rerun hc, (hinv.runs r hr).generation⟩, ?_⟩
  unfold Within at hwithin
  rw [Nat.mul_add]
  omega

end Steps

/-! ## Runs with one attempt -/

/-- A scenario that may be rerun once. -/
def onceWorld : QaWorld :=
  { likeFold := id, unicode := { nfkc := id, lower := id, isLetterOrNumber := fun _ => true }
    scenario_id := "s1", account_id := "a", max_rerun_attempts := some 1 }

/-- A run fails and files ticket 0. -/
def failsAndFiles : List LoopAction :=
  [.start {}, .finalize 0 .failed false] ++ List.replicate 4 (.next 0 1 0)

/-- Ticket 0 is moved by call `k`. -/
def moves (k : Nat) (status : TicketStatus) (now : Date) : List LoopAction :=
  .move 0 status :: List.replicate 3 (.next k now 0)

/-- Handler `k` starts the rerun of its activity. -/
def startsRerun (k : Nat) (now : Date) : List LoopAction :=
  [.handle k now { rerun_on_fix := true } "" false, .handle k now { rerun_on_fix := true } "" false,
    .fire k {}]

/-- A failure, its fix and the rerun, from an empty table: nothing was under way, and one chain
    has begun. -/
theorem reruns_bounded_small : ∃ s : LoopState, s.reruns = 1 ∧ s.chains = 1 ∧
    (s.runs.filterMap (·.cause)).Nodup ∧
    s.reruns + onceWorld.maxReruns * 0 ≤
      0 + onceWorld.maxReruns * (({ tickets := [] } : LoopState).alive onceWorld + s.chains) := by
  obtain ⟨s, hpath, hq⟩ := Transition.exists_path_checked (M := loopSystem onceWorld)
    (C := fun s a => s.roomy onceWorld a) (fun _ _ _ hs => hs) { tickets := [] }
    (failsAndFiles ++ moves 1 .done 2 ++ startsRerun 0 3)
    (fun s => s.reruns = 1 && s.chains = 1) (by decide +kernel)
  rw [Bool.and_eq_true, decide_eq_true_eq, decide_eq_true_eq] at hq
  have hbound := reruns_bounded (w := onceWorld) (fun _ => rfl) (by decide)
    (.init ⟨by simp, rfl, rfl, rfl, rfl⟩) hpath
  exact ⟨s, hq.1, hq.2, hbound.1, hbound.2.2⟩

/-- No run passes. -/
def noPass : LoopAction → Bool
  | .finalize _ status _ => status ≠ .passed
  | _ => true

/-- The ticket is taken back and done again: two reruns where one is allowed, without a pass. -/
theorem rerun_again : ¬∀ s, ((loopSystem onceWorld).restrict fun s a _ =>
    (s.roomy onceWorld a && noPass a) = true).Reachable s → s.reruns ≤ onceWorld.maxReruns := by
  intro hall
  obtain ⟨s, hreach, hq⟩ := Transition.exists_reachable_checked (M := loopSystem onceWorld)
    (C := fun s a => s.roomy onceWorld a && noPass a) (fun _ _ _ hs => hs)
    (s := { tickets := [] }) ⟨by simp, rfl, rfl, rfl, rfl⟩
    (failsAndFiles ++ moves 1 .done 2 ++ startsRerun 0 3 ++ moves 2 .todo 4 ++ moves 3 .done 5 ++
      startsRerun 1 6)
    (fun s => s.reruns = 2) (by decide +kernel)
  have hbound := hall s hreach
  rw [of_decide_eq_true hq] at hbound
  revert hbound
  decide

end LoopState

end WorkflowBoard.Qa
