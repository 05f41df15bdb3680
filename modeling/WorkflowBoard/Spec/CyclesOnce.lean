import WorkflowBoard.ForStd.Grows
import WorkflowBoard.Native.MarketingCycles

/-!
# One running cycle for each campaign

The number of a cycle is taken once along every run. The other promises need three races not to
happen: a cycle that is inserted between the look of a dispatch for a running one and its read of
the last number, a cycle that is inserted after the hook of a stop has looked, and a dispatch that
throws when its cycle has been closed. `CycleState.timely` names the steps that are none of these.
-/

namespace WorkflowBoard.Cycles

/-! ## What is promised -/

/-- No number is taken twice in a campaign. -/
def Numbered (s : CycleState) : Prop := (s.cycles.map Cycle.key).Nodup

/-- No campaign has two running cycles. -/
def OneRunning (s : CycleState) : Prop :=
  ∀ (campaign i j : Nat) (r r' : Cycle), s.cycles[i]? = some r → s.cycles[j]? = some r' →
    r.isRunningOf campaign = true → r'.isRunningOf campaign = true → i = j

/-- A stop whose hook has closed what it found, and after which the campaign is not activated,
    leaves no running cycle. -/
def Stopped (s : CycleState) : Prop :=
  ∀ c ∈ s.closings, c.phase = .closing [] → ∀ campaign activations,
    c.closer = .stop campaign activations →
    (s.campaigns[campaign]?).any (·.activations = activations) = true →
    ∀ r ∈ s.cycles, r.isRunningOf campaign = false

/-- The row is the same but for its status, and that only if it is running. -/
def Cycle.Kept (r r' : Cycle) : Prop :=
  r'.key = r.key ∧ (r.status ≠ .running → r'.status = r.status)

theorem Cycle.Kept.rfl {r : Cycle} : r.Kept r := ⟨.refl _, fun _ => .refl _⟩

theorem Cycle.Kept.trans {a b c : Cycle} (h : a.Kept b) (h' : b.Kept c) : a.Kept c := by
  refine ⟨h'.1.trans h.1, fun ha => ?_⟩
  have hb := h.2 ha
  rw [h'.2 (by rwa [hb]), hb]

/-! ## Steps that are none of the three races -/

/-- The running cycles of the campaign were there when the dispatch looked; no stop of the campaign,
    as it is activated now, has looked; the cycle of a dispatch that throws is running. -/
def CycleState.timely (s : CycleState) (a : CycleAction) : Bool :=
  match a with
  | .dispatchNext k =>
      match s.dispatches[k]? with
      | some c =>
          match c.phase with
          | .numbering => (s.find (·.isRunningOf c.campaign)).all (·.2 < c.looked)
          | .saving _ =>
              s.closings.all fun d => d.phase = .finding ||
                !(s.campaigns[c.campaign]?).any (d.closer = .stop c.campaign ·.activations)
          | _ => true
      | none => true
  | .dispatchThrows k =>
      match s.dispatches[k]? with
      | some c =>
          match c.phase with
          | .starting place => (s.cycles[place]?).all (·.status = .running)
          | _ => true
      | none => true
  | _ => true

/-! ## Tables -/

variable {s s' : CycleState} {l l' : List Cycle} {p : Cycle → Bool} {r r' : Cycle} {campaign : Nat}

/-- What a look finds: the rows it asks for, each with its place. -/
theorem mem_find {x : Cycle × Nat} : x ∈ s.find p ↔ s.cycles[x.2]? = some x.1 ∧ p x.1 = true := by
  rw [CycleState.find, List.mem_filter, List.mem_zipIdx_iff_getElem?]

theorem Cycle.isRunningOf_iff :
    r.isRunningOf campaign = true ↔ r.campaign_id = campaign ∧ r.status = .running := by
  simp [Cycle.isRunningOf]

/-- Rows keep their keys, and one that is running was so before. -/
structure Closes (l l' : List Cycle) : Prop where
  keys : l'.map Cycle.key = l.map Cycle.key
  running : ∀ (i : Nat) (r : Cycle), l'[i]? = some r → r.status = .running → l[i]? = some r

theorem Cycle.close_key (status : CycleStatus) (r : Cycle) : (r.close status).key = r.key := by
  unfold Cycle.close
  split <;> rfl

variable {status : CycleStatus} {a : CycleAction}

theorem Cycle.close_running (hstatus : status ≠ .running) (r : Cycle) :
    (r.close status).status ≠ .running := by
  unfold Cycle.close
  split
  · exact hstatus
  · assumption

theorem Closer.status_ne (c : Closer) : c.status ≠ .running := by
  cases c <;> nofun

theorem Closes.modify {f : Cycle → Cycle} (place : Nat) (hkey : ∀ r, (f r).key = r.key)
    (hstatus : ∀ r, (f r).status ≠ .running) : Closes l (l.modify place f) where
  keys := map_modify_of_eq hkey
  running i r hr hrun := by
    rcases getElem?_modify_cases hr with ⟨_, r₀, _, h⟩ | ⟨_, h⟩
    · exact absurd (h ▸ hrun) (hstatus r₀)
    · exact h

theorem Closes.close (place : Nat) (hstatus : status ≠ .running) :
    Closes s.cycles (s.close place status).cycles :=
  .modify place (Cycle.close_key status) (Cycle.close_running hstatus)

theorem Closes.fail (place : Nat) : Closes s.cycles (s.fail place).cycles :=
  .modify place (fun _ => .refl _) nofun

/-- A close makes no row run. -/
theorem Closes.isRunningOf (h : Closes l l') {i : Nat} (hr : l'[i]? = some r)
    (hrun : r.isRunningOf campaign = true) : l[i]? = some r :=
  h.running i r hr (Cycle.isRunningOf_iff.mp hrun).2

theorem close_not_running {place : Nat} (hstatus : status ≠ .running)
    (hr : (s.close place status).cycles[place]? = some r) : r.isRunningOf campaign = false := by
  rcases getElem?_modify_cases hr with ⟨_, r₀, _, h⟩ | ⟨hne, _⟩
  · rw [h, ← Bool.not_eq_true, Cycle.isRunningOf_iff]
    exact fun hrun => Cycle.close_running hstatus r₀ hrun.2
  · exact absurd (.refl _) hne

/-! ## The invariant -/

/-- The number `n` of the campaign is taken. -/
def Taken (l : List Cycle) (campaign n : Nat) : Prop := (campaign, n) ∈ l.map Cycle.key

/-- All smaller numbers are taken. -/
def TakenBelow (l : List Cycle) (campaign n : Nat) : Prop :=
  ∀ m, 1 ≤ m → m < n → Taken l campaign m

def NoneRunning (l : List Cycle) (campaign : Nat) : Prop :=
  ∀ r ∈ l, r.isRunningOf campaign = false

/-- What a dispatch knows of the rows. -/
def DispatchCall.Knows (l : List Cycle) (c : DispatchCall) : Prop :=
  match c.phase with
  | .timingOut place => ∀ (i : Nat) r, l[i]? = some r → r.isRunningOf c.campaign = true →
      i < c.looked → i = place
  | .numbering => ∀ (i : Nat) r, l[i]? = some r → r.isRunningOf c.campaign = true → c.looked ≤ i
  -- If the number is free it is the next one, and then nothing was inserted since it was read.
  | .saving n =>
      1 ≤ n ∧ TakenBelow l c.campaign n ∧ (Taken l c.campaign n ∨ NoneRunning l c.campaign)
  | _ => True

/-- A stop of the campaign as it is activated now has still to close what is running. -/
def CloseCall.Knows (campaigns : List Campaign) (l : List Cycle) (c : CloseCall) : Prop :=
  ∀ campaign activations, c.closer = .stop campaign activations →
    ∃ x, campaigns[campaign]? = some x ∧ activations ≤ x.activations ∧
      (activations = x.activations → ∀ rest, c.phase = .closing rest →
        ∀ (i : Nat) r, l[i]? = some r → r.isRunningOf campaign = true → i ∈ rest)

structure CycleInv (s : CycleState) : Prop where
  below : ∀ campaign n, Taken s.cycles campaign n → TakenBelow s.cycles campaign n
  one : OneRunning s
  looked : ∀ (k : Nat) c, s.dispatches[k]? = some c → c.looked ≤ s.cycles.length
  dispatch : ∀ (k : Nat) c, s.dispatches[k]? = some c → c.Knows s.cycles
  closing : ∀ (k : Nat) c, s.closings[k]? = some c → c.Knows s.campaigns s.cycles

/-! ## Rows that are closed -/

/-- A close takes no number and frees none. -/
theorem Closes.taken (h : Closes l l') {n : Nat} : Taken l' campaign n ↔ Taken l campaign n := by
  rw [Taken, h.keys, Taken]

theorem Closes.takenBelow (h : Closes l l') {n : Nat} :
    TakenBelow l' campaign n ↔ TakenBelow l campaign n := by
  simp only [TakenBelow, h.taken]

theorem Closes.noneRunning (h : Closes l l') (hnone : NoneRunning l campaign) :
    NoneRunning l' campaign := by
  intro r hr
  obtain ⟨i, hi⟩ := List.getElem?_of_mem hr
  rw [← Bool.not_eq_true]
  intro hrun
  have hmem := List.mem_of_getElem? (h.isRunningOf hi hrun)
  exact Bool.noConfusion (hrun.symm.trans (hnone r hmem))

/-- What a dispatch knows stays true when cycles are closed. -/
theorem DispatchCall.Knows.closes {c : DispatchCall} (h : c.Knows l) (hl : Closes l l') :
    c.Knows l' := by
  unfold DispatchCall.Knows at *
  split at h
  · exact fun i r hr hrun => h i r (hl.isRunningOf hr hrun) hrun
  · exact fun i r hr hrun => h i r (hl.isRunningOf hr hrun) hrun
  · obtain ⟨hpos, hbelow, hfree⟩ := h
    exact ⟨hpos, hl.takenBelow.mpr hbelow, hfree.imp hl.taken.mpr hl.noneRunning⟩
  · trivial

theorem CloseCall.Knows.closes {c : CloseCall} {campaigns : List Campaign}
    (h : c.Knows campaigns l) (hl : Closes l l') : c.Knows campaigns l' := by
  intro campaign activations hstop
  obtain ⟨x, hx, hle, hrest⟩ := h campaign activations hstop
  exact ⟨x, hx, hle, fun heq rest hphase i r hr hrun =>
    hrest heq rest hphase i r (hl.isRunningOf hr hrun) hrun⟩

namespace CycleInv

/-- A write that closes rows keeps the invariant. -/
theorem closes (h : CycleInv s) (hl : Closes s.cycles l) : CycleInv { s with cycles := l } where
  below campaign n hn := hl.takenBelow.mpr (h.below campaign n (hl.taken.mp hn))
  one campaign i j r r' hr hr' hrun hrun' :=
    h.one campaign i j r r' (hl.isRunningOf hr hrun) (hl.isRunningOf hr' hrun') hrun hrun'
  looked k c hc := by
    have hlen : l.length = s.cycles.length := by simpa using congrArg List.length hl.keys
    exact hlen ▸ h.looked k c hc
  dispatch k c hc := (h.dispatch k c hc).closes hl
  closing k c hc := (h.closing k c hc).closes hl

theorem setDispatch (h : CycleInv s) (k : Nat) {c : DispatchCall}
    (hlooked : c.looked ≤ s.cycles.length) (hc : c.Knows s.cycles) :
    CycleInv (s.setDispatch k c) where
  below := h.below
  one := h.one
  looked j d hd := by
    rcases getElem?_set_cases hd with ⟨_, rfl⟩ | ⟨_, hd⟩
    · exact hlooked
    · exact h.looked j d hd
  dispatch j d hd := by
    rcases getElem?_set_cases hd with ⟨_, rfl⟩ | ⟨_, hd⟩
    · exact hc
    · exact h.dispatch j d hd
  closing := h.closing

theorem setClosing (h : CycleInv s) (k : Nat) {c : CloseCall} (hc : c.Knows s.campaigns s.cycles) :
    CycleInv (s.setClosing k c) where
  below := h.below
  one := h.one
  looked := h.looked
  dispatch := h.dispatch
  closing j d hd := by
    rcases getElem?_set_cases hd with ⟨_, rfl⟩ | ⟨_, hd⟩
    · exact hc
    · exact h.closing j d hd

end CycleInv

/-! ## A row that is inserted -/

section Insert

variable {row : Cycle}

theorem taken_append {n : Nat} :
    Taken (l ++ [row]) campaign n ↔ Taken l campaign n ∨ row.key = (campaign, n) := by
  simp [Taken, eq_comm]

theorem TakenBelow.append {n : Nat} (h : TakenBelow l campaign n) :
    TakenBelow (l ++ [row]) campaign n := fun m hm hmn => taken_append.mpr (.inl (h m hm hmn))

theorem NoneRunning.append (h : NoneRunning l campaign) (hother : row.campaign_id ≠ campaign) :
    NoneRunning (l ++ [row]) campaign := by
  intro r hr
  rcases List.mem_append.mp hr with hr | hr
  · exact h r hr
  · obtain rfl := List.mem_singleton.mp hr
    simp [Cycle.isRunningOf, hother]

/-- The row takes the next number of its campaign. -/
structure Next (l : List Cycle) (row : Cycle) : Prop where
  pos : 1 ≤ row.cycle_no
  free : ¬ Taken l row.campaign_id row.cycle_no
  below : TakenBelow l row.campaign_id row.cycle_no
  none : NoneRunning l row.campaign_id

/-- What a dispatch knows stays true when the next row is inserted. -/
theorem DispatchCall.Knows.append {c : DispatchCall} (h : c.Knows l) (hlooked : c.looked ≤ l.length)
    (hrow : Next l row) : c.Knows (l ++ [row]) := by
  unfold DispatchCall.Knows at *
  split at h
  · rename_i place _
    intro i r hr hrun hi
    rcases getElem?_append_cases hr with hr | ⟨rfl, _⟩
    · exact h i r hr hrun hi
    · omega
  · intro i r hr hrun
    rcases getElem?_append_cases hr with hr | ⟨rfl, _⟩
    · exact h i r hr hrun
    · exact hlooked
  · rename_i n _
    obtain ⟨hpos, hbelow, hfree⟩ := h
    refine ⟨hpos, hbelow.append, ?_⟩
    rcases hfree with htaken | hnone
    · exact .inl (taken_append.mpr (.inl htaken))
    by_cases hcamp : row.campaign_id = c.campaign
    · -- The number of the row is free and all below it are taken, so that it is `n` if `n` is free.
      left
      rw [taken_append]
      rcases Nat.lt_trichotomy n row.cycle_no with hlt | rfl | hgt
      · exact .inl (hcamp ▸ hrow.below n hpos hlt)
      · exact .inr (by rw [Cycle.key, hcamp])
      · exact absurd (hcamp ▸ hbelow _ hrow.pos hgt) hrow.free
    · exact .inr (hnone.append hcamp)
  · trivial

/-- The stops of the campaign, as it is activated now, have not looked. -/
def NoneLooked (s : CycleState) (campaign : Nat) : Prop :=
  ∀ d ∈ s.closings, ∀ x, s.campaigns[campaign]? = some x → d.closer = .stop campaign x.activations →
    d.phase = .finding

theorem CycleInv.insert (h : CycleInv s) (hrow : Next s.cycles row)
    (hstops : NoneLooked s row.campaign_id) : CycleInv (s.insert row) where
  below campaign n hn m hm hmn := by
    rcases taken_append.mp hn with hn | hn
    · exact taken_append.mpr (.inl (h.below campaign n hn m hm hmn))
    · cases hn
      exact hrow.below.append m hm hmn
  one campaign i j r r' hr hr' hrun hrun' := by
    have hnone : ∀ {k : Nat} {q : Cycle}, s.cycles[k]? = some q →
        q.isRunningOf campaign = true → row.isRunningOf campaign = true → False := by
      intro k q hq hqrun hrowrun
      have hcamp := (Cycle.isRunningOf_iff.mp hrowrun).1
      have hoff := hrow.none q (List.mem_of_getElem? hq)
      rw [hcamp, hqrun] at hoff
      cases hoff
    rcases getElem?_append_cases hr with hold | ⟨hi, hrow⟩
    · rcases getElem?_append_cases hr' with hold' | ⟨_, hrow'⟩
      · exact h.one campaign i j r r' hold hold' hrun hrun'
      · exact (hnone hold hrun (hrow' ▸ hrun')).elim
    · rcases getElem?_append_cases hr' with hold' | ⟨hj, _⟩
      · exact (hnone hold' hrun' (hrow ▸ hrun)).elim
      · exact hi.trans hj.symm
  looked k c hc := by
    have := h.looked k c hc
    simp only [CycleState.insert, List.length_append, List.length_singleton]
    omega
  dispatch k c hc := (h.dispatch k c hc).append (h.looked k c hc) hrow
  closing k c hc := by
    intro campaign activations hstop
    obtain ⟨x, hx, hle, hrest⟩ := h.closing k c hc campaign activations hstop
    refine ⟨x, hx, hle, fun heq rest hphase i r hr hrun => ?_⟩
    rcases getElem?_append_cases hr with hr | ⟨_, rfl⟩
    · exact hrest heq rest hphase i r hr hrun
    · obtain ⟨rfl, _⟩ := Cycle.isRunningOf_iff.mp hrun
      have hfinding := hstops c (List.mem_of_getElem? hc) x hx (heq ▸ hstop)
      rw [hphase] at hfinding
      cases hfinding

end Insert

/-! ## Steps -/

/-- Behind the greatest number there is no gap. -/
theorem takenBelow_next (h : ∀ n, Taken l campaign n → TakenBelow l campaign n) :
    TakenBelow l campaign
      (((l.filter (·.campaign_id = campaign)).argmax (·.cycle_no)).elim 0 (·.cycle_no) + 1) := by
  intro m hm hmn
  cases hlast : (l.filter (·.campaign_id = campaign)).argmax (·.cycle_no) with
  | none =>
    rw [hlast] at hmn
    simp only [Option.elim_none] at hmn
    omega
  | some r =>
    rw [hlast] at hmn
    simp only [Option.elim_some] at hmn
    obtain ⟨hr, hcamp⟩ := List.mem_filter.mp (List.argmax_mem (Option.mem_def.mpr hlast))
    have hlasttaken : Taken l campaign r.cycle_no :=
      List.mem_map.mpr ⟨r, hr, by rw [Cycle.key, of_decide_eq_true hcamp]⟩
    rcases Nat.lt_or_ge m r.cycle_no with hlt | hge
    · exact h _ hlasttaken m hm hlt
    · obtain rfl : m = r.cycle_no := by omega
      exact hlasttaken

namespace CycleInv

variable {k : Nat} {c : DispatchCall} {d : CloseCall}

theorem init : CycleInv {} where
  below _ _ h := nomatch h
  one _ _ _ _ _ h := nomatch h
  looked _ _ h := nomatch h
  dispatch _ _ h := nomatch h
  closing _ _ h := nomatch h

section

variable (h : CycleInv s)
include h

theorem timeOut (hc : s.dispatches[k]? = some c) {place : Nat}
    (hphase : c.phase = .timingOut place) :
    CycleInv ((s.close place .timed_out).setDispatch k { c with phase := .numbering }) := by
  have hcloses : Closes s.cycles (s.close place .timed_out).cycles := .close place nofun
  have hs : CycleInv (s.close place .timed_out) := h.closes hcloses
  refine hs.setDispatch k (hs.looked k c hc) ?_
  intro i r hr hrun
  rcases Nat.lt_or_ge i c.looked with hlt | hge
  · have hknows := h.dispatch k c hc
    simp only [DispatchCall.Knows, hphase] at hknows
    have hplace := hknows i r (hcloses.isRunningOf hr hrun) hrun hlt
    subst hplace
    have htimed : CycleStatus.timed_out ≠ .running := nofun
    exact Bool.noConfusion (hrun.symm.trans (close_not_running htimed hr))
  · exact hge

/-- The dispatch looks for a running cycle. -/
theorem look (hphase : c.phase = .looking)
    (hstep : s.dispatchStep k c = some s') : CycleInv s' := by
  simp only [CycleState.dispatchStep, hphase, Option.some.injEq] at hstep
  subst hstep
  refine h.setDispatch k (Nat.le_refl _) ?_
  split
  · rename_i hnone
    -- No row is running.
    intro i r hr hrun
    have hmem : (r, i) ∈ s.find (·.isRunningOf c.campaign) := mem_find.mpr ⟨hr, hrun⟩
    rw [List.argmax_eq_none.mp hnone] at hmem
    cases hmem
  · rename_i r place hfound
    have hfound := mem_find.mp (List.argmax_mem (Option.mem_def.mpr hfound))
    split
    · trivial
    · intro i r' hr' hrun' _
      exact h.one c.campaign i place r' r hr' hfound.1 hrun' hfound.2

/-- The dispatch reads the last number. -/
theorem number (hc : s.dispatches[k]? = some c) (hphase : c.phase = .numbering)
    (htimely : s.timely (.dispatchNext k) = true) (hstep : s.dispatchStep k c = some s') :
    CycleInv s' := by
  simp only [CycleState.dispatchStep, hphase, Option.some.injEq] at hstep
  subst hstep
  refine h.setDispatch k (h.looked k c hc) ⟨Nat.succ_pos _, takenBelow_next (h.below _), .inr ?_⟩
  intro r hr
  rw [← Bool.not_eq_true]
  intro hrun
  obtain ⟨i, hi⟩ := List.getElem?_of_mem hr
  have hknows := h.dispatch k c hc
  simp only [DispatchCall.Knows, hphase] at hknows
  have hge := hknows i r hi hrun
  simp only [CycleState.timely, hc, hphase] at htimely
  have hlt := List.all_eq_true.mp htimely (r, i) (mem_find.mpr ⟨hi, hrun⟩)
  exact absurd (of_decide_eq_true hlt) (Nat.not_lt.mpr hge)

/-- The dispatch inserts its row, if the number is still free. -/
theorem save (hc : s.dispatches[k]? = some c) {n : Nat}
    (hphase : c.phase = .saving n) (htimely : s.timely (.dispatchNext k) = true)
    (hstep : s.dispatchStep k c = some s') : CycleInv s' := by
  simp only [CycleState.dispatchStep, hphase] at hstep
  have hknows := h.dispatch k c hc
  simp only [DispatchCall.Knows, hphase] at hknows
  obtain ⟨hpos, hbelow, hfree⟩ := hknows
  split at hstep
  · cases hstep
    exact h.setDispatch k (h.looked k c hc) trivial
  · rename_i hnot
    cases hstep
    have hrow : Next s.cycles { campaign_id := c.campaign, cycle_no := n, started_at := c.now } :=
      ⟨hpos, hnot, hbelow, hfree.resolve_left hnot⟩
    have hstops : NoneLooked s c.campaign := by
      intro d hd x hx hstop
      simp only [CycleState.timely, hc, hphase] at htimely
      have := List.all_eq_true.mp htimely d hd
      simpa [hx, hstop] using this
    have hs := h.insert hrow hstops
    exact hs.setDispatch k (hs.looked k c hc) trivial

/-- Each statement of a dispatch keeps the invariant. -/
theorem dispatchStep (hc : s.dispatches[k]? = some c)
    (htimely : s.timely (.dispatchNext k) = true) (hstep : s.dispatchStep k c = some s') :
    CycleInv s' := by
  cases hphase : c.phase with
  | looking => exact h.look hphase hstep
  | timingOut place =>
    simp only [CycleState.dispatchStep, hphase, Option.some.injEq] at hstep
    exact hstep ▸ h.timeOut hc hphase
  | numbering => exact h.number hc hphase htimely hstep
  | saving n => exact h.save hc hphase htimely hstep
  | starting place =>
    simp only [CycleState.dispatchStep, hphase, Option.some.injEq] at hstep
    exact hstep ▸ h.setDispatch k (h.looked k c hc) trivial
  | started | failed | refused => simp [CycleState.dispatchStep, hphase] at hstep

/-- Each statement of a stop, or of a sweep, keeps the invariant. -/
theorem closeStep (hd : s.closings[k]? = some d)
    (hstep : s.closeStep k d = some s') : CycleInv s' := by
  unfold CycleState.closeStep at hstep
  split at hstep
  · rename_i campaign activations hphase hstop
    cases hstep
    refine h.setClosing k ?_
    intro campaign' activations' hstop'
    obtain ⟨rfl, rfl⟩ := Closer.stop.inj (hstop.symm.trans hstop')
    obtain ⟨x, hx, hle, -⟩ := h.closing k d hd _ _ hstop
    refine ⟨x, hx, hle, fun _ rest hrest i r hr hrun => ?_⟩
    obtain rfl := ClosePhase.closing.inj hrest
    exact List.mem_map.mpr ⟨(r, i), mem_find.mpr ⟨hr, hrun⟩, .refl _⟩
  · rename_i place rest hphase
    cases hstep
    have hcloses : Closes s.cycles (s.close place d.closer.status).cycles :=
      .close place (Closer.status_ne _)
    refine CycleInv.setClosing (h.closes hcloses) k ?_
    intro campaign activations hstop
    obtain ⟨x, hx, hle, hrest⟩ := h.closing k d hd campaign activations hstop
    refine ⟨x, hx, hle, fun heq rest' hrest' i r hr hrun => ?_⟩
    obtain rfl := ClosePhase.closing.inj hrest'
    have hmem := hrest heq _ hphase i r (hcloses.isRunningOf hr hrun) hrun
    rcases List.mem_cons.mp hmem with rfl | hmem
    · exact Bool.noConfusion (hrun.symm.trans (close_not_running (Closer.status_ne _) hr))
    · exact hmem
  · cases hstep
  · cases hstep

theorem appendDispatch (hlooked : c.looked = 0) (hc : c.Knows s.cycles) :
    CycleInv { s with dispatches := s.dispatches ++ [c] } where
  below := h.below
  one := h.one
  looked j e he := by
    rcases getElem?_append_cases he with he | ⟨_, rfl⟩
    · exact h.looked j e he
    · exact hlooked ▸ Nat.zero_le _
  dispatch j e he := by
    rcases getElem?_append_cases he with he | ⟨_, rfl⟩
    · exact h.dispatch j e he
    · exact hc
  closing := h.closing

theorem appendClosing (hd : d.Knows s.campaigns s.cycles) :
    CycleInv { s with closings := s.closings ++ [d] } where
  below := h.below
  one := h.one
  looked := h.looked
  dispatch := h.dispatch
  closing j e he := by
    rcases getElem?_append_cases he with he | ⟨_, rfl⟩
    · exact h.closing j e he
    · exact hd

end

variable {campaigns : List Campaign}

/-- The campaigns change, each of them by more activations or none. -/
theorem setCampaigns (h : CycleInv s)
    (hgrows : Grows (fun x x' => x.activations ≤ x'.activations) s.campaigns campaigns) :
    CycleInv { s with campaigns } where
  below := h.below
  one := h.one
  looked := h.looked
  dispatch := h.dispatch
  closing j d hd := by
    intro campaign activations hstop
    obtain ⟨x, hx, hle, hrest⟩ := h.closing j d hd campaign activations hstop
    obtain ⟨x', hx', hmore⟩ := hgrows campaign x hx
    exact ⟨x', hx', hle.trans hmore, fun heq => hrest (by omega)⟩

theorem grows_set {x x' : Campaign}
    (hx : campaigns[campaign]? = some x) (hle : x.activations ≤ x'.activations) :
    Grows (fun x x' => x.activations ≤ x'.activations) campaigns (campaigns.set campaign x') := by
  intro i y hy
  by_cases hi : campaign = i
  · subst hi
    cases hx.symm.trans hy
    exact ⟨x', getElem?_set_self hx, hle⟩
  · exact ⟨y, by rw [List.getElem?_set_ne hi, hy], Nat.le_refl _⟩

theorem setStatus (h : CycleInv s) {status : CampaignStatus}
    (hstep : s.step (.setStatus campaign status) = some s') : CycleInv s' := by
  unfold CycleState.step at hstep
  dsimp only at hstep
  split at hstep
  · rename_i x hx
    obtain ⟨_, hstep⟩ := Option.ite_none_right_eq_some.mp hstep
    split at hstep
    · cases hstep
      exact h.setCampaigns (grows_set hx (Nat.le_succ _))
    · cases hstep
      have hset := grows_set hx (show x.activations ≤ { x with status : Campaign }.activations from
        Nat.le_refl _)
      refine (h.setCampaigns hset).appendClosing ?_
      intro campaign' activations hstop
      obtain ⟨rfl, rfl⟩ := Closer.stop.inj hstop
      refine ⟨{ x with status }, ?_, Nat.le_refl _, fun _ rest hrest => nomatch hrest⟩
      exact getElem?_set_self hx
  · cases hstep

/-- Each step of a timely run keeps the invariant. -/
theorem step (h : CycleInv s) {a : CycleAction} (htimely : s.timely a = true)
    (hstep : s.step a = some s') : CycleInv s' := by
  cases a with
  | create =>
    cases hstep
    exact h.setCampaigns (.append (fun x => Nat.le_refl x.activations) _ _)
  | setStatus campaign status => exact h.setStatus hstep
  | dispatch campaign now =>
    unfold CycleState.step at hstep
    dsimp only at hstep
    split at hstep
    · cases hstep
      refine h.appendDispatch (.refl _) ?_
      split <;> trivial
    · cases hstep
  | dispatchNext k =>
    unfold CycleState.step at hstep
    dsimp only at hstep
    split at hstep
    · rename_i c hc
      exact h.dispatchStep hc htimely hstep
    · cases hstep
  | dispatchThrows k =>
    unfold CycleState.step CycleState.dispatchFail at hstep
    dsimp only at hstep
    split at hstep
    · rename_i c hc
      split at hstep
      · rename_i place _
        cases hstep
        have hs : CycleInv (s.fail place) := h.closes (.fail place)
        exact hs.setDispatch k (hs.looked k c hc) trivial
      · cases hstep
    · cases hstep
  | complete place =>
    cases hstep
    exact h.closes (.close place nofun)
  | tick now =>
    cases hstep
    exact h.appendClosing fun _ _ hstop => nomatch hstop
  | closeNext k =>
    unfold CycleState.step at hstep
    dsimp only at hstep
    split at hstep
    · rename_i d hd
      exact h.closeStep hd hstep
    · cases hstep

/-- What the hook of a stop has closed stays closed. -/
theorem stopped (h : CycleInv s) : Stopped s := by
  intro d hd hphase campaign activations hstop hactivations r hr
  obtain ⟨k, hk⟩ := List.getElem?_of_mem hd
  obtain ⟨x, hx, _, hrest⟩ := h.closing k d hk campaign activations hstop
  obtain ⟨i, hi⟩ := List.getElem?_of_mem hr
  rw [hx, Option.any_some, decide_eq_true_iff] at hactivations
  rw [← Bool.not_eq_true]
  intro hrun
  exact nomatch hrest hactivations.symm [] hphase i r hi hrun

end CycleInv

/-! ## What a step does to the rows -/

/-- The rows of a step: nothing, one row closed, the row of a dispatch that throws, or a row with a
    free number. -/
inductive RowWrite (s : CycleState) : CycleAction → List Cycle → Prop
  | same {a : CycleAction} : RowWrite s a s.cycles
  | close {a : CycleAction} (place : Nat) {status : CycleStatus} (h : status ≠ .running) :
      RowWrite s a (s.close place status).cycles
  | fail {k place : Nat} {c : DispatchCall} (hc : s.dispatches[k]? = some c)
      (hphase : c.phase = .starting place) : RowWrite s (.dispatchThrows k) (s.fail place).cycles
  | insert {a : CycleAction} {row : Cycle} (h : row.key ∉ s.cycles.map Cycle.key) :
      RowWrite s a (s.insert row).cycles

/-- Timely or not, a step does one of these to the rows. -/
theorem rowWrite_of_step (hstep : s.step a = some s') :
    RowWrite s a s'.cycles := by
  cases a with
  | create =>
    cases hstep
    exact .same
  | setStatus campaign status =>
    unfold CycleState.step at hstep
    dsimp only at hstep
    repeat' split at hstep
    all_goals cases hstep
    all_goals exact .same
  | dispatch campaign now =>
    unfold CycleState.step at hstep
    dsimp only at hstep
    split at hstep <;> cases hstep
    exact .same
  | dispatchNext k =>
    unfold CycleState.step CycleState.dispatchStep at hstep
    dsimp only at hstep
    split at hstep
    · split at hstep
      case h_2 place _ =>
        cases hstep
        exact .close place nofun
      case h_4 n _ =>
        split at hstep
        · cases hstep
          exact .same
        · rename_i hnot
          cases hstep
          exact RowWrite.insert hnot
      all_goals cases hstep
      all_goals exact .same
    · cases hstep
  | dispatchThrows k =>
    unfold CycleState.step CycleState.dispatchFail at hstep
    dsimp only at hstep
    split at hstep
    · rename_i c hc
      split at hstep
      · rename_i place hphase
        cases hstep
        exact .fail hc hphase
      · cases hstep
    · cases hstep
  | complete place =>
    cases hstep
    exact .close place nofun
  | tick now =>
    cases hstep
    exact .same
  | closeNext k =>
    unfold CycleState.step CycleState.closeStep at hstep
    dsimp only at hstep
    split at hstep
    · rename_i d hd
      split at hstep
      · cases hstep
        exact .same
      · rename_i place rest hphase
        cases hstep
        exact .close place (Closer.status_ne _)
      all_goals cases hstep
    · cases hstep

/-- No step takes a number twice. -/
theorem Numbered.step (h : Numbered s) (hstep : s.step a = some s') :
    Numbered s' := by
  have hwrite := rowWrite_of_step hstep
  unfold Numbered at *
  generalize s'.cycles = l at hwrite ⊢
  cases hwrite with
  | same => exact h
  | close place hstatus => rwa [(Closes.close place hstatus).keys]
  | fail hc hphase => rwa [(Closes.fail _).keys]
  | insert hfree =>
    simp only [CycleState.insert, List.map_append, List.map_cons, List.map_nil]
    exact List.concat_eq_append ▸ List.Nodup.concat hfree h

/-- A step closes what runs and leaves the rest. -/
theorem kept_of_step (htimely : s.timely a = true)
    (hstep : s.step a = some s') : Grows Cycle.Kept s.cycles s'.cycles := by
  have hwrite := rowWrite_of_step hstep
  generalize s'.cycles = l at hwrite ⊢
  cases hwrite with
  | same => exact .refl (fun _ => .rfl) _
  | close place hstatus =>
    refine .modify (fun _ => .rfl) fun r _ => ⟨Cycle.close_key _ r, fun hr => ?_⟩
    rw [Cycle.close, if_neg hr]
  | @fail k place c hc hphase =>
    refine .modify (fun _ => .rfl) fun r hr => ⟨.refl _, fun hnot => ?_⟩
    simp only [CycleState.timely, hc, hphase, hr, Option.all_some, decide_eq_true_eq] at htimely
    exact absurd htimely hnot
  | insert hfree => exact .append (fun _ => .rfl) _ _

/-! ## Runs -/

/-- A system whose steps are by right: none is one of the three races. -/
def timelySystem : Transition CycleState CycleAction :=
  cycleSystem.restrict fun s a _ => s.timely a = true

theorem CycleInv.reachable (hs : timelySystem.Reachable s) : CycleInv s := by
  refine hs.invariant (P := CycleInv) (fun t ht => ?_) fun t a t' _ h hstep => ?_
  · exact ht ▸ CycleInv.init
  · exact h.step hstep.2 hstep.1

/-- Along a timely run no row is opened again. -/
theorem kept_along {t : CycleState} {as : List CycleAction} (hpath : timelySystem.Path s as t) :
    Grows Cycle.Kept s.cycles t.cycles := by
  induction hpath with
  | nil => exact .refl (fun _ => .rfl) _
  | snoc _ hstep ih => exact ih.trans (fun _ _ _ => .trans) (kept_of_step hstep.2 hstep.1)

/-- Along every run no number is taken twice. Along those that have none of the three races, no
    campaign has two running cycles, a stop leaves no running cycle until the campaign is activated
    again, and a cycle that is not running keeps its status. -/
theorem cycles_kept (s : CycleState) :
    (cycleSystem.Reachable s → Numbered s) ∧
    (timelySystem.Reachable s → OneRunning s ∧ Stopped s ∧
      ∀ as t, timelySystem.Path s as t → Grows Cycle.Kept s.cycles t.cycles) := by
  refine ⟨fun hs => ?_, fun hs => ?_⟩
  · refine hs.invariant (P := Numbered) (fun t ht => ?_) fun t _ t' _ h hstep => h.step hstep
    exact ht ▸ List.nodup_nil
  · have h := CycleInv.reachable hs
    exact ⟨h.one, h.stopped, fun as t hpath => kept_along hpath⟩

/-- A campaign that is active, and `k` dispatches of it. -/
def activated (k : Nat) : List CycleAction :=
  [.create, .setStatus 0 .active] ++ List.replicate k (.dispatch 0 0)

/-- A dispatch that starts the first cycle, one that starts the next when that is over its lease,
    and a stop. -/
theorem cycles_kept_small :
    ∃ s, s.cycles.map (·.status) = [.timed_out, .cancelled] ∧ Numbered s ∧ OneRunning s ∧
      Stopped s := by
  obtain ⟨s, hs, hend⟩ := Transition.exists_reachable_checked (M := cycleSystem)
    (C := CycleState.timely) (fun _ _ _ h => h) rfl
    (activated 1 ++ [.dispatchNext 0, .dispatchNext 0, .dispatchNext 0, .dispatchNext 0,
      .dispatch 0 cycleLeaseMs, .dispatchNext 1, .dispatchNext 1, .dispatchNext 1, .dispatchNext 1,
      .dispatchNext 1, .setStatus 0 .paused, .closeNext 0, .closeNext 0])
    (fun s => s.cycles.map (·.status) = [.timed_out, .cancelled]) (by decide +kernel)
  obtain ⟨hnumbered, hrest⟩ := cycles_kept s
  obtain ⟨hone, hstopped, -⟩ := hrest hs
  exact ⟨s, by simpa using hend, hnumbered hs.of_restrict, hone, hstopped⟩

/-- The second dispatch looks before the first one inserts, and reads the last number after. -/
theorem second_cycle_runs : ¬ ∀ s, cycleSystem.Reachable s → OneRunning s := by
  intro hall
  obtain ⟨s, hs, hend⟩ := Transition.exists_reachable_checked (M := cycleSystem)
    (C := fun _ _ => true) (fun _ _ _ h => h) rfl
    (activated 2 ++ [.dispatchNext 1, .dispatchNext 0, .dispatchNext 0, .dispatchNext 0,
      .dispatchNext 1, .dispatchNext 1])
    (fun s => (s.cycles[0]?).any (·.isRunningOf 0) && (s.cycles[1]?).any (·.isRunningOf 0))
    (by decide +kernel)
  simp only [Bool.and_eq_true, Option.any_eq_true] at hend
  obtain ⟨⟨r, hr, hrun⟩, ⟨r', hr', hrun'⟩⟩ := hend
  exact absurd (hall s hs.of_restrict 0 0 1 r r' hr hr' hrun hrun') Nat.zero_ne_one

end WorkflowBoard.Cycles
