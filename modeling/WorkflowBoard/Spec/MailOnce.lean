import WorkflowBoard.Spec.MailGates

/-!
# A marketing mail is not sent twice while its claim is kept

A row that waits may be claimed, so it must be clear: each of its calls was to be retried, and it
was not closed as interrupted. A pass keeps this for the row that it has claimed, as no other pass
can claim it. Two things break it. `finish` writes without looking, so it opens a row again that
`closeStuck` has closed; and a crash on sql.js takes a claim or an outcome back.
-/

namespace WorkflowBoard.Email

open Budget (SqlStore)

/-- The call returned, and it was to be retried. -/
def ProviderCall.isRetried (c : ProviderCall) : Bool := c.outcome.any (·.isRetry)

/-- The store has a row of the key that does not wait. -/
def EmailStore.isTaken (t : EmailStore) (key : String × String) : Bool :=
  t.sends.any fun r => r.key = key && !r.status.isWaiting

/-- The row that a pass has claimed and not finished. -/
def PassPhase.held : PassPhase → Option Nat
  | .loading i _ _ => some i
  | .sending job _ => some job.place
  | _ => none

namespace EmailState

/-- A call of a row is the last one unless it was to be retried, and none starts once the row was
    closed as interrupted. -/
def SentOnce (s : EmailState) : Prop :=
  (s.calls.Pairwise fun c c' => c.row.key = c'.row.key → c.isRetried = true) ∧
    ∀ c ∈ s.calls, c.afterClose = false

instance (s : EmailState) : Decidable (SentOnce s) := inferInstanceAs (Decidable (_ ∧ _))

/-- The row at the place is still being sent. -/
def stillSending (s : EmailState) (place : Nat) : Bool :=
  (s.store.sends[place]?).any (·.status = .sending)

/-- A pass that starts a request, or defers a row, finds the row as it has claimed it. A crash
    takes back neither the claim of a row whose call was not to be retried nor the closing of a
    row. -/
def keepsClaim (s : EmailState) : EmailAction → Bool
  | .next k =>
    (s.passes[k]?).all fun p =>
      match p.phase with
      | .sending job (.composing sender) =>
        !isKnownProvider sender.provider || s.stillSending job.place
      | .sending job (.finishing f) => !f.status.isWaiting || s.stillSending job.place
      | _ => true
  | .crash =>
    (s.calls.all fun c => c.isRetried || s.flushed.isTaken c.row.key) &&
      s.closed.all fun key => s.flushed.isTaken key
  | _ => true

/-! ## The invariant -/

/-- Each call of the row was to be retried, and the row was not closed. -/
def Clear (s : EmailState) (key : String × String) : Prop :=
  (∀ c ∈ s.calls, c.row.key = key → c.isRetried = true) ∧ key ∉ s.closed

/-- A row that is not clear is in the store, and it does not wait. -/
def Settled (s : EmailState) (t : EmailStore) : Prop :=
  ∀ key, Clear s key ∨ ∃ r ∈ t.sends, r.key = key ∧ r.status.isWaiting = false

/-- What a pass knows of the row that it has claimed, as long as the row is being sent. While the
    request is underway, it is the last one of the row. -/
def StageOk (s : EmailState) (r : EmailSend) : SendStage → Prop
  | .calling _ n => ∃ c, s.calls[n]? = some c ∧ c.row.key = r.key ∧ c.outcome = none ∧
      (∀ m c', s.calls[m]? = some c' → c'.row.key = r.key → m ≠ n → c'.isRetried = true) ∧
      (r.status = .sending → r.key ∉ s.closed)
  | .finishing f => f.status.isWaiting = true → r.status = .sending → Clear s r.key
  | _ => r.status = .sending → Clear s r.key

/-- What a pass knows at its phase. -/
def PassOk (s : EmailState) (r : EmailSend) : PassPhase → Prop
  | .loading .. => r.status = .sending → Clear s r.key
  | .sending job stage => job.row.key = r.key ∧ StageOk s r stage
  | _ => True

structure MailInv (s : EmailState) : Prop where
  unique : (s.store.sends.map (·.key)).Nodup
  uniqueFlushed : (s.flushed.sends.map (·.key)).Nodup
  settled : Settled s s.store
  held : ∀ (k : Nat) (p : Pass) (i : Nat), s.passes[k]? = some p → p.phase.held = some i →
    ∃ r, s.store.sends[i]? = some r ∧ r.status.isWaiting = false ∧ PassOk s r p.phase
  apart : ∀ (j k : Nat) (p q : Pass) (i : Nat), s.passes[j]? = some p → s.passes[k]? = some q →
    p.phase.held = some i → q.phase.held = some i → j = k
  once : SentOnce s

section Steps

variable {w : EmailWorld} {s s' : EmailState} {k i : Nat} {p q : Pass} {r : EmailSend}
  {key : String × String}

theorem place_unique {sends : List EmailSend} {j : Nat} {r' : EmailSend}
    (h : (sends.map (·.key)).Nodup) (hi : sends[i]? = some r) (hj : sends[j]? = some r')
    (hkey : r.key = r'.key) : i = j := by
  have hlt : i < (sends.map (·.key)).length := by
    rw [List.length_map]
    exact lt_of_getElem? hi
  refine (List.getElem?_inj hlt h).mp ?_
  rw [List.getElem?_map, List.getElem?_map, hi, hj, Option.map_some, Option.map_some, hkey]

/-- The calls of a row stay as they are. -/
def CallsSame (s s' : EmailState) (key : String × String) : Prop :=
  ∀ (n : Nat) (c : ProviderCall), c.row.key = key → (s'.calls[n]? = some c ↔ s.calls[n]? = some c)

theorem CallsSame.of_eq (h : s'.calls = s.calls) : CallsSame s s' key := by
  intro n c _
  rw [h]

theorem Clear.frame (h : Clear s key) (hcalls : CallsSame s s' key) (hclosed : key ∉ s'.closed) :
    Clear s' key := by
  refine ⟨fun c hc hkey => ?_, hclosed⟩
  obtain ⟨n, hn⟩ := List.mem_iff_getElem?.mp hc
  exact h.1 c (List.mem_of_getElem? ((hcalls n c hkey).mp hn)) hkey

/-- What a pass knows of its row survives a step that leaves the row and its calls alone, or that
    ends its being sent. -/
theorem PassOk.frame {phase : PassPhase} {r' : EmailSend} (h : PassOk s r phase)
    (hkey : r'.key = r.key) (hsending : r'.status = .sending → r.status = .sending)
    (hclosed : r'.status = .sending → r.key ∈ s'.closed → r.key ∈ s.closed)
    (hcalls : CallsSame s s' r.key) : PassOk s' r' phase := by
  have hclear : (r.status = .sending → Clear s r.key) → r'.status = .sending → Clear s' r'.key := by
    intro hold hr'
    have hc := hold (hsending hr')
    rw [hkey]
    exact hc.frame hcalls fun hmem => hc.2 (hclosed hr' hmem)
  cases phase with
  | loading place due claimed => exact hclear h
  | sending job stage =>
    refine ⟨h.1.trans hkey.symm, ?_⟩
    have hstage := h.2
    cases stage with
    | calling sender n =>
      obtain ⟨c, hn, hc, hnone, hlast, hopen⟩ := hstage
      refine ⟨c, (hcalls n c hc).mpr hn, hc.trans hkey.symm, hnone, fun m c' hm hc' hne => ?_,
        fun hr' hmem => ?_⟩
      · rw [hkey] at hc'
        exact hlast m c' ((hcalls m c' hc').mp hm) hc' hne
      · rw [hkey] at hmem
        exact hopen (hsending hr') (hclosed hr' hmem)
    | finishing f => exact fun hf => hclear (hstage hf)
    | _ => exact hclear hstage
  | _ => trivial

/-- A step that leaves the passes and the calls alone. -/
theorem MailInv.sends (h : MailInv s) (hpasses : s'.passes = s.passes)
    (hcalls : s'.calls = s.calls) (hflushed : s'.flushed = s.flushed)
    (hunique : (s'.store.sends.map (·.key)).Nodup) (hsettled : Settled s' s'.store)
    (hrows : ∀ (k : Nat) (p : Pass) (i : Nat) (r : EmailSend), s.passes[k]? = some p →
      p.phase.held = some i → s.store.sends[i]? = some r → r.status.isWaiting = false →
      ∃ r', s'.store.sends[i]? = some r' ∧ r'.key = r.key ∧ r'.status.isWaiting = false ∧
        (r'.status = .sending → r.status = .sending ∧ (r.key ∈ s'.closed → r.key ∈ s.closed))) :
    MailInv s' where
  unique := hunique
  uniqueFlushed := by
    rw [hflushed]
    exact h.uniqueFlushed
  settled := hsettled
  held k p i hk hi := by
    rw [hpasses] at hk
    obtain ⟨r, hr, hwait, hok⟩ := h.held k p i hk hi
    obtain ⟨r', hr', hkey, hwait', hsame⟩ := hrows k p i r hk hi hr hwait
    exact ⟨r', hr', hwait', hok.frame hkey (fun hs => (hsame hs).1) (fun hs => (hsame hs).2)
      (.of_eq hcalls)⟩
  apart := by
    rw [hpasses]
    exact h.apart
  once := by
    obtain ⟨hagain, hopen⟩ := h.once
    exact ⟨by rwa [hcalls], by rwa [hcalls]⟩

theorem MailInv.setPass (h : MailInv s) (hk : s.passes[k]? = some p)
    (hfresh : ∀ i, q.phase.held = some i → p.phase.held = some i ∨
      ∀ (j : Nat) (p' : Pass), s.passes[j]? = some p' → p'.phase.held ≠ some i)
    (hok : ∀ i, q.phase.held = some i →
      ∃ r, s.store.sends[i]? = some r ∧ r.status.isWaiting = false ∧ PassOk s r q.phase) :
    MailInv (s.setPass k q) where
  unique := h.unique
  uniqueFlushed := h.uniqueFlushed
  settled := h.settled
  held j p' i hj hi := by
    rcases getElem?_set_cases hj with ⟨rfl, rfl⟩ | ⟨_, hj⟩
    · exact hok i hi
    · exact h.held j p' i hj hi
  apart := KeysApart.set h.apart hk hfresh
  once := h.once

/-! ### Rows -/

/-- A row is changed: it keeps its key, and it waits only if it is clear. -/
theorem Settled.modify {f : EmailSend → EmailSend} (h : Settled s s.store)
    (hf : ∀ r, s.store.sends[i]? = some r →
      (f r).key = r.key ∧ ((f r).status.isWaiting = true → Clear s r.key)) :
    Settled s (s.modifySend i f).store := by
  intro key
  rcases h key with hclear | ⟨r, hr, hkey, hwait⟩
  · exact .inl hclear
  · obtain ⟨n, hn⟩ := List.mem_iff_getElem?.mp hr
    by_cases hni : i = n
    · subst hni
      obtain ⟨hfkey, hfwait⟩ := hf r hn
      cases hstatus : (f r).status.isWaiting with
      | true => exact .inl (hkey ▸ hfwait hstatus)
      | false =>
        exact .inr ⟨f r, List.mem_of_getElem? (getElem?_modify_self hn), hfkey.trans hkey, hstatus⟩
    · exact .inr ⟨r, List.mem_of_getElem? ((getElem?_modify_other hni).trans hn), hkey, hwait⟩

theorem MailInv.modifySend {f : EmailSend → EmailSend} (h : MailInv s)
    (hfree : ∀ (k : Nat) (p : Pass), s.passes[k]? = some p → p.phase.held ≠ some i)
    (hkey : ∀ r, (f r).key = r.key)
    (hwait : ∀ r, s.store.sends[i]? = some r → (f r).status.isWaiting = true → Clear s r.key) :
    MailInv (s.modifySend i f) := by
  refine h.sends rfl rfl rfl ?_ (h.settled.modify fun r hr => ⟨hkey r, hwait r hr⟩)
    fun k p j r hk hj hr hw => ?_
  · show ((s.store.sends.modify i f).map (·.key)).Nodup
    rw [map_modify_of_eq hkey]
    exact h.unique
  · have hij : i ≠ j := fun hij => hfree k p hk (hij ▸ hj)
    exact ⟨r, (getElem?_modify_other hij).trans hr, rfl, hw, fun hs => ⟨hs, id⟩⟩

theorem MailInv.closeSend (h : MailInv s) (i : Nat) : MailInv (s.closeSend w i) := by
  unfold EmailState.closeSend
  split
  · rename_i r hr
    split
    · rename_i hsending
      refine h.sends rfl rfl rfl ?_ ?_ fun k p j r' hk hj hr' hw => ?_
      · show ((s.store.sends.modify i (·.interrupted (s.stamp w))).map (·.key)).Nodup
        rw [map_modify_of_eq (g := EmailSend.interrupted (s.stamp w)) fun _ => rfl]
        exact h.unique
      · intro key
        by_cases hkey : r.key = key
        · exact .inr ⟨_, List.mem_of_getElem? (getElem?_modify_self hr), hkey, rfl⟩
        · refine (h.settled.modify (i := i) (f := (·.interrupted (s.stamp w)))
            (fun _ _ => ⟨rfl, fun h => by cases (show (false = true) from h)⟩) key).imp_left ?_
          rintro ⟨hcalls, hclosed⟩
          refine ⟨hcalls, fun hmem => ?_⟩
          rcases List.mem_cons.mp hmem with rfl | hmem
          · exact hkey rfl
          · exact hclosed hmem
      · by_cases hij : i = j
        · subst hij
          exact ⟨_, getElem?_modify_self hr', rfl, rfl, nofun⟩
        · refine ⟨r', (getElem?_modify_other hij).trans hr', rfl, hw, fun hs =>
            ⟨hs, fun hmem => ?_⟩⟩
          rcases List.mem_cons.mp hmem with hkey | hmem
          · exact absurd (place_unique h.unique hr hr' hkey.symm) hij
          · exact hmem
    · exact h
  · exact h

@[simp] theorem passes_closeSend : (s.closeSend w i).passes = s.passes := by
  unfold EmailState.closeSend
  split
  · split <;> rfl
  · rfl

theorem MailInv.claim {due : List Nat} {updated : Date} {claimed : Nat} (h : MailInv s)
    (hk : s.passes[k]? = some p)
    (hr : s.store.sends[i]? = some r) (hwait : r.status.isWaiting = true) :
    MailInv ((s.modifySend i (·.claimed updated)).setPass k
      { p with phase := .loading i due claimed }) := by
  have hfree : ∀ (k : Nat) (p : Pass), s.passes[k]? = some p → p.phase.held ≠ some i := by
    intro k p hk hi
    obtain ⟨r', hr', hw, -⟩ := h.held k p i hk hi
    rw [hr] at hr'
    cases hr'
    rw [hwait] at hw
    cases hw
  have hclear : Clear s r.key := by
    rcases h.settled r.key with hclear | ⟨r', hr', hkey, hw⟩
    · exact hclear
    · obtain ⟨j, hj⟩ := List.mem_iff_getElem?.mp hr'
      obtain rfl := place_unique h.unique hr hj hkey.symm
      rw [hr] at hj
      cases hj
      rw [hwait] at hw
      cases hw
  refine (h.modifySend (f := EmailSend.claimed updated) hfree (fun _ => rfl) fun _ _ h => by
    cases (show (false = true) from h)).setPass hk ?_ ?_
  · intro j hj
    obtain rfl : i = j := Option.some.inj hj
    exact .inr hfree
  · intro j hj
    obtain rfl : i = j := Option.some.inj hj
    exact ⟨_, getElem?_modify_self hr, rfl, fun _ => hclear⟩

variable {job : SendJob}

/-- The row of a pass that sends a mail. -/
theorem MailInv.rowOf {stage : SendStage} (h : MailInv s) (hk : s.passes[k]? = some p)
    (hphase : p.phase = .sending job stage) : p.phase.held = some job.place ∧
      ∃ r, s.store.sends[job.place]? = some r ∧ r.status.isWaiting = false ∧
        job.row.key = r.key ∧ StageOk s r stage := by
  have hheld : p.phase.held = some job.place := by rw [hphase]; rfl
  obtain ⟨r, hr, hw, hok⟩ := h.held k p job.place hk hheld
  rw [hphase] at hok
  exact ⟨hheld, r, hr, hw, hok⟩

theorem MailInv.setStage {stage stage' : SendStage} {cache : PassCache} (h : MailInv s)
    (hk : s.passes[k]? = some p) (hphase : p.phase = .sending job stage)
    (hstage : ∀ r, StageOk s r stage → StageOk s r stage') :
    MailInv (s.setPass k { p with cache, phase := .sending job stage' }) := by
  obtain ⟨hheld, r, hr, hw, hkey, hok⟩ := h.rowOf hk hphase
  refine h.setPass hk (fun i hi => .inl (hheld.trans hi)) fun i hi => ?_
  obtain rfl : job.place = i := Option.some.inj hi
  exact ⟨r, hr, hw, hkey, hstage r hok⟩

/-- A pass is done with its row. It lets it wait only if the row is still being sent. -/
theorem MailInv.finish {f : SendWrite} {due : List Nat} {updated : Date} (h : MailInv s)
    (hk : s.passes[k]? = some p) (hphase : p.phase = .sending job (.finishing f))
    (hstill : (!f.status.isWaiting || s.stillSending job.place) = true) :
    MailInv ((s.modifySend job.place (f.apply updated)).setPass k
      { p with phase := .claiming due }) := by
  obtain ⟨hheld, r, hr, -, -, hok⟩ := h.rowOf hk hphase
  have hdone : MailInv (s.setPass k { p with phase := .claiming due }) :=
    h.setPass hk (fun i hi => by cases hi) fun i hi => by cases hi
  refine hdone.modifySend (fun j q hj hq => ?_) (fun _ => rfl) fun r' hr' hwait => ?_
  · rcases getElem?_set_cases hj with ⟨-, rfl⟩ | ⟨hne, hj⟩
    · cases hq
    · exact hne (h.apart k j p q job.place hk hj hheld hq)
  · have hr' : s.store.sends[job.place]? = some r' := hr'
    rw [hr] at hr'
    cases hr'
    have hwait : f.status.isWaiting = true := hwait
    have hsending : r.status = .sending := by simpa [hwait, stillSending, hr] using hstill
    exact hok hwait hsending

/-! ### Calls -/

/-- The calls of the row of a pass change, and the pass goes on. -/
theorem MailInv.setCalls {calls : List ProviderCall} (h : MailInv s)
    (hk : s.passes[k]? = some p) (hheld : p.phase.held = some job.place)
    (hr : s.store.sends[job.place]? = some r) (hw : r.status.isWaiting = false)
    (hq : q.phase.held = some job.place)
    (hsame : ∀ key, r.key ≠ key → CallsSame s { s with calls, passes := s.passes.set k q } key)
    (hok : PassOk { s with calls, passes := s.passes.set k q } r q.phase)
    (honce : SentOnce { s with calls, passes := s.passes.set k q }) :
    MailInv { s with calls, passes := s.passes.set k q } where
  unique := h.unique
  uniqueFlushed := h.uniqueFlushed
  settled key := by
    by_cases hne : r.key = key
    · exact .inr ⟨r, List.mem_of_getElem? hr, hne, hw⟩
    · exact (h.settled key).imp_left fun hc => hc.frame (hsame key hne) hc.2
  held j p' i hj hi := by
    rcases getElem?_set_cases hj with ⟨-, rfl⟩ | ⟨hne, hold⟩
    · obtain rfl : job.place = i := Option.some.inj (hq.symm.trans hi)
      exact ⟨r, hr, hw, hok⟩
    · obtain ⟨r', hr', hw', hok'⟩ := h.held j p' i hold hi
      refine ⟨r', hr', hw', hok'.frame rfl id (fun _ => id) (hsame _ fun hsamekey => ?_)⟩
      obtain rfl := place_unique h.unique hr hr' hsamekey
      exact hne (h.apart k j p p' _ hk hold hheld hi)
  apart := KeysApart.set h.apart hk fun i hi => .inl (hheld.trans (hq.symm.trans hi))
  once := honce

/-- A request that begins keeps the invariant. -/
theorem MailInv.startCall {sender : ChannelSender} (h : MailInv s)
    (hk : s.passes[k]? = some p) (hphase : p.phase = .sending job (.composing sender))
    (hstill : (!isKnownProvider sender.provider || s.stillSending job.place) = true) :
    MailInv (s.startCall k p job sender) := by
  unfold EmailState.startCall
  split
  · rename_i hknown
    obtain ⟨hheld, r, hr, hw, hkey, hstage⟩ := h.rowOf hk hphase
    have hsending : r.status = .sending := by simpa [hknown, stillSending, hr] using hstill
    obtain ⟨hretried, hopen⟩ : Clear s r.key := hstage hsending
    have hunclosed : job.row.key ∉ s.closed := by rwa [hkey]
    apply h.setCalls hk hheld hr hw rfl
    · -- The other rows do not see the new call.
      intro key hne n c' hc'
      refine ⟨fun hn => ?_, fun hn => getElem?_append_of_some hn _⟩
      rcases getElem?_append_cases hn with hn | ⟨-, rfl⟩
      · exact hn
      · exact absurd (hkey.symm.trans hc') hne
    · refine ⟨hkey, _, List.getElem?_concat_length, hkey, rfl, fun m c' hm hc' hmn => ?_,
        fun _ => hopen⟩
      rcases getElem?_append_cases hm with hm | ⟨hlast, -⟩
      · exact hretried c' (List.mem_of_getElem? hm) hc'
      · exact absurd hlast hmn
    · refine ⟨List.pairwise_append.mpr
        ⟨h.once.1, List.pairwise_singleton _ _, fun c hc c' hc' => ?_⟩, fun c hc => ?_⟩
      · obtain rfl := List.mem_singleton.mp hc'
        exact fun hcc => hretried c hc (hcc.trans hkey)
      · rcases List.mem_append.mp hc with hc | hc
        · exact h.once.2 c hc
        · obtain rfl := List.mem_singleton.mp hc
          refine List.any_eq_false.mpr fun key hin heq => ?_
          exact hunclosed (of_decide_eq_true heq ▸ hin)
  · exact h.setStage hk hphase fun _ _ => nofun

theorem waiting_outcomeWrite {now clock : Date} {row : EmailSend} {credentialId : String}
    {outcome : EmailOutcome}
    (h : (outcomeWrite now clock row credentialId outcome).status.isWaiting = true) :
    outcome.isRetry = true := by
  cases outcome with
  | sent id => cases h
  | retry error => rfl
  | failed error => cases h

/-- A request returns. It was the last one of its row, which waits again only for a retry. -/
theorem MailInv.answered {a : ProviderAnswer} (h : MailInv s) (hk : s.passes[k]? = some p)
    (hs : s.answered k p a = some s') : MailInv s' := by
  unfold EmailState.answered at hs
  split at hs
  · rename_i job sender n hphase
    cases hs
    obtain ⟨hheld, r, hr, hw, hkey, c, hn, hc, hnone, hlast, hopen⟩ := h.rowOf hk hphase
    apply h.setCalls hk hheld hr hw rfl
    · intro key hne m c' hc'
      by_cases hnm : n = m
      · subst hnm
        show (s.calls.modify n _)[n]? = _ ↔ _
        rw [getElem?_modify_self hn, hn]
        constructor
        · intro hfc
          rw [← Option.some.inj hfc] at hc'
          exact absurd (hc.symm.trans hc') hne
        · intro hcc
          rw [← Option.some.inj hcc, hc] at hc'
          exact absurd hc' hne
      · show (s.calls.modify n _)[m]? = _ ↔ _
        rw [getElem?_modify_other hnm]
    · refine ⟨hkey, fun hwait hsending => ⟨fun c' hc' hkey' => ?_, hopen hsending⟩⟩
      obtain ⟨m, hm⟩ := List.mem_iff_getElem?.mp hc'
      rcases getElem?_modify_cases hm with ⟨-, c₀, -, rfl⟩ | ⟨hnm, hm⟩
      · exact waiting_outcomeWrite hwait
      · exact hlast m c' hm hkey' (Ne.symm hnm)
    · have hagain := pairwise_iff_getElem?.mp h.once.1
      refine ⟨pairwise_iff_getElem?.mpr fun i j c₁ c₂ hij hi hj hkeys => ?_, fun c' hc' => ?_⟩
      · rcases getElem?_modify_cases hi with ⟨rfl, c₀, hc₀, rfl⟩ | ⟨hni, hi⟩
        · -- A later call of the row would have found this one returned.
          rw [hn] at hc₀
          cases hc₀
          rcases getElem?_modify_cases hj with ⟨rfl, -⟩ | ⟨-, hj⟩
          · omega
          · have hret := hagain n j c c₂ hij hn hj hkeys
            rw [ProviderCall.isRetried, hnone] at hret
            cases hret
        · rcases getElem?_modify_cases hj with ⟨rfl, c₀, hc₀, rfl⟩ | ⟨-, hj⟩
          · exact hagain i n c₁ c₀ hij hi hc₀ hkeys
          · exact hagain i j c₁ c₂ hij hi hj hkeys
      · obtain ⟨m, hm⟩ := List.mem_iff_getElem?.mp hc'
        rcases getElem?_modify_cases hm with ⟨-, c₀, hc₀, rfl⟩ | ⟨-, hm⟩
        · exact h.once.2 c₀ (List.mem_of_getElem? hc₀)
        · exact h.once.2 c' (List.mem_of_getElem? hm)
  · cases hs

/-! ### Steps -/

theorem StageOk.of_clear {stage : SendStage} (h : r.status = .sending → Clear s r.key)
    (hcalling : ∀ sender n, stage ≠ .calling sender n) : StageOk s r stage := by
  cases stage with
  | calling sender n => exact absurd rfl (hcalling sender n)
  | finishing f => exact fun _ => h
  | _ => exact h

theorem MailInv.read {stage : SendStage} (h : MailInv s)
    (hk : s.passes[k]? = some p) (hphase : p.phase = .sending job stage)
    (hstage : ∀ {r : EmailSend}, StageOk s r stage → r.status = .sending → Clear s r.key)
    (hs : ((sendOneNext w.localHour p.now s.store.tables job.row p.cache stage).map
      fun (stage, cache) => s.setPass k { p with cache, phase := .sending job stage }) = some s') :
    MailInv s' := by
  obtain ⟨⟨stage', cache'⟩, hnext, rfl⟩ := Option.map_eq_some_iff.mp hs
  exact h.setStage hk hphase fun r hok => .of_clear (hstage hok) (sendOneNext_ne_calling hnext)

theorem MailInv.passNext (h : MailInv s) (hk : s.passes[k]? = some p)
    (hkeeps : s.keepsClaim (.next k) = true) (hs : s.passNext w k p = some s') : MailInv s' := by
  have hfree : ∀ q : Pass, q.phase.held = none → MailInv (s.setPass k q) := fun q hq =>
    h.setPass hk (fun i hi => by rw [hq] at hi; cases hi) fun i hi => by rw [hq] at hi; cases hi
  simp only [keepsClaim, hk, Option.all_some] at hkeeps
  unfold EmailState.passNext at hs
  cases hphase : p.phase with
  | finding =>
    rw [hphase] at hs
    cases hs
    exact hfree _ rfl
  | closing stuck =>
    rw [hphase] at hs
    cases stuck with
    | nil =>
      cases hs
      exact hfree _ rfl
    | cons i stuck =>
      cases hs
      have hk' : (s.closeSend w i).passes[k]? = some p := by rwa [passes_closeSend]
      exact (h.closeSend i).setPass hk' (fun i hi => by cases hi) fun i hi => by cases hi
  | listing =>
    rw [hphase] at hs
    cases hs
    exact hfree _ rfl
  | claiming due =>
    rw [hphase] at hs
    cases due with
    | nil =>
      cases hs
      exact hfree _ rfl
    | cons i due =>
      dsimp only at hs
      split at hs
      · rename_i hdue
        cases hs
        obtain ⟨r, hr, hr'⟩ := (Option.any_eq_true _ _).mp hdue
        exact h.claim hk hr (Bool.and_eq_true _ _ ▸ hr').1
      · cases hs
        exact hfree _ rfl
  | loading i due claimed =>
    rw [hphase] at hs
    dsimp only at hs
    split at hs
    · rename_i row hrow
      cases hs
      have hheld : p.phase.held = some i := by rw [hphase]; rfl
      obtain ⟨r, hr, hw, hok⟩ := h.held k p i hk hheld
      rw [hrow] at hr
      cases hr
      rw [hphase] at hok
      refine h.setPass hk (fun j hj => .inl (hheld.trans hj)) fun j hj => ?_
      obtain rfl : i = j := Option.some.inj hj
      exact ⟨row, hrow, hw, rfl, hok⟩
    · cases hs
      exact hfree _ rfl
  | sending job stage =>
    rw [hphase] at hs hkeeps
    cases stage with
    | composing sender =>
      cases hs
      exact h.startCall hk hphase hkeeps
    | finishing f =>
      cases hs
      exact h.finish hk hphase hkeeps
    | calling sender n => cases hs
    | contact => exact h.read hk hphase (fun hok => hok) hs
    | consent c => exact h.read hk hphase (fun hok => hok) hs
    | post => exact h.read hk hphase (fun hok => hok) hs
    | campaign => exact h.read hk hphase (fun hok => hok) hs
    | channel campaign => exact h.read hk hphase (fun hok => hok) hs
    | list campaign channel => exact h.read hk hphase (fun hok => hok) hs
    | sender channel => exact h.read hk hphase (fun hok => hok) hs
  | ended =>
    rw [hphase] at hs
    cases hs

/-- A crash takes the store back to one in which every row that is not clear is taken. -/
theorem MailInv.crash (h : MailInv s) (hkeeps : s.keepsClaim .crash = true)
    (hs : s'.store = s.flushed)
    (hflushed : s'.flushed = s.flushed) (hpasses : s'.passes = []) (hcalls : s'.calls = s.calls)
    (hclosed : s'.closed = s.closed) : MailInv s' := by
  obtain ⟨hkept, hkeptClosed⟩ := (Bool.and_eq_true _ _).mp hkeeps
  have htaken : ∀ key, s.flushed.isTaken key = true →
      ∃ r ∈ s.flushed.sends, r.key = key ∧ r.status.isWaiting = false := by
    intro key htaken
    obtain ⟨r, hr, hrow⟩ := List.any_eq_true.mp htaken
    exact ⟨r, hr, by simpa using hrow⟩
  constructor
  · rw [hs]
    exact h.uniqueFlushed
  · rw [hflushed]
    exact h.uniqueFlushed
  · rw [hs]
    intro key
    by_cases hclear : Clear s key
    · refine .inl (hclear.frame (.of_eq hcalls) ?_)
      rw [hclosed]
      exact hclear.2
    · refine .inr (htaken key ?_)
      by_cases hmem : key ∈ s.closed
      · exact List.all_eq_true.mp hkeptClosed key hmem
      · have : ¬∀ c ∈ s.calls, c.row.key = key → c.isRetried = true := fun hall =>
          hclear ⟨hall, hmem⟩
        push Not at this
        obtain ⟨c, hc, rfl, hret⟩ := this
        simpa [hret] using List.all_eq_true.mp hkept c hc
  · intro k p i hk
    rw [hpasses] at hk
    cases hk
  · intro j k p q i hj
    rw [hpasses] at hj
    cases hj
  · obtain ⟨hagain, hopen⟩ := h.once
    exact ⟨by rwa [hcalls], by rwa [hcalls]⟩

/-- A step that leaves the passes, the calls and what was closed alone, and keeps every row. -/
theorem MailInv.keep (h : MailInv s) (hpasses : s'.passes = s.passes) (hcalls : s'.calls = s.calls)
    (hclosed : s'.closed = s.closed) (hflushed : s'.flushed = s.flushed)
    (hunique : (s'.store.sends.map (·.key)).Nodup)
    (hrows : ∀ (i : Nat) (r : EmailSend), s.store.sends[i]? = some r → ∃ r',
      s'.store.sends[i]? = some r' ∧ r'.key = r.key ∧ r'.status = r.status) : MailInv s' := by
  refine h.sends hpasses hcalls hflushed hunique (fun key => ?_) fun k p i r _ _ hr hw => ?_
  · rcases h.settled key with hclear | ⟨r, hr, hkey, hw⟩
    · exact .inl (hclear.frame (.of_eq hcalls) (by rw [hclosed]; exact hclear.2))
    · obtain ⟨i, hi⟩ := List.mem_iff_getElem?.mp hr
      obtain ⟨r', hr', hkey', hstatus⟩ := hrows i r hi
      exact .inr ⟨r', List.mem_of_getElem? hr', hkey'.trans hkey, by rw [hstatus]; exact hw⟩
  · obtain ⟨r', hr', hkey, hstatus⟩ := hrows i r hr
    refine ⟨r', hr', hkey, by rw [hstatus]; exact hw, fun hs => ⟨hstatus ▸ hs, fun hmem => ?_⟩⟩
    rwa [hclosed] at hmem

theorem released_same {channels : List String} {now updated : Date} :
    (r.released channels now updated).key = r.key ∧
      (r.released channels now updated).status = r.status := by
  unfold EmailSend.released
  split <;> exact ⟨rfl, rfl⟩

theorem MailInv.begin (h : MailInv s) (hq : q.phase.held = none)
    (hpasses : s'.passes = s.passes ++ [q])
    (hs : s' = { s with passes := s'.passes }) : MailInv s' := by
  have hold : ∀ (k : Nat) (p : Pass) (i : Nat), s'.passes[k]? = some p → p.phase.held = some i →
      s.passes[k]? = some p := by
    intro k p i hk hi
    rw [hpasses] at hk
    rcases getElem?_append_cases hk with hk | ⟨-, rfl⟩
    · exact hk
    · rw [hq] at hi
      cases hi
  rw [hs]
  exact ⟨h.unique, h.uniqueFlushed, h.settled, fun k p i hk hi =>
    h.held k p i (hold k p i hk hi) hi,
    fun j k p p' i hj hk hi hi' =>
      h.apart j k p p' i (hold j p i hj hi) (hold k p' i hk hi') hi hi',
    h.once⟩

theorem MailInv.step {a : EmailAction} (h : MailInv s) (hs : a.run w s = some s')
    (hkeeps : s.keepsClaim a = true) : MailInv s' := by
  cases a with
  | tick elapsed =>
    cases hs
    exact h.keep rfl rfl rfl rfl h.unique fun i r hr => ⟨r, hr, rfl, rfl⟩
  | change tables =>
    cases hs
    exact h.keep rfl rfl rfl rfl h.unique fun i r hr => ⟨r, hr, rfl, rfl⟩
  | enqueue d =>
    simp only [EmailAction.run] at hs
    split at hs
    · cases hs
    · rename_i hfresh
      cases hs
      refine h.keep rfl rfl rfl rfl ?_ fun i r hr => ⟨r, getElem?_append_of_some hr _, rfl, rfl⟩
      simp only [List.map_append, List.map_cons, List.map_nil]
      refine List.nodup_append.mpr ⟨h.unique, List.nodup_singleton _, fun key hkey key' hkey' => ?_⟩
      obtain rfl := List.mem_singleton.mp hkey'
      rintro rfl
      obtain ⟨r, hr, hrkey⟩ := List.mem_map.mp hkey
      exact hfresh (List.any_eq_true.mpr ⟨r, hr, decide_eq_true hrkey⟩)
  | release channels =>
    cases hs
    refine h.keep rfl rfl rfl rfl ?_ fun i r hr =>
      ⟨r.released channels s.clock (s.stamp w), ?_, released_same.1, released_same.2⟩
    · have hkeys : EmailSend.key ∘ (·.released channels s.clock (s.stamp w)) = EmailSend.key :=
        funext fun r => released_same.1
      have hunique := h.unique
      rw [← hkeys, ← List.map_map] at hunique
      exact hunique
    · show (s.store.sends.map _)[i]? = _
      rw [List.getElem?_map, hr, Option.map_some]
  | begin =>
    simp only [EmailAction.run] at hs
    split at hs
    · cases hs
    · cases hs
      exact h.begin rfl rfl rfl
  | next k =>
    obtain ⟨p, hk, hs⟩ := Option.bind_eq_some_iff.mp hs
    exact h.passNext hk hkeeps hs
  | composeThrows k message =>
    obtain ⟨p, hk, hs⟩ := Option.bind_eq_some_iff.mp hs
    unfold EmailState.composeThrows at hs
    split at hs
    · rename_i job sender hphase
      cases hs
      exact h.setStage hk hphase fun _ _ => nofun
    · cases hs
  | answer k a =>
    obtain ⟨p, hk, hs⟩ := Option.bind_eq_some_iff.mp hs
    exact h.answered hk hs
  | stop k =>
    obtain ⟨p, hk, rfl⟩ := Option.map_eq_some_iff.mp hs
    exact h.setPass hk (fun i hi => by cases hi) fun i hi => by cases hi
  | flush =>
    simp only [EmailAction.run] at hs
    split at hs
    · cases hs
      exact ⟨h.unique, h.unique, h.settled, h.held, h.apart, h.once⟩
    · cases hs
  | crash =>
    simp only [EmailAction.run] at hs
    split at hs
    · cases hs
      exact h.crash hkeeps rfl rfl rfl rfl rfl
    · cases hs

/-- In every run whose passes still have their row when they call the provider or defer, and whose
    crashes take no claim back, no mail is sent twice. -/
theorem sent_once (h : ((emailSystem w).restrict fun s a _ => s.keepsClaim a = true).Reachable s) :
    SentOnce s := by
  have hinv : MailInv s := by
    refine h.invariant (P := MailInv) ?_ ?_
    · rintro s ⟨hsends, hflushed, hpasses, hcalls, hclosed⟩
      refine ⟨by simp [hsends], by simp [hflushed], fun key => .inl ⟨?_, ?_⟩, ?_, ?_, ?_, ?_⟩
      · simp [hcalls]
      · simp [hclosed]
      · simp [hpasses]
      · simp [hpasses]
      · simp [hcalls]
      · simp [hcalls]
    · rintro s a s' _ hi ⟨hs, hkeeps⟩
      exact hi.step hs hkeeps
  exact hinv.once

end Steps

/-! ## Runs with one mail -/

/-- A first request that is to be retried and a second one that is accepted. -/
theorem sent_once_small : ∃ s : EmailState,
    s.calls.map (·.outcome) = [some (.retry "email provider timed out"), some (.sent "m1")] ∧
      SentOnce s := by
  obtain ⟨s, hreach, hq⟩ := exists_checked_mail .postgres keepsClaim
    (mailTo "ann" :: toRequest 0 ++ [.answer 0 .timedOut, .next 0, .next 0, .tick 600000] ++
      toRequest 1 ++ [.answer 1 accepted, .next 1, .next 1])
    (fun s => s.calls.map (·.outcome) =
      [some (.retry "email provider timed out"), some (.sent "m1")]) (by decide +kernel)
  exact ⟨s, of_decide_eq_true hq, sent_once hreach⟩

/-- On Postgres a row is closed as interrupted while its request is underway. The request times
    out, the row is deferred and sent again. On sql.js a crash takes the claim of a mail back that
    the provider has accepted. -/
theorem sent_twice :
    (¬∀ s, (emailSystem (noonWorld .postgres)).Reachable s → SentOnce s) ∧
      ¬∀ s, (emailSystem (noonWorld .sqljs)).Reachable s → SentOnce s := by
  constructor
  · intro hall
    obtain ⟨s, hreach, hq⟩ := exists_checked_mail .postgres (fun _ _ => true)
      (mailTo "ann" :: toRequest 0 ++ [.tick 600001, .begin, .next 1, .next 1,
        .answer 0 .timedOut, .next 0, .next 0, .tick 600000] ++ toRequest 2)
      (fun s => ¬SentOnce s) (by decide +kernel)
    exact of_decide_eq_true hq (hall s hreach.of_restrict)
  · intro hall
    obtain ⟨s, hreach, hq⟩ := exists_checked_mail .sqljs (fun _ _ => true)
      (mailTo "ann" :: .flush :: toRequest 0 ++ [.answer 0 accepted, .next 0, .crash] ++
      toRequest 0)
      (fun s => ¬SentOnce s) (by decide +kernel)
    exact of_decide_eq_true hq (hall s hreach.of_restrict)

end EmailState

end WorkflowBoard.Email
