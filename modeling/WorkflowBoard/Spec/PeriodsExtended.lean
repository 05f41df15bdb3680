import WorkflowBoard.Spec.PeriodWrites

/-!
# Consent periods are extended by right only

`renewDue` reads its page of notices once and writes consent by consent. The update asks whether
the consent is the one it has read, and not whether the notice has bounced since; a run in which no
bounce is recorded in between extends periods by right.
-/

namespace WorkflowBoard.Consents

open Email (ContactStatus EmailOutcome consentMaxAgeMs)
open ConsentStore

/-! ## Steps -/

def noImport : ConsentAction → Bool
  | .request (.importEntry _) => false
  | _ => true

/-- A consent is renewed while no bounce of the notice is recorded. -/
def noLateBounce (s : ConsentState) : ConsentAction → Bool
  | .next k _ =>
    match s.calls[k]? with
    | some (.renewSaving _ place _ _ _) => ((s.store.notices[place]?).bind (·.bounce_type)).isNone
    | _ => true
  | _ => true

/-- A provider answers within the margin that the code leaves for it, and the transaction of a click
    is not stalled. -/
def timely (s : ConsentState) : ConsentAction → Bool
  | .next k _ =>
    match s.calls[k]? with
    | some (.keepSaving _ _ now) => s.clock - now ≤ keepStallMs
    | _ => true
  | .returned k (.sent _) =>
    match s.calls[k]? with
    | some (.queue _ (.sending job _)) => s.clock ≤ job.start + sendMarginMs
    | _ => true
  | _ => true

/-- The steps that break no rule, and are not stalled for longer than the margins allow. -/
def byRight (s : ConsentState) (a : ConsentAction) : Bool :=
  noImport a && noLateBounce s a && timely s a

variable {w : ConsentWorld} {s s' : ConsentState} {k : Nat} {token : String}

/-! ## Statements -/

theorem tableWrite_getD (h : PeriodInv s) {t : Option ConsentStore} {cause : MoveCause}
    (ht : ∀ t', t = some t' → TableWrite s t' cause) :
    TableWrite s (t.getD s.store) cause := by
  cases t with
  | none => exact .nothing h cause
  | some t' => exact ht t' rfl

theorem withdrawContact_write (h : PeriodInv s) (id : Nat) (allowed : ContactStatus → Bool)
    (status : ContactStatus) (source : String) :
    TableWrite s (s.store.withdrawContact id allowed status source s.clock) .other :=
  .of_consents h rfl rfl h.settings

theorem withdrawConsent_write (h : PeriodInv s) (id : Nat) (allowed : ContactStatus → Bool)
    (status : ContactStatus) (source : String) :
    TableWrite s (s.store.withdrawConsent id allowed status source s.clock) .other := by
  refine .of_consents h (map_modify_of_eq fun k => ?_) rfl h.settings
  split
  · rfl
  · rfl

theorem eraseContact_write (h : PeriodInv s) (id : Nat) (accountId : String) (row : ContactRow) :
    TableWrite s (s.store.eraseContact id accountId token row s.clock) .other := by
  refine .of_consents h ?_ rfl h.settings
  unfold ConsentStore.eraseContact
  rw [List.map_map]
  refine List.map_congr_left fun k _ => ?_
  rw [Function.comp_apply]
  split
  · rfl
  · rfl

/-- A notice that is put off or skipped is not sent. -/
theorem facts_defer (s : ConsentState) (job : NoticeJob) (t : Date) (error : String) :
    StageFacts s job (noticeDefer t error) := fun hst => nomatch hst

theorem facts_skip (s : ConsentState) (job : NoticeJob) (error : String) :
    StageFacts s job (noticeSkip error) := fun hst => nomatch hst

theorem contactGate_facts (s : ConsentState) (job : NoticeJob) :
    StageFacts s job (noticeContactGate s.store job.n) := by
  unfold noticeContactGate
  split
  · split
    · trivial
    · exact facts_skip s job _
  · exact facts_skip s job _

theorem consentGate_facts (s : ConsentState) (job : NoticeJob) (timezone : String) :
    StageFacts s job (noticeConsentGate s.store job.n job.start timezone) := by
  unfold noticeConsentGate
  split
  · split
    · exact facts_skip s job _
    · split
      · exact facts_skip s job _
      · next hbefore => exact Int.not_le.mp hbefore
  · exact facts_skip s job _

variable {job : NoticeJob} {c : ConsentCall}

theorem settingsGate_facts {localHour : Email.LocalHour} {timezone : String}
    {setting : Option NoticeSetting} (h : job.start < job.n.lastSend) :
    StageFacts s job (noticeSettingsGate localHour job.n job.start timezone setting) := by
  unfold noticeSettingsGate
  split
  · dsimp only
    split
    · exact facts_defer s job _ _
    · exact h
  · exact facts_defer s job _ _

theorem senderGate_facts {setting : NoticeSetting} {pick : SenderPick}
    (h : job.start < job.n.lastSend) :
    StageFacts s job (noticeSenderGate job.n job.start setting pick) := by
  cases pick with
  | picked => exact h
  | noChannel => exact facts_defer s job _ _
  | noAddress => exact facts_defer s job _ _

theorem finishing_write (h : PeriodInv s) {f : NoticeWrite}
    (hread : NoticeIs s job.place job.n) (hf : StageFacts s job (.finishing f)) :
    TableWrite s (s.store.modifyNotice job.place (f.apply s.clock)) .other := by
  refine .modifyNotice h (fun _ => ⟨rfl, rfl, id⟩) fun n p hn hst hp => ?_
  obtain ⟨n', hn', -, hdue, -⟩ := hread
  cases hn.symm.trans hn'
  obtain ⟨p', hused, hsent⟩ := hf hst
  have hpolicy : (f.apply s.clock n).policy = some p' := by
    unfold NoticeWrite.apply
    dsimp only
    rw [hused, Option.orElse_some]
  cases hp.symm.trans hpolicy
  rw [← hdue] at hsent
  exact hsent

theorem PeriodInv.queueNext (h : PeriodInv s) {p : QueuePass} {phase : NoticePhase}
    (hc : PhaseFacts s phase) (hrun : s.queueNext w k p phase = some s') : PeriodInv s' := by
  unfold ConsentState.queueNext at hrun
  cases phase with
  | finding =>
    cases hrun
    exact h.setCall trivial
  | closing stuck =>
    cases stuck with
    | nil =>
      cases hrun
      exact h.setCall trivial
    | cons i stuck =>
      cases hrun
      refine h.commit (.modifyNotice_of_before h (fun n => ?_) fun n hst => ?_) trivial
      · unfold Notice.interrupted
        split
        · exact ⟨rfl, rfl, id⟩
        · exact .refl n
      · unfold Notice.interrupted at *
        split at hst
        · cases hst
        · next hne =>
          rw [if_neg hne]
          exact ⟨hst, rfl⟩
  | listing =>
    cases hrun
    exact h.setCall trivial
  | claiming due =>
    cases due with
    | nil =>
      cases hrun
      exact h.setCall trivial
    | cons i due =>
      dsimp only at hrun
      split at hrun
      · cases hrun
        exact h.commit (.modifyNotice_of_before h (fun n => ⟨rfl, rfl, id⟩)
          fun n hst => nomatch hst)
          trivial
      · cases hrun
        exact h.setCall trivial
  | loading i claimed due =>
    cases hrun
    refine h.setCall ?_
    split
    · next n hn => exact ⟨⟨n, hn, .refl n⟩, trivial⟩
    · trivial
  | sending job stage =>
    obtain ⟨hread, hstage⟩ := hc
    cases stage with
    | contact =>
      cases hrun
      exact h.setCall ⟨hread, contactGate_facts s job⟩
    | consent timezone =>
      cases hrun
      exact h.setCall ⟨hread, consentGate_facts s job timezone⟩
    | settings timezone =>
      cases hrun
      exact h.setCall ⟨hread, settingsGate_facts hstage⟩
    | sender setting => cases hrun
    | calling setting => cases hrun
    | finishing f =>
      cases hrun
      exact h.commit (finishing_write h hread hstage) trivial
    | caught error =>
      cases hrun
      refine h.commit (.modifyNotice_of_before h (fun n => ?_) fun n hst => ?_) trivial
      · unfold Notice.putOff
        split
        · exact ⟨rfl, rfl, id⟩
        · exact .refl n
      · unfold Notice.putOff at *
        split at hst
        · cases hst
        · next hne =>
          rw [if_neg hne]
          exact ⟨hst, rfl⟩

/-! ## Calls -/

/-- The notices that the query of `renewDue` finds were sent under `keep`. -/
theorem renewPage_facts (h : PeriodInv s) (now : Date) :
    ∀ r ∈ s.store.renewPage now, RowFacts s r := by
  intro r hr
  obtain ⟨place, hplace, hr⟩ := List.mem_filterMap.mp hr
  obtain ⟨n, hn, rfl⟩ := Option.map_eq_some_iff.mp hr
  have hfound := (List.mem_insertionSort _).mp (List.mem_of_mem_take hplace)
  have hrenewable := (List.mem_filter.mp hfound).2
  rw [hn, Option.any_some] at hrenewable
  simp only [isRenewable, Bool.and_eq_true, decide_eq_true_eq] at hrenewable
  exact ⟨⟨n, hn, .refl n⟩,
    h.sent place n .keep hn hrenewable.1.1.1.1.1.1.1 hrenewable.1.1.1.1.1.1.2⟩

theorem consentToRenew_cycle {n : Notice} {row : ConsentRow} {t : ConsentStore}
    (h : t.consentToRenew n = some row) : sameConsentCycle row.deadline n.due_at = true :=
  (Option.filter_eq_some_iff.mp h).2

/-- A notice is planned for the deadline of its consent, at most the lead time ahead. -/
theorem dueNotices_facts {accountId : String} {contacts : List Nat} {leadDays : Nat} {now : Date}
    (hlead : leadDays ≤ maxLeadDays) (hnow : now ≤ s.clock) :
    ∀ d ∈ s.store.dueNotices accountId contacts leadDays now, DueOk s d.consentId d.dueAt := by
  intro d hd
  obtain ⟨i, -, hd⟩ := List.mem_filterMap.mp hd
  obtain ⟨k, hk, hd⟩ := Option.bind_eq_some_iff.mp hd
  split at hd
  · obtain ⟨due, hdue, rfl⟩ := Option.map_eq_some_iff.mp hd
    unfold consentNoticeDueAt at hdue
    dsimp only at hdue
    split at hdue
    · cases hdue
    · next hopen =>
      cases hdue
      refine ⟨?_, k, hk, .inl rfl⟩
      have hlate := Int.not_lt.mp fun hlt => hopen (.inr hlt)
      have hspan : (leadDays : Int) * dayMs ≤ maxLeadDays * dayMs :=
        Int.mul_le_mul_of_nonneg_right (Int.ofNat_le.mpr hlead) (by decide)
      unfold horizonMs
      dsimp only
      unfold Date at *
      omega
  · cases hd

/-- A statement of a call keeps the invariant. -/
theorem PeriodInv.callNext (h : PeriodInv s) (hck : s.calls[k]? = some c)
    (hright : byRight s (.next k token) = true) (hrun : s.callNext w k token c = some s') :
    PeriodInv s' := by
  have hc := h.calls c (List.mem_of_getElem? hck)
  simp only [byRight, noLateBounce, timely, hck, Bool.and_eq_true] at hright
  unfold ConsentState.callNext at hrun
  cases c with
  | importing | importPrior | importSaving => exact hc.elim
  | migrating accountId brandId ids tokens =>
    cases hrun
    exact h.commit (tableWrite_getD h fun t ht => .migrateContacts h ht) trivial
  | byToken | byContactToken | suppressingConsent | markingConsent | erasing =>
    dsimp only at hrun
    split at hrun
    · cases hrun
      exact h.setCall (by first | trivial | (split <;> trivial))
    · cases hrun
      exact h.setCall trivial
  | byConsentToken id row source =>
    cases hrun
    exact h.setCall (by split <;> trivial)
  | marking id accountId brandId =>
    dsimp only at hrun
    split at hrun
    · cases hrun
      refine h.setCall ?_
      split
      · trivial
      · split
        · trivial
        · trivial
    · cases hrun
      exact h.setCall trivial
  | suppressing contactId status source brandId =>
    dsimp only at hrun
    split at hrun
    · cases hrun
      exact h.setCall (by split <;> trivial)
    · cases hrun
      exact h.setCall trivial
  | withdrawContact id allowed status source =>
    cases hrun
    exact h.commit (withdrawContact_write h id allowed status source) trivial
  | withdrawConsent id allowed status source =>
    cases hrun
    exact h.commit (withdrawConsent_write h id allowed status source) trivial
  | eraseSaving id accountId row =>
    cases hrun
    exact h.commit (eraseContact_write h id accountId row) trivial
  | keeping token' now =>
    dsimp only at hrun
    split at hrun
    · cases hrun
      refine h.setCall ?_
      split
      · next n hn => exact ⟨n, hn, .refl n⟩
      · trivial
    · cases hrun
      exact h.setCall trivial
  | keepReading place n now =>
    cases hrun
    refine h.setCall ?_
    split
    · exact hc
    · trivial
  | keepSaving place n now =>
    cases hrun
    exact h.commit (tableWrite_getD h fun t ht =>
      .keepConsent h hc (of_decide_eq_true hright.2) ht) trivial
  | renewing now =>
    cases hrun
    exact h.setCall (renewPage_facts h now)
  | renewRow now rows =>
    cases rows with
    | nil =>
      cases hrun
      exact h.setCall trivial
    | cons r rows =>
      cases hrun
      obtain ⟨hr, hrows⟩ := List.forall_mem_cons.mp hc
      refine h.setCall ?_
      split
      · exact ⟨hr, hrows⟩
      · exact hrows
  | renewReading now place n rows =>
    cases hrun
    refine h.setCall ?_
    split
    · next row hrow => exact ⟨hc.1, consentToRenew_cycle hrow, hc.2⟩
    · exact hc.2
  | renewSaving now place n row rows =>
    cases hrun
    exact h.commit (.renewConsent h hc.1 hc.2.1 (Option.isNone_iff_eq_none.mp hright.1.2)) hc.2.2
  | renewMarking now place rows =>
    cases hrun
    exact h.commit (.modifyNotice_of_before h (fun _ => ⟨rfl, rfl, id⟩) fun _ hst => ⟨hst, rfl⟩) hc
  | planning accountId now =>
    cases hrun
    refine h.setCall ?_
    split
    · next v hv => exact ⟨h.settings accountId v (Option.filter_eq_some_iff.mp hv).1, hc⟩
    · trivial
  | planContacts accountId leadDays now =>
    cases hrun
    exact h.setCall hc
  | planConsents accountId leadDays now contacts =>
    cases hrun
    exact h.setCall (dueNotices_facts hc.1 hc.2)
  | planCycles accountId now due =>
    cases hrun
    exact h.setCall fun d hd => hc d (List.mem_filter.mp hd).1
  | planInserting accountId now due =>
    cases due with
    | nil =>
      cases hrun
      exact h.setCall trivial
    | cons d due =>
      obtain ⟨hd, hdue⟩ := List.forall_mem_cons.mp hc
      dsimp only at hrun
      split at hrun
      · next t ht =>
        cases hrun
        exact h.commit (.insertNotice h hd ht) hdue
      · cases hrun
        refine h.setCall ?_
        split
        · exact hdue
        · trivial
  | queue p phase => exact h.queueNext hc hrun
  | ended => cases hrun

theorem PeriodInv.picked (h : PeriodInv s) {pick : SenderPick}
    (hck : s.calls[k]? = some c) (hrun : s.picked k pick c = some s') : PeriodInv s' := by
  have hc := h.calls c (List.mem_of_getElem? hck)
  unfold ConsentState.picked at hrun
  split at hrun
  · cases hrun
    exact h.setCall ⟨hc.1, senderGate_facts hc.2⟩
  · cases hrun

/-- The provider answers: what it has accepted in time was sent before the notice is due. -/
theorem PeriodInv.returned (h : PeriodInv s) {outcome : EmailOutcome}
    (hck : s.calls[k]? = some c) (hright : byRight s (.returned k outcome) = true)
    (hrun : s.returned k outcome c = some s') : PeriodInv s' := by
  have hc := h.calls c (List.mem_of_getElem? hck)
  unfold ConsentState.returned at hrun
  split at hrun
  · next p job setting =>
    cases hrun
    obtain ⟨hread, hstart⟩ := hc
    refine h.of_same (.of_same le_rfl rfl rfl fun d hd => ?_) rfl rfl fun c' hc' => ?_
    · cases outcome with
      | sent => exact List.mem_cons_of_mem _ hd
      | retry | failed => exact hd
    · rcases List.mem_or_eq_of_mem_set hc' with hc' | rfl
      · exact .inl hc'
      · refine .inr ⟨hread, fun hst => ?_⟩
        cases outcome with
        | sent id =>
          have hanswer : s.clock ≤ job.start + sendMarginMs := by
            simp only [byRight, timely, hck, Bool.and_eq_true, decide_eq_true_eq] at hright
            exact hright.2
          refine ⟨setting.on_no_response, rfl, _, List.mem_cons_self, rfl, rfl, ?_⟩
          unfold StageFacts Notice.lastSend at hstart
          dsimp only
          unfold Date at *
          omega
        | retry error =>
          unfold noticeOutcome at hst
          dsimp only at hst
          split at hst
          · cases hst
          · cases hst
        | failed error => cases hst
  · cases hrun

theorem PeriodInv.throws (h : PeriodInv s) (hck : s.calls[k]? = some c)
    (error : String) : PeriodInv (s.throws k error c) := by
  have hc := h.calls c (List.mem_of_getElem? hck)
  unfold ConsentState.throws
  split
  · next p job stage =>
    obtain ⟨hread, hstage⟩ := hc
    refine h.setCall ?_
    cases stage with
    | finishing f =>
      dsimp only
      split
      · trivial
      · exact ⟨hread, trivial⟩
    | caught => trivial
    | calling => exact ⟨hread, hstage⟩
    | contact | consent | settings | sender => exact ⟨hread, trivial⟩
  · exact h.setCall trivial

theorem call_facts {r : ConsentRequest} (hcall : r.call s = some c)
    (hright : noImport (.request r) = true) : CallFacts s c := by
  cases r with
  | importEntry e => cases hright
  | migrateLegacy accountId brandId ids tokens =>
    obtain ⟨-, heq⟩ := Option.ite_none_right_eq_some.mp hcall
    cases heq
    trivial
  | suppressContact contactId status source brandId =>
    obtain ⟨-, heq⟩ := Option.ite_none_right_eq_some.mp hcall
    cases heq
    trivial
  | planAccount =>
    cases hcall
    exact le_rfl
  | unsubscribeByToken | markUnsubscribed | erase | keep | renewDue | processQueue =>
    cases hcall
    trivial

/-! ## Runs -/

theorem PeriodInv.run (h : PeriodInv s) {a : ConsentAction} (hright : byRight s a = true)
    (hrun : a.run w s = some s') : PeriodInv s' := by
  cases a with
  | tick elapsed =>
    cases hrun
    have hlater : Later s { s with clock := s.clock + elapsed } :=
      .of_same (Int.le_add_of_nonneg_right (Int.natCast_nonneg elapsed)) rfl rfl fun _ hd => hd
    exact h.of_same hlater rfl rfl fun c hc => .inl hc
  | createBrand id accountId =>
    cases hrun
    exact h.commit_store (.of_consents h rfl rfl h.settings)
  | saveSettings accountId v =>
    obtain ⟨hlead, heq⟩ := Option.ite_none_right_eq_some.mp hrun
    cases heq
    refine h.commit_store (.of_consents h rfl rfl fun id v' hv' => ?_)
    dsimp only at hv'
    by_cases hid : id = accountId
    · rw [hid, Function.update_self] at hv'
      cases hv'
      exact hlead.2
    · rw [Function.update_of_ne hid] at hv'
      exact h.settings id v' hv'
  | bounce place type =>
    cases hrun
    refine h.commit_store (.modifyNotice_of_before h (fun n => ?_) fun n hst => ?_)
    · unfold Notice.bounced
      split
      · exact ⟨rfl, rfl, id⟩
      · exact .refl n
    · unfold Notice.bounced at *
      split
      · next hnew =>
        rw [if_pos hnew] at hst
        exact ⟨hst, rfl⟩
      · next hold =>
        rw [if_neg hold] at hst
        exact ⟨hst, rfl⟩
  | retryFailed accountId =>
    cases hrun
    refine h.commit_store (.of_notices h rfl rfl (.map fun n => ?_) (List.length_map ..) ?_)
    · unfold Notice.retried
      split
      · exact ⟨rfl, rfl, id⟩
      · exact .refl n
    · intro place n n' p hn hn' hst hp
      have hn' : (s.store.notices.map (·.retried accountId s.clock))[place]? = some n' := hn'
      rw [List.getElem?_map, hn, Option.map_some] at hn'
      cases hn'
      unfold Notice.retried at hst hp
      split at hst
      · cases hst
      · next hkept =>
        rw [if_neg hkept] at hp
        exact h.sent place n p hn hst hp
  | request r =>
    obtain ⟨c, hc, rfl⟩ := Option.map_eq_some_iff.mp hrun
    simp only [byRight, Bool.and_eq_true] at hright
    have hlater : Later s { s with calls := s.calls ++ [c] } :=
      .of_same le_rfl rfl rfl fun _ hd => hd
    refine h.of_same hlater rfl rfl fun c' hc' => ?_
    rcases List.mem_append.mp hc' with hc' | hc'
    · exact .inl hc'
    · cases List.mem_singleton.mp hc'
      exact .inr ((call_facts hc hright.1.1).later hlater)
  | next k token =>
    obtain ⟨c, hc, hrun⟩ := Option.bind_eq_some_iff.mp hrun
    exact h.callNext hc hright hrun
  | picked k pick =>
    obtain ⟨c, hc, hrun⟩ := Option.bind_eq_some_iff.mp hrun
    exact h.picked hc hrun
  | returned k outcome =>
    obtain ⟨c, hc, hrun⟩ := Option.bind_eq_some_iff.mp hrun
    exact h.returned hc hright hrun
  | throws k error =>
    obtain ⟨c, hc, rfl⟩ := Option.map_eq_some_iff.mp hrun
    exact h.throws hc error
  | stop k =>
    obtain ⟨c, -, rfl⟩ := Option.map_eq_some_iff.mp hrun
    exact h.setCall trivial

/-- At the start every consent has come by migration, and there are no notices. -/
theorem PeriodInv.of_init (hinit : (consentSystem w SettingsInRange).init s) : PeriodInv s := by
  obtain ⟨hsettings, hnotices, hcalls, -, hmoves⟩ := hinit
  have hzero : ∀ place, s.moves.countP (·.byLink place) = 0 := by
    intro place
    rw [hmoves]
    exact countP_byLink_eq_zero fun _ heq => nomatch heq
  refine ⟨⟨fun m hm => ?_, fun i k hk => ?_, fun place => ?_⟩, ?_, ?_, fun place hpos => ?_,
    hsettings, ?_⟩
  · rw [hmoves] at hm
    obtain ⟨-, hbefore, hcause, -⟩ := moveOf_eq_some (mem_deadlineMoves hm)
    unfold Lawful
    rw [hcause]
    exact hbefore
  · have hfind := find?_deadlineMoves (t := {}) .migrated hk []
    rw [List.append_nil, ← hmoves] at hfind
    have hmove : moveOf {} s.store .migrated i =
        some { consent := i, before := none, after := k.deadline, cause := .migrated } := by
      unfold moveOf
      rw [hk]
      rfl
    rw [hmove] at hfind
    exact ⟨_, hfind, rfl⟩
  · rw [hzero place]
    exact Nat.zero_le 1
  · rw [hnotices]
    exact fun n hn => nomatch hn
  · rw [hnotices]
    exact fun place n p hn => nomatch hn
  · rw [hzero place] at hpos
    cases hpos
  · rw [hcalls]
    exact fun c hc => nomatch hc

/-- In a run whose steps all are by right, periods are extended by right. -/
theorem extended_of_byRight (hs : ((consentSystem w SettingsInRange).restrict
    fun s a _ => byRight s a = true).Reachable s) : ExtendedByRight s := by
  have hinv : PeriodInv s := by
    refine hs.invariant (fun s hinit => ?_) fun s a t _ h hstep => ?_
    · exact PeriodInv.of_init (w := w) hinit
    · obtain ⟨hrun, hright⟩ := hstep
      exact h.run hright hrun
  exact hinv.extended

end WorkflowBoard.Consents
