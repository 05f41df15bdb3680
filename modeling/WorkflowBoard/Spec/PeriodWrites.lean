import WorkflowBoard.Spec.ConsentPeriods

/-!
# What a commit does to consent periods

What each call knows of the notices and due dates it works on survives the steps of the others, as
these only move deadlines on and leave what a notice is about. Each write of the tables is shown to
move deadlines by right.
-/

namespace WorkflowBoard.Consents

open Email (ContactStatus EmailOutcome consentMaxAgeMs)
open ConsentStore

/-! ## The right of every state -/

/-- How long a click on a link may take until its transaction, 638 days. -/
def keepStallMs : Int := consentMaxAgeMs - horizonMs - dayMs

/-- The settings are in the range that is checked when they are saved. -/
def SettingsInRange (t : ConsentStore) : Prop :=
  ∀ (accountId : String) (v : NoticeSetting), t.settings accountId = some v →
    v.lead_days ≤ maxLeadDays

/-- Every deadline was moved by right, each notice counted once, and each consent has the deadline
    of its last move. -/
structure ExtendedByRight (s : ConsentState) : Prop where
  lawful : ∀ m ∈ s.moves, Lawful s m
  last : ∀ (i : Nat) (k : ConsentRow), s.store.consents[i]? = some k →
    ∃ m, s.moves.find? (fun m => m.consent = i) = some m ∧ m.after = k.deadline
  once : ∀ place, s.moves.countP (·.byLink place) ≤ 1

/-! ## What calls know -/

def StageFacts (s : ConsentState) (job : NoticeJob) : NoticeStage → Prop
  | .settings _ | .sender _ | .calling _ => job.start < job.n.lastSend
  | .finishing f => f.status = .sent →
      ∃ p, f.used.map (·.1) = some p ∧ SentUnder s job.place p job.n.due_at
  | _ => True

def PhaseFacts (s : ConsentState) : NoticePhase → Prop
  | .sending job stage => NoticeIs s job.place job.n ∧ StageFacts s job stage
  | _ => True

/-- A row of a page of `renewDue`. -/
def RowFacts (s : ConsentState) (r : Nat × Notice) : Prop :=
  NoticeIs s r.1 r.2 ∧ SentUnder s r.1 .keep r.2.due_at

/-- What a call knows between two of its statements. -/
def CallFacts (s : ConsentState) : ConsentCall → Prop
  | .importing _ | .importPrior _ _ | .importSaving _ _ _ => False
  | .keepReading place n _ | .keepSaving place n _ => NoticeIs s place n
  | .renewRow _ rows | .renewMarking _ _ rows => ∀ r ∈ rows, RowFacts s r
  | .renewReading _ place n rows => RowFacts s (place, n) ∧ ∀ r ∈ rows, RowFacts s r
  | .renewSaving _ place n k rows =>
    RowFacts s (place, n) ∧ sameConsentCycle k.deadline n.due_at = true ∧ ∀ r ∈ rows, RowFacts s r
  | .planning _ now => now ≤ s.clock
  | .planContacts _ leadDays now | .planConsents _ leadDays now _ =>
    leadDays ≤ maxLeadDays ∧ now ≤ s.clock
  | .planCycles _ _ due | .planInserting _ _ due => ∀ d ∈ due, DueOk s d.consentId d.dueAt
  | .queue _ phase => PhaseFacts s phase
  | _ => True

variable {w : ConsentWorld} {s s' : ConsentState} {k : Nat} {token : String}

theorem StageFacts.later {job : NoticeJob} {stage : NoticeStage} (h : StageFacts s job stage)
    (hs : Later s s') : StageFacts s' job stage := by
  cases stage with
  | finishing f =>
    intro hst
    obtain ⟨p, hp, hsent⟩ := h hst
    exact ⟨p, hp, hsent.later hs⟩
  | contact | consent | settings | sender | calling | caught => exact h

theorem PhaseFacts.later {phase : NoticePhase} (h : PhaseFacts s phase) (hs : Later s s') :
    PhaseFacts s' phase := by
  cases phase with
  | sending job stage => exact ⟨h.1.later hs, h.2.later hs⟩
  | finding | closing | listing | claiming | loading => trivial

theorem RowFacts.later {r : Nat × Notice} (h : RowFacts s r) (hs : Later s s') : RowFacts s' r :=
  ⟨h.1.later hs, h.2.later hs⟩

variable {c : ConsentCall} {t t' : ConsentStore} {accountId brandId : String}

theorem CallFacts.later (h : CallFacts s c) (hs : Later s s') :
    CallFacts s' c := by
  cases c with
  | importing | importPrior | importSaving => exact h
  | keepReading | keepSaving => exact NoticeIs.later h hs
  | renewRow | renewMarking => exact fun r hr => (h r hr).later hs
  | renewReading => exact ⟨h.1.later hs, fun r hr => (h.2 r hr).later hs⟩
  | renewSaving => exact ⟨h.1.later hs, h.2.1, fun r hr => (h.2.2 r hr).later hs⟩
  | planning => exact le_trans h hs.clock
  | planContacts | planConsents => exact ⟨h.1, h.2.trans hs.clock⟩
  | planCycles | planInserting => exact fun d hd => (h d hd).later hs
  | queue => exact PhaseFacts.later h hs
  | migrating | byToken | byConsentToken | byContactToken | marking | markingConsent | suppressing
  | suppressingConsent | withdrawContact | withdrawConsent | erasing | eraseSaving | keeping
  | renewing | ended => trivial

/-! ## The invariant -/

structure PeriodInv (s : ConsentState) : Prop where
  extended : ExtendedByRight s
  dues : ∀ n ∈ s.store.notices, DueOk s n.consent_id n.due_at
  sent : ∀ (place : Nat) (n : Notice) (p : NoticePolicy), s.store.notices[place]? = some n →
    n.status = .sent → n.policy = some p → SentUnder s place p n.due_at
  /-- A notice whose link has moved a deadline is marked. -/
  marked : ∀ place, 0 < s.moves.countP (·.byLink place) →
    ∃ n, s.store.notices[place]? = some n ∧ n.kept_at.isSome
  settings : SettingsInRange s.store
  calls : ∀ c ∈ s.calls, CallFacts s c

/-- A step that leaves tables and log, and after which the calls know what they have to. -/
theorem PeriodInv.of_same (h : PeriodInv s) (hlater : Later s s') (hstore : s'.store = s.store)
    (hmoves : s'.moves = s.moves) (hcalls : ∀ c ∈ s'.calls, c ∈ s.calls ∨ CallFacts s' c) :
    PeriodInv s' := by
  obtain ⟨⟨hlawful, hlast, honce⟩, hdues, hsent, hmarked, hsettings, hold⟩ := h
  refine ⟨⟨?_, ?_, ?_⟩, ?_, ?_, ?_, ?_, fun c hc => ?_⟩
  · rw [hmoves]
    exact fun m hm => (hlawful m hm).later hlater
  · rwa [hmoves, hstore]
  · rwa [hmoves]
  · rw [hstore]
    exact fun n hn => (hdues n hn).later hlater
  · rw [hstore]
    exact fun place n p hn hst hp => (hsent place n p hn hst hp).later hlater
  · rwa [hmoves, hstore]
  · rwa [hstore]
  · rcases hcalls c hc with hc | hc
    · exact (hold c hc).later hlater
    · exact hc

theorem PeriodInv.setCall (h : PeriodInv s) (hc : CallFacts s c) :
    PeriodInv (s.setCall k c) := by
  have hlater : Later s (s.setCall k c) := .of_same le_rfl rfl rfl fun _ hd => hd
  refine h.of_same hlater rfl rfl fun c' hc' => ?_
  rcases List.mem_or_eq_of_mem_set hc' with hc' | rfl
  · exact .inl hc'
  · exact .inr (hc.later hlater)

/-- What a commit has to show. -/
structure TableWrite (s : ConsentState) (t : ConsentStore) (cause : MoveCause) : Prop where
  notices : Grows SameNotice s.store.notices t.notices
  consents : Grows (KeepsAligned s.clock) s.store.consents t.consents
  dues : ∀ n ∈ t.notices, DueOk (s.commit t cause) n.consent_id n.due_at
  sent : ∀ (place : Nat) (n : Notice) (p : NoticePolicy), t.notices[place]? = some n →
    n.status = .sent → n.policy = some p → SentUnder s place p n.due_at
  settings : SettingsInRange t
  lawful : ∀ m ∈ deadlineMoves s.store t cause, Lawful (s.commit t cause) m
  once : ∀ place, (deadlineMoves s.store t cause ++ s.moves).countP (·.byLink place) ≤ 1
  marked : ∀ place, 0 < (deadlineMoves s.store t cause).countP (·.byLink place) →
    ∃ n, t.notices[place]? = some n ∧ n.kept_at.isSome

variable {cause : MoveCause} {t : ConsentStore} {place : Nat}

theorem TableWrite.later (hw : TableWrite s t cause) :
    Later s (s.commit t cause) :=
  ⟨le_rfl, hw.notices, hw.consents, fun _ hd => hd⟩

theorem PeriodInv.commit_store (h : PeriodInv s)
    (hw : TableWrite s t cause) : PeriodInv (s.commit t cause) := by
  refine ⟨⟨fun m hm => ?_, fun i k hk => ?_, hw.once⟩, hw.dues, hw.sent, fun place hpos => ?_,
    hw.settings, fun c hc => (h.calls c hc).later hw.later⟩
  · rcases List.mem_append.mp hm with hm | hm
    · exact hw.lawful m hm
    · exact (h.extended.lawful m hm).later hw.later
  · have hk : t.consents[i]? = some k := hk
    have hfind := find?_deadlineMoves (t := s.store) cause hk s.moves
    cases hm : moveOf s.store t cause i with
    | some m =>
      obtain ⟨-, -, -, k', hk', hafter, -⟩ := moveOf_eq_some hm
      cases hk.symm.trans hk'
      rw [hm] at hfind
      exact ⟨m, hfind, hafter⟩
    | none =>
      -- The deadline is the one it was.
      have hsame : (s.store.consents[i]?).map ConsentRow.deadline = some k.deadline := by
        by_contra hne
        unfold moveOf at hm
        rw [hk, Option.bind_some, if_neg hne] at hm
        cases hm
      obtain ⟨k₀, hk₀, hdeadline⟩ := Option.map_eq_some_iff.mp hsame
      obtain ⟨m, hm', hafter⟩ := h.extended.last i k₀ hk₀
      rw [hm, Option.none_or, hm'] at hfind
      exact ⟨m, hfind, hafter.trans hdeadline⟩
  · have hcount : (deadlineMoves s.store t cause ++ s.moves).countP (·.byLink place) =
        (deadlineMoves s.store t cause).countP (·.byLink place) +
          s.moves.countP (·.byLink place) := List.countP_append
    have hpos' : 0 < (deadlineMoves s.store t cause ++ s.moves).countP (·.byLink place) := hpos
    by_cases hnew : 0 < (deadlineMoves s.store t cause).countP (·.byLink place)
    · exact hw.marked place hnew
    · obtain ⟨n, hn, hkept⟩ := h.marked place (by omega)
      obtain ⟨n', hn', -, -, hstays⟩ := hw.notices place n hn
      exact ⟨n', hn', hstays hkept⟩

theorem PeriodInv.commit (h : PeriodInv s) (hw : TableWrite s t cause) (hc : CallFacts s c) :
    PeriodInv ((s.commit t cause).setCall k c) :=
  (h.commit_store hw).setCall (hc.later hw.later)

/-! ## Writes that move no deadline -/

theorem deadlineMoves_quiet (cause : MoveCause)
    (hdeadlines : t.consents.map ConsentRow.deadline = s.store.consents.map ConsentRow.deadline) :
    deadlineMoves s.store t cause = [] := by
  refine deadlineMoves_eq_nil fun i k hk => ?_
  rw [← List.getElem?_map, ← hdeadlines, List.getElem?_map, hk, Option.map_some]

theorem consents_quiet
    (hdeadlines : t.consents.map ConsentRow.deadline = s.store.consents.map ConsentRow.deadline) :
    Grows (KeepsAligned s.clock) s.store.consents t.consents := by
  intro i k hk
  have hsame : (t.consents.map ConsentRow.deadline)[i]? = some k.deadline := by
    rw [hdeadlines, List.getElem?_map, hk, Option.map_some]
  rw [List.getElem?_map] at hsame
  obtain ⟨k', hk', hdeadline⟩ := Option.map_eq_some_iff.mp hsame
  exact ⟨k', hk', .of_eq hdeadline⟩

theorem TableWrite.quiet (h : PeriodInv s)
    (hdeadlines : t.consents.map ConsentRow.deadline = s.store.consents.map ConsentRow.deadline)
    (hnotices : Grows SameNotice s.store.notices t.notices)
    (hdues : ∀ n ∈ t.notices, DueOk (s.commit t cause) n.consent_id n.due_at)
    (hsent : ∀ (place : Nat) (n : Notice) (p : NoticePolicy), t.notices[place]? = some n →
      n.status = .sent → n.policy = some p → SentUnder s place p n.due_at)
    (hsettings : SettingsInRange t) : TableWrite s t cause := by
  have hmoves := deadlineMoves_quiet cause hdeadlines
  refine ⟨hnotices, consents_quiet hdeadlines, hdues, hsent, hsettings, ?_, ?_, ?_⟩
  · rw [hmoves]
    exact fun m hm => nomatch hm
  · rw [hmoves]
    exact h.extended.once
  · rw [hmoves]
    exact fun _ hpos => nomatch hpos

theorem TableWrite.of_consents (h : PeriodInv s)
    (hdeadlines : t.consents.map ConsentRow.deadline = s.store.consents.map ConsentRow.deadline)
    (hnotices : t.notices = s.store.notices) (hsettings : SettingsInRange t) :
    TableWrite s t cause := by
  have hgrows : Grows SameNotice s.store.notices t.notices := by
    rw [hnotices]
    exact .refl SameNotice.refl _
  have hlater : Later s (s.commit t cause) :=
    ⟨le_rfl, hgrows, consents_quiet hdeadlines, fun _ hd => hd⟩
  refine .quiet h hdeadlines hgrows ?_ ?_ hsettings
  · rw [hnotices]
    exact fun n hn => (h.dues n hn).later hlater
  · rw [hnotices]
    exact h.sent

/-- The due dates of notices of which there are no new ones. -/
theorem dues_later (h : PeriodInv s) (s' : ConsentState) (hlater : Later s s')
    (hlength : s'.store.notices.length = s.store.notices.length) :
    ∀ n ∈ s'.store.notices, DueOk s' n.consent_id n.due_at := by
  intro n' hn'
  obtain ⟨place, hplace⟩ := List.mem_iff_getElem?.mp hn'
  have hlt := lt_of_getElem? hplace
  rw [hlength] at hlt
  obtain ⟨n'', hn'', hid, hdue, -⟩ := hlater.notices place _ (List.getElem?_eq_getElem hlt)
  cases hplace.symm.trans hn''
  rw [hid, hdue]
  exact (h.dues _ (List.getElem_mem hlt)).later hlater

/-- A write to notices that leaves what they are about. -/
theorem TableWrite.of_notices (h : PeriodInv s)
    (hconsents : t.consents = s.store.consents) (hsettings : t.settings = s.store.settings)
    (hgrows : Grows SameNotice s.store.notices t.notices)
    (hlength : t.notices.length = s.store.notices.length)
    (hsent : ∀ (place : Nat) (n n' : Notice) (p : NoticePolicy), s.store.notices[place]? = some n →
      t.notices[place]? = some n' → n'.status = .sent → n'.policy = some p →
        SentUnder s place p n.due_at) : TableWrite s t cause := by
  have hdeadlines : t.consents.map ConsentRow.deadline =
      s.store.consents.map ConsentRow.deadline := by rw [hconsents]
  have hlater : Later s (s.commit t cause) :=
    ⟨le_rfl, hgrows, consents_quiet hdeadlines, fun _ hd => hd⟩
  refine .quiet h hdeadlines hgrows (dues_later h _ hlater hlength)
    (fun place n' p hn' hst hp => ?_) ?_
  · have hlt := lt_of_getElem? hn'
    rw [hlength] at hlt
    have hn := List.getElem?_eq_getElem hlt
    obtain ⟨n'', hn'', -, hdue, -⟩ := hgrows place _ hn
    cases hn'.symm.trans hn''
    rw [hdue]
    exact hsent place _ n' p hn hn' hst hp
  · intro accountId v hv
    rw [hsettings] at hv
    exact h.settings accountId v hv

/-- A notice that is sent after a write was so before, under the same policy. -/
def SentBefore (n n' : Notice) : Prop :=
  n'.status = .sent → n.status = .sent ∧ n'.policy = n.policy

theorem TableWrite.modifyNotice (h : PeriodInv s) {f : Notice → Notice}
    (hsame : ∀ n, SameNotice n (f n))
    (hsent : ∀ n p, s.store.notices[place]? = some n → (f n).status = .sent →
      (f n).policy = some p → SentUnder s place p n.due_at) :
    TableWrite s (s.store.modifyNotice place f) cause := by
  refine .of_notices h rfl rfl (.modify SameNotice.refl fun n _ => hsame n)
    (List.length_modify ..) fun i n n' p hn hn' hst hp => ?_
  rcases getElem?_modify_cases hn' with ⟨rfl, n₀, hn₀, rfl⟩ | ⟨-, hn'⟩
  · cases hn.symm.trans hn₀
    exact hsent n p hn hst hp
  · cases hn.symm.trans hn'
    exact h.sent i n p hn hst hp

theorem TableWrite.modifyNotice_of_before (h : PeriodInv s) {f : Notice → Notice}
    (hsame : ∀ n, SameNotice n (f n)) (hbefore : ∀ n, SentBefore n (f n)) :
    TableWrite s (s.store.modifyNotice place f) cause := by
  refine .modifyNotice h hsame fun n p hn hst hp => ?_
  obtain ⟨hst₀, hpolicy⟩ := hbefore n hst
  exact h.sent place n p hn hst₀ (hpolicy.symm.trans hp)

theorem TableWrite.nothing (h : PeriodInv s) (cause : MoveCause) : TableWrite s s.store cause :=
  .of_consents h rfl rfl h.settings

theorem TableWrite.insertNotice (h : PeriodInv s) {accountId : String} {d : DueNotice}
    {now updated : Date} (hd : DueOk s d.consentId d.dueAt)
    (hins : s.store.insertNotice accountId d token now updated = some t) :
    TableWrite s t cause := by
  unfold ConsentStore.insertNotice at hins
  split at hins
  · cases hins
  cases hins
  have hgrows := Grows.append (R := SameNotice) SameNotice.refl s.store.notices
  have hlater : ∀ new,
    Later s (s.commit { s.store with notices := s.store.notices ++ new } cause) :=
    fun new => ⟨le_rfl, hgrows new, .refl (fun _ => .of_eq rfl) _, fun _ hd => hd⟩
  refine .quiet h rfl (hgrows _) (fun n hn => ?_) (fun place n p hn hst hp => ?_) h.settings
  · rcases List.mem_append.mp hn with hn | hn
    · exact (h.dues n hn).later (hlater _)
    · cases List.mem_singleton.mp hn
      exact hd.later (hlater _)
  · rcases getElem?_append_cases hn with hn | ⟨-, rfl⟩
    · exact h.sent place n p hn hst hp
    · cases hst

/-! ## Writes that move a deadline -/

theorem cause_of_mem {m : DeadlineMove} (hm : m ∈ deadlineMoves t t' cause) : m.cause = cause :=
  (moveOf_eq_some (mem_deadlineMoves hm)).2.2.1

/-- A commit that is not of a link counts for none. -/
theorem countP_byLink_eq_zero (hcause : ∀ now, cause ≠ .kept place now) :
    (deadlineMoves t t' cause).countP (·.byLink place) = 0 := by
  rw [List.countP_eq_zero]
  intro m hm hlink
  unfold DeadlineMove.byLink at hlink
  rw [cause_of_mem hm] at hlink
  split at hlink
  · next p now =>
    rw [of_decide_eq_true hlink] at hcause
    exact hcause now rfl
  · cases hlink

/-- The move of a consent that is written, where no other one is. -/
theorem move_of_modify {i : Nat}
    {f : ConsentRow → ConsentRow} (hconsents : t'.consents = t.consents.modify i f)
    {m : DeadlineMove} (hm : m ∈ deadlineMoves t t' cause) :
    m.consent = i ∧ ∃ k, t.consents[i]? = some k ∧ m.before = some k ∧
      m.after = (f k).deadline := by
  obtain ⟨-, hbefore, -, k', hk', hafter, hmoved⟩ := moveOf_eq_some (mem_deadlineMoves hm)
  rw [hconsents] at hk'
  rcases getElem?_modify_cases hk' with ⟨rfl, k, hk, rfl⟩ | ⟨-, hk'⟩
  · exact ⟨rfl, k, hk, hbefore.trans hk, hafter⟩
  · rw [hk'] at hmoved
    exact absurd rfl hmoved

/-- A kept consent is a write of the tables. -/
theorem TableWrite.keepConsent (h : PeriodInv s) {n : Notice} {now : Date}
    (hread : NoticeIs s place n) (hstall : s.clock - now ≤ keepStallMs)
    (hkeep : s.store.keepConsent place n now = some t) : TableWrite s t (.kept place now) := by
  unfold ConsentStore.keepConsent at hkeep
  split at hkeep
  · obtain ⟨k, hk, hkeep⟩ := Option.bind_eq_some_iff.mp hkeep
    split at hkeep
    · next hok =>
      cases hkeep
      simp only [Bool.and_eq_true, decide_eq_true_eq] at hok
      obtain ⟨⟨hunkept, hcycle⟩, hnow⟩ := hok
      obtain ⟨n₀, hn₀, hid, hdue, -⟩ := hread
      obtain ⟨hk, -⟩ := noticeConsent_eq_some hk
      rw [hn₀, Option.any_some, Option.isNone_iff_eq_none] at hunkept
      -- A notice that is not marked has moved nothing.
      have hnone : s.moves.countP (·.byLink place) = 0 := by
        by_contra hne
        obtain ⟨n', hn', hkept⟩ := h.marked place (Nat.pos_of_ne_zero hne)
        cases hn₀.symm.trans hn'
        rw [hunkept] at hkept
        cases hkept
      have hnotice : TableWrite s (s.store.modifyNotice place (·.keptAt now)) (.kept place now) :=
        .modifyNotice_of_before h (fun _ => ⟨rfl, rfl, fun _ => rfl⟩) fun _ hst => ⟨hst, rfl⟩
      have hconsents : Grows (KeepsAligned s.clock) s.store.consents
          (s.store.consents.modify n.consent_id (·.kept place n.settings_version now)) := by
        refine .modify (fun _ => .of_eq rfl) fun k₁ _ due hle _ => .inr ?_
        rw [deadline_kept]
        unfold keepStallMs at hstall
        unfold Date at *
        omega
      have hother : ∀ place', place' ≠ place → (deadlineMoves s.store { s.store with
          notices := s.store.notices.modify place (·.keptAt now)
          consents := s.store.consents.modify n.consent_id (·.kept place n.settings_version now) }
            (.kept place now)).countP (·.byLink place') = 0 := by
        intro place' hne
        refine countP_byLink_eq_zero fun now' heq => ?_
        cases heq
        exact hne rfl
      refine ⟨hnotice.notices, hconsents, ?_, hnotice.sent, h.settings, fun m hm => ?_,
        fun place' => ?_, fun place' hpos => ?_⟩
      · exact dues_later h (s.commit _ _) ⟨le_rfl, hnotice.notices, hconsents, fun _ hd => hd⟩
          (List.length_modify ..)
      · obtain ⟨hconsent, k₁, hk₁, hbefore, hafter⟩ := move_of_modify rfl hm
        cases hk.symm.trans hk₁
        unfold Lawful
        rw [cause_of_mem hm]
        refine ⟨n₀.keptAt now, k, getElem?_modify_self hn₀, hbefore, hid.trans hconsent.symm, ?_,
          ?_, hafter⟩
        · unfold isOfCycle at *
          exact hdue ▸ hcycle
        · exact hdue ▸ hnow
      · rw [List.countP_append]
        by_cases hplace : place' = place
        · rw [hplace, hnone, Nat.add_zero]
          exact List.countP_le_length.trans (length_deadlineMoves_le fun i hi =>
            getElem?_modify_other (Ne.symm hi))
        · rw [hother place' hplace, Nat.zero_add]
          exact h.extended.once place'
      · by_cases hplace : place' = place
        · rw [hplace]
          exact ⟨n₀.keptAt now, getElem?_modify_self hn₀, rfl⟩
        · rw [hother place' hplace] at hpos
          cases hpos
    · cases hkeep
  · cases hkeep

/-- A renewal. The notice is due at the deadline itself, as the two are of one cycle. -/
theorem TableWrite.renewConsent (h : PeriodInv s) {n : Notice} {k : ConsentRow}
    {bounce : Option BounceType} (hrow : RowFacts s (place, n))
    (hcycle : sameConsentCycle k.deadline n.due_at = true) (hbounce : bounce = none) :
    TableWrite s (s.store.renewConsent n k) (.renewed place n bounce) := by
  unfold ConsentStore.renewConsent
  split
  · next hmay =>
    simp only [mayRenew, Bool.and_eq_true] at hmay
    obtain ⟨k₀, hk₀, hsame⟩ := (Option.any_eq_true _ _).mp hmay.1
    simp only [Bool.and_eq_true, decide_eq_true_eq] at hsame
    have hdeadline : k₀.deadline = k.deadline := by
      unfold ConsentRow.deadline Email.consentDeadline Email.consentAnchor
      rw [hsame.1.2, hsame.2]
    obtain ⟨⟨n₀, hn₀, hid, hdue, -⟩, hsent⟩ := hrow
    have hexact : n.due_at = k₀.deadline := by
      obtain ⟨-, k₁, hk₁, haligned⟩ := h.dues n₀ (List.mem_of_getElem? hn₀)
      rw [hid] at hk₁
      cases hk₀.symm.trans hk₁
      rw [hdue] at haligned
      exact haligned.eq_of_sameCycle (hdeadline ▸ hcycle)
    have hafter : (k₀.renewed n.due_at).deadline = k₀.deadline + consentMaxAgeMs := by
      rw [hexact]
      exact deadline_renewed k₀
    have hconsents : Grows (KeepsAligned s.clock) s.store.consents
        (s.store.consents.modify n.consent_id (·.renewed n.due_at)) := by
      refine .modify (fun _ => .of_eq rfl) fun k₁ hk₁ due _ haligned => haligned.later ?_
      cases hk₀.symm.trans hk₁
      rw [hafter]
      unfold consentMaxAgeMs dayMs Date
      omega
    have hzero : ∀ place', (deadlineMoves s.store { s.store with
        consents := s.store.consents.modify n.consent_id (·.renewed n.due_at) }
          (.renewed place n bounce)).countP (·.byLink place') = 0 :=
      fun place' => countP_byLink_eq_zero fun _ heq => by cases heq
    refine ⟨.refl SameNotice.refl _, hconsents, ?_, h.sent, h.settings, fun m hm => ?_,
      fun place' => ?_, fun place' hpos => ?_⟩
    · exact dues_later h (s.commit _ _)
        ⟨le_rfl, .refl SameNotice.refl _, hconsents, fun _ hd => hd⟩ rfl
    · obtain ⟨hconsent, k₁, hk₁, hbefore, hmoved⟩ := move_of_modify rfl hm
      cases hk₀.symm.trans hk₁
      unfold Lawful
      rw [cause_of_mem hm]
      exact ⟨n₀, k₀, hn₀, hbefore, hid.trans hconsent.symm, hdue.trans hexact, hmoved.trans hafter,
        hdue ▸ hsent, hbounce⟩
    · rw [List.countP_append, hzero place', Nat.zero_add]
      exact h.extended.once place'
    · rw [hzero place'] at hpos
      cases hpos
  · exact .nothing h _

/-- A migration adds consents and leaves the others. -/
theorem migrateContacts_rest {tokens : Nat → String} {ids : List Nat}
    (hmigrate : t.migrateContacts accountId brandId tokens ids = some t') :
    t'.notices = t.notices ∧ t'.settings = t.settings ∧ Grows Eq t.consents t'.consents := by
  induction ids generalizing t with
  | nil =>
    cases hmigrate
    exact ⟨rfl, rfl, .refl (fun _ => rfl) _⟩
  | cons id ids ih =>
    obtain ⟨t₁, hfirst, hrest⟩ := Option.bind_eq_some_iff.mp hmigrate
    obtain ⟨hnotices, hsettings, hconsents⟩ := ih hrest
    have hone : t₁.notices = t.notices ∧ t₁.settings = t.settings ∧
        Grows Eq t.consents t₁.consents := by
      unfold migrateContact at hfirst
      split at hfirst
      · split at hfirst
        · cases hfirst
        split at hfirst
        · cases hfirst
          exact ⟨rfl, rfl, .refl (fun _ => rfl) _⟩
        dsimp only at hfirst
        split at hfirst
        · cases hfirst
          exact ⟨rfl, rfl, .refl (fun _ => rfl) _⟩
        · unfold insertConsent at hfirst
          split at hfirst
          · cases hfirst
          · cases hfirst
            exact ⟨rfl, rfl, .append (fun _ => rfl) _ _⟩
      · cases hfirst
    exact ⟨hnotices.trans hone.1, hsettings.trans hone.2.1,
      hone.2.2.trans (fun _ _ _ => Eq.trans) hconsents⟩

theorem TableWrite.migrateContacts (h : PeriodInv s) {tokens : Nat → String} {ids : List Nat}
    (hmigrate : s.store.migrateContacts accountId brandId tokens ids = some t) :
    TableWrite s t .migrated := by
  obtain ⟨hnotices, hsettings, hold⟩ := migrateContacts_rest hmigrate
  have hconsents : Grows (KeepsAligned s.clock) s.store.consents t.consents := by
    intro i k hk
    obtain ⟨k', hk', rfl⟩ := hold i k hk
    exact ⟨k, hk', .of_eq rfl⟩
  have hgrows : Grows SameNotice s.store.notices t.notices := by
    rw [hnotices]
    exact .refl SameNotice.refl _
  have hzero : ∀ place, (deadlineMoves s.store t .migrated).countP (·.byLink place) = 0 :=
    fun place => countP_byLink_eq_zero fun _ heq => nomatch heq
  refine ⟨hgrows, hconsents, ?_, ?_, ?_, fun m hm => ?_, fun place => ?_, fun place hpos => ?_⟩
  · exact dues_later h (s.commit _ _) ⟨le_rfl, hgrows, hconsents, fun _ hd => hd⟩
      (congrArg List.length hnotices)
  · rw [hnotices]
    exact h.sent
  · intro accountId v hv
    rw [hsettings] at hv
    exact h.settings accountId v hv
  · obtain ⟨-, hbefore, hcause, k', hk', -, hmoved⟩ := moveOf_eq_some (mem_deadlineMoves hm)
    unfold Lawful
    rw [hcause]
    cases hk : s.store.consents[m.consent]? with
    | none => exact hbefore.trans hk
    | some k =>
      obtain ⟨k₁, hk₁, rfl⟩ := hold _ k hk
      cases hk'.symm.trans hk₁
      rw [hk] at hmoved
      exact absurd rfl hmoved
  · rw [List.countP_append, hzero place, Nat.zero_add]
    exact h.extended.once place
  · rw [hzero place] at hpos
    cases hpos

end WorkflowBoard.Consents
