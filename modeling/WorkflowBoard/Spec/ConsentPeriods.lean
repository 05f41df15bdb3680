import WorkflowBoard.Spec.WithdrawalKept

/-!
# Deadlines of consents and their notices

A notice carries the deadline it was written for. Cycles are matched with a tolerance of a day, but
of the notices of one consent none is that close to its deadline without being of it exactly, and
that is kept by every extension.
-/

namespace WorkflowBoard.Consents

open Email (consentDeadline consentMaxAgeMs consentAnchor)

/-! ## Deadlines -/

def ConsentRow.deadline (k : ConsentRow) : Date := consentDeadline k.toConsentPeriod

theorem deadline_kept (place version : Nat) (now : Date) (k : ConsentRow) :
    (k.kept place version now).deadline = now + consentMaxAgeMs := rfl

/-- A renewal at the deadline itself moves it by the whole period. -/
theorem deadline_renewed (k : ConsentRow) :
    (k.renewed k.deadline).deadline = k.deadline + consentMaxAgeMs := by
  have hat : k.consent_at < k.deadline := by
    unfold ConsentRow.deadline consentDeadline consentAnchor consentMaxAgeMs
    split
    · split
      · unfold Date at *
        omega
      · unfold Date at *
        omega
    · unfold Date at *
      omega
  unfold ConsentRow.deadline consentDeadline consentAnchor at hat ⊢
  unfold ConsentRow.renewed
  dsimp only
  rw [if_pos hat]

/-- The due date of a notice is the deadline, or at least a day before it. -/
def Aligned (deadline due : Date) : Prop := due = deadline ∨ due + dayMs ≤ deadline

theorem Aligned.eq_of_sameCycle {deadline due : Date} (h : Aligned deadline due)
    (hcycle : sameConsentCycle deadline due = true) : due = deadline := by
  simp only [sameConsentCycle, Bool.and_eq_true, decide_eq_true_eq] at hcycle
  rcases h with h | h
  · exact h
  · unfold Date at *
    omega

/-- A deadline that moves on by a day or more leaves the due dates behind. -/
theorem Aligned.later {deadline deadline' due : Date} (h : Aligned deadline due)
    (hlater : deadline + dayMs ≤ deadline') : Aligned deadline' due := by
  unfold Aligned dayMs Date at *
  omega

/-! ## Moves of a commit -/

variable {t t' : ConsentStore} {cause : MoveCause}

/-- The move of one consent. -/
def moveOf (t t' : ConsentStore) (cause : MoveCause) (i : Nat) : Option DeadlineMove :=
  (t'.consents[i]?).bind fun k =>
    if (t.consents[i]?).map ConsentRow.deadline = some k.deadline then none
    else some { consent := i, before := t.consents[i]?, after := k.deadline, cause }

theorem deadlineMoves_eq (t t' : ConsentStore) (cause : MoveCause) :
    deadlineMoves t t' cause = (List.range t'.consents.length).filterMap (moveOf t t' cause) := rfl

variable {m : DeadlineMove}

theorem moveOf_eq_some {i : Nat} (h : moveOf t t' cause i = some m) :
    m.consent = i ∧ m.before = t.consents[i]? ∧ m.cause = cause ∧
      ∃ k, t'.consents[i]? = some k ∧ m.after = k.deadline ∧
        (t.consents[i]?).map ConsentRow.deadline ≠ some k.deadline := by
  obtain ⟨k, hk, h⟩ := Option.bind_eq_some_iff.mp h
  split at h
  · cases h
  · next hmoved =>
    cases h
    exact ⟨rfl, rfl, rfl, k, hk, rfl, hmoved⟩

theorem mem_deadlineMoves (h : m ∈ deadlineMoves t t' cause) :
    moveOf t t' cause m.consent = some m := by
  obtain ⟨i, -, hm⟩ := List.mem_filterMap.mp h
  rw [(moveOf_eq_some hm).1]
  exact hm

theorem deadlineMoves_eq_nil (h : ∀ (i : Nat) (k : ConsentRow), t'.consents[i]? = some k →
    (t.consents[i]?).map ConsentRow.deadline = some k.deadline) :
    deadlineMoves t t' cause = [] := by
  rw [deadlineMoves_eq, List.filterMap_eq_nil_iff]
  intro i _
  cases hm : moveOf t t' cause i with
  | none => rfl
  | some m =>
    obtain ⟨-, -, -, k, hk, -, hmoved⟩ := moveOf_eq_some hm
    exact absurd (h i k hk) hmoved

/-- The last move of a consent after a commit. -/
theorem find?_deadlineMoves (cause : MoveCause) {i : Nat} {k : ConsentRow}
    (hk : t'.consents[i]? = some k) (moves : List DeadlineMove) :
    (deadlineMoves t t' cause ++ moves).find? (fun m => m.consent = i) =
      (moveOf t t' cause i).or (moves.find? fun m => m.consent = i) := by
  have hlt := lt_of_getElem? hk
  have hfind : (deadlineMoves t t' cause).find? (fun m => m.consent = i) = moveOf t t' cause i :=
    find?_filterMap_key id (fun _ _ hm => (moveOf_eq_some hm).1)
      Function.injective_id (List.mem_range.mpr hlt)
  rw [List.find?_append, hfind]

/-- At most one move if no other consent is written. -/
theorem length_deadlineMoves_le {j : Nat} (h : ∀ i, i ≠ j → t'.consents[i]? = t.consents[i]?) :
    (deadlineMoves t t' cause).length ≤ 1 := by
  refine length_filterMap_le_one (a := j) List.nodup_range fun i _ hij => ?_
  cases hm : moveOf t t' cause i with
  | none => exact hm
  | some m =>
    obtain ⟨-, -, -, k, hk, -, hmoved⟩ := moveOf_eq_some hm
    rw [h i hij] at hk
    rw [hk] at hmoved
    exact absurd rfl hmoved

/-! ## What calls rely on -/

/-- A notice is due no later than this ahead of the clock. -/
def horizonMs : Int := maxLeadDays * dayMs

/-- The row of a notice as it was read: what it is about does not change, and what was kept stays
    kept. -/
def SameNotice (n n' : Notice) : Prop :=
  n'.consent_id = n.consent_id ∧ n'.due_at = n.due_at ∧ (n.kept_at.isSome → n'.kept_at.isSome)

theorem SameNotice.refl (n : Notice) : SameNotice n n := ⟨rfl, rfl, id⟩

theorem SameNotice.trans (a b c : Notice) (h : SameNotice a b) (h' : SameNotice b c) :
    SameNotice a c :=
  ⟨h'.1.trans h.1, h'.2.1.trans h.2.1, fun hkept => h'.2.2 (h.2.2 hkept)⟩

/-- Due dates up to the horizon stay aligned. -/
def KeepsAligned (clock : Date) (k k' : ConsentRow) : Prop :=
  ∀ due, due ≤ clock + horizonMs → Aligned k.deadline due → Aligned k'.deadline due

theorem KeepsAligned.of_eq {clock : Date} {k k' : ConsentRow} (h : k'.deadline = k.deadline) :
    KeepsAligned clock k k' := by
  intro due _ hdue
  rwa [h]

/-- What a step leaves as it was. -/
structure Later (s s' : ConsentState) : Prop where
  clock : s.clock ≤ s'.clock
  notices : Grows SameNotice s.store.notices s'.store.notices
  consents : Grows (KeepsAligned s.clock) s.store.consents s'.store.consents
  sends : ∀ d ∈ s.sends, d ∈ s'.sends

/-- A due date of a consent. -/
def DueOk (s : ConsentState) (consentId : Nat) (due : Date) : Prop :=
  due ≤ s.clock + horizonMs ∧
    ∃ k, s.store.consents[consentId]? = some k ∧ Aligned k.deadline due

/-- The notice at `place`, as it was read. -/
def NoticeIs (s : ConsentState) (place : Nat) (n : Notice) : Prop :=
  ∃ n', s.store.notices[place]? = some n' ∧ SameNotice n n'

/-- The notice at `place` was sent under `policy` before it was due. -/
def SentUnder (s : ConsentState) (place : Nat) (policy : NoticePolicy) (due : Date) : Prop :=
  ∃ d ∈ s.sends, d.place = place ∧ d.policy = policy ∧ d.clock < due

variable {s s' : ConsentState} {place : Nat} {n : Notice}

theorem DueOk.later {consentId : Nat} {due : Date} (h : DueOk s consentId due) (hs : Later s s') :
    DueOk s' consentId due := by
  obtain ⟨hdue, k, hk, haligned⟩ := h
  obtain ⟨k', hk', hkeeps⟩ := hs.consents _ k hk
  exact ⟨hdue.trans (Int.add_le_add_right hs.clock _), k', hk', hkeeps due hdue haligned⟩

theorem NoticeIs.later (h : NoticeIs s place n) (hs : Later s s') : NoticeIs s' place n := by
  obtain ⟨n', hn', hsame⟩ := h
  obtain ⟨n'', hn'', hsame'⟩ := hs.notices _ n' hn'
  exact ⟨n'', hn'', hsame.trans _ _ _ hsame'⟩

theorem SentUnder.later {policy : NoticePolicy} {due : Date} (h : SentUnder s place policy due)
    (hs : Later s s') : SentUnder s' place policy due := by
  obtain ⟨d, hd, hrest⟩ := h
  exact ⟨d, hs.sends d hd, hrest⟩

theorem Later.of_same (hclock : s.clock ≤ s'.clock) (hnotices : s'.store.notices = s.store.notices)
    (hconsents : s'.store.consents = s.store.consents) (hsends : ∀ d ∈ s.sends, d ∈ s'.sends) :
    Later s s' where
  clock := hclock
  notices := by
    rw [hnotices]
    exact .refl SameNotice.refl _
  consents := by
    rw [hconsents]
    exact .refl (fun _ => .of_eq rfl) _
  sends := hsends

/-! ## The right to an extension -/

/-- A deadline was moved by right: it came with a migrated consent; or a click on the link of a
    notice of the cycle moved it, in time, to a period from the click; or `renewDue` did by the
    period, for a notice of exactly the cycle that was sent under `keep` before it was due and had
    no bounce then. -/
def Lawful (s : ConsentState) (m : DeadlineMove) : Prop :=
  match m.cause with
  | .migrated => m.before = none
  | .kept place now => ∃ n k, s.store.notices[place]? = some n ∧ m.before = some k ∧
      n.consent_id = m.consent ∧ ConsentStore.isOfCycle k n = true ∧ now ≤ n.due_at + keepGraceMs ∧
        m.after = now + consentMaxAgeMs
  | .renewed place _ bounce => ∃ n k, s.store.notices[place]? = some n ∧ m.before = some k ∧
      n.consent_id = m.consent ∧ n.due_at = k.deadline ∧ m.after = k.deadline + consentMaxAgeMs ∧
        SentUnder s place .keep n.due_at ∧ bounce = none
  | .imported | .other => False

/-- The move is by the link of the notice at `place`. -/
def DeadlineMove.byLink (place : Nat) (m : DeadlineMove) : Bool :=
  match m.cause with
  | .kept p _ => p = place
  | _ => false

theorem Lawful.later (h : Lawful s m) (hs : Later s s') : Lawful s' m := by
  unfold Lawful at *
  split at h
  · exact h
  · obtain ⟨n, k, hn, hbefore, hconsent, hcycle, hnow, hafter⟩ := h
    obtain ⟨n', hn', hid, hdue, -⟩ := hs.notices _ n hn
    refine ⟨n', k, hn', hbefore, hid.trans hconsent, ?_, by rwa [hdue], hafter⟩
    unfold ConsentStore.isOfCycle at *
    rwa [hdue]
  · obtain ⟨n, k, hn, hbefore, hconsent, hexact, hafter, hsent, hbounce⟩ := h
    obtain ⟨n', hn', hid, hdue, -⟩ := hs.notices _ n hn
    refine ⟨n', k, hn', hbefore, hid.trans hconsent, hdue.trans hexact, hafter, ?_, hbounce⟩
    rw [hdue]
    exact hsent.later hs
  · cases h
  · cases h

end WorkflowBoard.Consents
