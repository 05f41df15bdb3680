import WorkflowBoard.Spec.EventReplay

/-!
# The notes that repeated events leave

A complaint about a notice is noted whenever it comes, also if it has come before. So the notes are
what the order of repeated events can be seen in.
-/

namespace WorkflowBoard.MailEvents

open Email (ContactStatus)
open Consents (BounceType ContactRow)

/-- The notes that are recorded on the notice at `place`, which has the bounce type `b` before:
    those of its complaints, and of each bounce that is harder than the last. -/
def recordedNotes (target : Delivery → Option Target) (place : Nat) :
    Option BounceType → List Delivery → List String
  | _, [] => []
  | b, d :: ds =>
      if target d = some (.notice place) then
        if d.event.undelivered then
          if bounceFrom d.event.bounceType b then
            d.event.detail :: recordedNotes target place (some d.event.bounceType) ds
          else recordedNotes target place b ds
        else if d.event.kind = .complaint then
          d.event.detail :: recordedNotes target place b ds
        else recordedNotes target place b ds
      else recordedNotes target place b ds

def lastNote (target : Delivery → Option Target) (place : Nat) (n : NoticeRow)
    (ds : List Delivery) : String :=
  (recordedNotes target place n.bounce_type ds).getLast?.getD n.event_note

/-- What an event leaves of its notice. -/
def NoticeRow.told (ev : ProviderEvent) (n : NoticeRow) : NoticeRow :=
  if ev.undelivered then n.bounce ev else if ev.kind = .complaint then n.noted ev else n

namespace EventStore

variable {emailHash : String → String} {t : EventStore} {place : Nat}

def target (emailHash : String → String) (t : EventStore) (d : Delivery) : Option Target :=
  t.keys.findTarget emailHash d.credential d.event

theorem suppressBy_notices (t : EventStore) (ev : ProviderEvent) (contact : Nat) (brandId : String)
    (now : Date) : (t.suppressBy ev contact brandId now).notices = t.notices := by
  unfold suppressBy
  split
  next =>
    unfold suppressContact
    split
    next => rfl
    next =>
      split
      next => split <;> rfl
      next => rfl
  next => rfl

theorem applySend_notices (t : EventStore) (ev : ProviderEvent) (place : Nat) (row : SendRow)
    (now : Date) : (t.applySend ev place row now).notices = t.notices := by
  have hbounce : (t.recordBounce ev place).notices = t.notices := by
    unfold recordBounce
    split <;> rfl
  have hcomplaint : ∀ t : EventStore, (t.recordComplaint ev place).notices = t.notices :=
    fun t => by
      unfold recordComplaint
      split <;> rfl
  have hevaluate : ∀ t : EventStore, (t.evaluateChannel row.channel_id now).notices = t.notices :=
    fun t => by
      unfold evaluateChannel
      split
      next => split <;> rfl
      next => rfl
  unfold applySend
  dsimp only
  split
  next => rw [hevaluate, suppressBy_notices, hcomplaint, hbounce]
  next => rw [suppressBy_notices, hcomplaint, hbounce]

theorem applyNotice_notices {row : NoticeRow} (hrow : t.notices[place]? = some row)
    (ev : ProviderEvent) (now : Date) :
    (t.applyNotice ev place row now).notices = t.notices.modify place (NoticeRow.told ev) := by
  rw [applyNotice, suppressBy_notices, recordOnNotice]
  have htold : ∀ f : NoticeRow → NoticeRow, row.told ev = f row →
      t.notices.modify place (NoticeRow.told ev) = t.notices.modify place f := fun f hf => by
    refine List.ext_getElem? fun i => ?_
    by_cases hi : place = i
    · subst hi
      rw [getElem?_modify_self hrow, getElem?_modify_self hrow, hf]
    · rw [getElem?_modify_other hi, getElem?_modify_other hi]
  split
  next hev => exact (htold _ (if_pos hev)).symm
  next hev =>
    split
    next hc => exact (htold _ ((if_neg hev).trans (if_pos hc.1))).symm
    next hc =>
      -- a complaint that is noted already, or none
      refine (modify_eq_self_of_fixed fun n hn => ?_).symm
      cases hrow.symm.trans hn
      rw [NoticeRow.told, if_neg hev]
      split
      next hkind =>
        have hnote : row.event_note = ev.detail := Decidable.not_not.mp fun hne => hc ⟨hkind, hne⟩
        rw [NoticeRow.noted, ← hnote]
      next => rfl

theorem deliver_notice {n : NoticeRow} (hn : t.notices[place]? = some n) (d : Delivery) :
    (t.deliver emailHash d).notices[place]? =
      some (if t.target emailHash d = some (.notice place) then n.told d.event else n) := by
  unfold deliver applyEvent target
  cases hfind : t.keys.findTarget emailHash d.credential d.event with
  | none => rw [if_neg nofun, ← hn]
  | some target =>
    cases target with
    | send i =>
      rw [if_neg nofun]
      dsimp only
      split
      next => rw [applySend_notices, hn]
      next => exact hn
    | notice i =>
      dsimp only
      by_cases hi : i = place
      · subst hi
        rw [hn, if_pos rfl]
        dsimp only
        rw [applyNotice_notices hn, getElem?_modify_self hn]
      · rw [if_neg fun h => hi (by cases h; rfl)]
        split
        next row hrow => rw [applyNotice_notices hrow, getElem?_modify_other hi, hn]
        next => exact hn

theorem lastNote_cons (target : Delivery → Option Target) (place : Nat) (n : NoticeRow)
    (d : Delivery) (ds : List Delivery) :
    lastNote target place n (d :: ds) =
      lastNote target place
        (if target d = some (.notice place) then n.told d.event else n) ds := by
  simp only [lastNote, recordedNotes]
  split
  next =>
    unfold NoticeRow.told
    split
    next =>
      unfold NoticeRow.bounce
      split
      next => rw [List.getLast?_cons, Option.getD_some]
      next => rfl
    next =>
      split
      next => rw [List.getLast?_cons, Option.getD_some]; rfl
      next => rfl
  next => rfl

theorem deliver_target (t : EventStore) (d : Delivery) :
    (t.deliver emailHash d).target emailHash = t.target emailHash := by
  unfold target
  rw [(t.deliver_later emailHash d).keys]

/-- The note on a notice is the last that is recorded, or the one it had. -/
theorem deliverAll_note (emailHash : String → String) {t : EventStore} {n : NoticeRow}
    (hn : t.notices[place]? = some n) (ds : List Delivery) :
    ∃ n', (t.deliverAll emailHash ds).notices[place]? = some n' ∧
      n'.event_note = lastNote (t.target emailHash) place n ds := by
  induction ds generalizing t n with
  | nil => exact ⟨n, hn, rfl⟩
  | cons d ds ih =>
    obtain ⟨n', hn', hnote⟩ := ih (deliver_notice hn d)
    refine ⟨n', hn', ?_⟩
    rw [hnote, lastNote_cons, deliver_target]

/-- Two stores that are the same up to notes are the same if the notes are. -/
theorem eq_of_bare {t t' : EventStore} (h : t.bare = t'.bare)
    (hnotes : ∀ (i : Nat) (n n' : NoticeRow), t.notices[i]? = some n → t'.notices[i]? = some n' →
      n.event_note = n'.event_note) : t = t' := by
  have hnotices : t.notices = t'.notices := by
    refine List.ext_getElem? fun i => ?_
    have hi := congrArg (·[i]?) (congrArg EventStore.notices h)
    simp only [bare, List.getElem?_map] at hi
    cases hn : t.notices[i]? with
    | none =>
      rw [hn] at hi
      exact (Option.map_eq_none_iff.mp hi.symm).symm
    | some n =>
      rw [hn] at hi
      obtain ⟨n', hn', hnn'⟩ := Option.map_eq_some_iff.mp hi.symm
      have hnote := hnotes i n n' hn hn'
      rw [hn']
      cases n
      cases n'
      simp_all [NoticeRow.bare]
  cases t
  cases t'
  simp only [bare, EventStore.mk.injEq] at h hnotices ⊢
  exact ⟨h.1, hnotices, h.2.2⟩

end EventStore

/-! ## The claim on repetitions -/

/-- A bounce for good is not replaced, and who has complained stays a complainer. -/
structure NotWeakened (t t' : EventStore) : Prop where
  sends : ∀ (i : Nat) (r : SendRow), t.sends[i]? = some r →
    r.bounce_type = some .hard ∨ r.bounce_type = some .suppressed →
    ∃ r', t'.sends[i]? = some r' ∧ r'.bounce_type = r.bounce_type
  notices : ∀ (i : Nat) (n : NoticeRow), t.notices[i]? = some n →
    n.bounce_type = some .hard ∨ n.bounce_type = some .suppressed →
    ∃ n', t'.notices[i]? = some n' ∧ n'.bounce_type = n.bounce_type
  contacts : ∀ (i : Nat) (c : ContactRow), t.contacts[i]? = some c → c.status = .complained →
    ∃ c', t'.contacts[i]? = some c' ∧ c'.status = .complained

/-- The rows are those of the sequence `es`, and nothing was weakened on the way to them. -/
def ReplaySafe (emailHash : String → String) (t : EventStore) (es ds : List Delivery) : Prop :=
  t.deliverAll emailHash ds = t.deliverAll emailHash es ∧
    ∀ before after, ds = before ++ after →
      NotWeakened (t.deliverAll emailHash before) (t.deliverAll emailHash ds)

theorem BounceKept.of_final {b b' : Option BounceType} (h : BounceKept b b')
    (hb : b = some .hard ∨ b = some .suppressed) : b' = b := by
  rcases h with rfl | ⟨rfl, -⟩ | h
  · rcases hb with hb | hb <;> cases hb
  · rcases hb with hb | hb <;> cases hb
  · exact h

theorem EventStore.Later.notWeakened {t t' : EventStore} (h : t.Later t') : NotWeakened t t' where
  sends i r hr hb := by
    obtain ⟨r', hr', hrr'⟩ := h.sends i r hr
    exact ⟨r', hr', hrr'.bounce.of_final hb⟩
  notices i n hn hb := by
    obtain ⟨n', hn', hnn'⟩ := h.notices i n hn
    exact ⟨n', hn', BounceKept.of_final hnn' hb⟩
  contacts i c hc hs := by
    obtain ⟨c', hc', -, hkept⟩ := h.contacts i c hc
    rw [hs] at hkept
    rcases hkept with hkept | ⟨hkept, -⟩ | hkept
    · cases hkept
    · cases hkept
    · exact ⟨c', hc', hkept⟩

namespace EventStore

/-- Repetitions leave no trace exactly if on each notice the last note is the one of the sequence
    without them. -/
theorem replay_iff {emailHash : String → String} {es ds : List Delivery}
    (h : Redelivered SameEvent es ds) (t : EventStore) :
    ReplaySafe emailHash t es ds ↔
      ∀ (place : Nat) (n : NoticeRow), t.notices[place]? = some n →
        lastNote (t.target emailHash) place n ds = lastNote (t.target emailHash) place n es := by
  constructor
  · rintro ⟨heq, -⟩ place n hn
    obtain ⟨n', hn', hnote⟩ := deliverAll_note emailHash hn ds
    obtain ⟨n'', hn'', hnote'⟩ := deliverAll_note emailHash hn es
    rw [heq] at hn'
    cases hn'.symm.trans hn''
    exact hnote.symm.trans hnote'
  · intro hnotes
    refine ⟨eq_of_bare (deliverAll_bare h t) fun i n n' hn hn' => ?_, fun before after hds => ?_⟩
    · obtain ⟨n₀, hn₀, -⟩ := (t.deliverAll_later emailHash ds).notice_back hn
      obtain ⟨m, hm, hnote⟩ := deliverAll_note emailHash hn₀ ds
      obtain ⟨m', hm', hnote'⟩ := deliverAll_note emailHash hn₀ es
      cases hn.symm.trans hm
      cases hn'.symm.trans hm'
      rw [hnote, hnote', hnotes i n₀ hn₀]
    · rw [hds, deliverAll, deliverAll, List.foldl_append]
      exact (deliverAll_later _ emailHash after).notWeakened

/-- A notice that was sent to the only contact. -/
def reminded : EventStore :=
  { contacts := [{ account_id := "shop", email := some "jo@mail.example", email_hash := "jo"
                   consent_at := 0, consent_method := "form", consent_source := "site"
                   unsubscribe_token := "u" }]
    notices := [{ id := "notice", contact_id := 0, brand_id := "brand", credential_id := "resend"
                  status := .sent, created_at := 0 }] }

def spamAt (now : Date) : Delivery :=
  { credential := "resend", now
    event :=
      { kind := .complaint, send_id := "notice", occurred_at := 1, detail := "spam complaint" } }

def fullAt (now : Date) : Delivery :=
  { credential := "resend", now
    event :=
      { kind := .softBounce, send_id := "notice", occurred_at := 2, detail := "mailbox full" } }

/-- A spam complaint that arrives twice. -/
theorem replay_iff_small :
    ReplaySafe id reminded [spamAt 1, fullAt 2] [spamAt 1, spamAt 3, fullAt 2] := by
  have h : Redelivered SameEvent [spamAt 1, fullAt 2] [spamAt 1, spamAt 3, fullAt 2] :=
    .first (fullAt 2) (.again (.first (spamAt 1) .nil) (List.mem_singleton.mpr rfl) ⟨rfl, rfl⟩)
  refine (replay_iff h reminded).mpr fun place n hn => ?_
  cases place with
  | zero =>
    cases hn
    decide +kernel
  | succ place => exact nomatch hn

/-- The complaint that comes again puts its note over that of the bounce. -/
theorem complaint_noted_again :
    ¬ ∀ (emailHash : String → String) (es ds : List Delivery) (t : EventStore),
      Redelivered SameEvent es ds → ReplaySafe emailHash t es ds := by
  intro hall
  have h : Redelivered SameEvent [spamAt 1, fullAt 2] [spamAt 1, fullAt 2, spamAt 3] :=
    .again (.first (fullAt 2) (.first (spamAt 1) .nil)) List.mem_cons_self ⟨rfl, rfl⟩
  have hnotes := congrArg (fun t => t.notices.map (·.event_note)) (hall id _ _ reminded h).1
  revert hnotes
  decide +kernel

end EventStore

end WorkflowBoard.MailEvents
