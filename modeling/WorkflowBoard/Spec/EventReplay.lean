import WorkflowBoard.ForStd.Grows
import WorkflowBoard.ForStd.Redelivery
import WorkflowBoard.Native.MailEvents

/-!
# Events that a provider sends again

A repeated event finds what its first delivery has recorded. Only a note on a notice can change.
-/

namespace WorkflowBoard.MailEvents

open Email (ContactStatus)
open Consents (BounceType ContactRow ConsentRow suppressFrom)

/-! ## Nothing is weakened -/

/-- A bounce is replaced only by a harder one. -/
def BounceKept (b b' : Option BounceType) : Prop :=
  b = none ∨ (b = some .soft ∧ b' ≠ none) ∨ b' = b

/-- A suppression is replaced only by a complaint, and that only for a bounce. -/
def StatusKept (s s' : ContactStatus) : Prop :=
  s = .subscribed ∨ (s = .bounced ∧ s' = .complained) ∨ s' = s

theorem BounceKept.trans {a b c : Option BounceType} (h : BounceKept a b) (h' : BounceKept b c) :
    BounceKept a c := by
  simp only [BounceKept] at *
  grind

theorem StatusKept.trans {a b c : ContactStatus} (h : StatusKept a b) (h' : StatusKept b c) :
    StatusKept a c := by
  simp only [StatusKept] at *
  grind

/-- What a bounce no longer replaces, it never does again. -/
theorem BounceKept.refused {b b' : Option BounceType} (h : BounceKept b b') {type : BounceType}
    (hb : bounceFrom type b = false) : bounceFrom type b' = false := by
  rcases h with rfl | ⟨rfl, h⟩ | rfl
  · cases type <;> simp [bounceFrom] at hb
  · cases type <;> simp_all [bounceFrom]
  · exact hb

/-- What a suppression no longer replaces, it never does again. -/
theorem StatusKept.refused {s s' : ContactStatus} (h : StatusKept s s') {status : ContactStatus}
    (hs : suppressFrom status s = false) : suppressFrom status s' = false := by
  rcases h with rfl | ⟨rfl, rfl⟩ | rfl
  · cases status <;> simp_all [suppressFrom]
  · cases status <;> simp_all [suppressFrom]
  · exact hs

structure SendRow.Later (r r' : SendRow) : Prop where
  bounce : BounceKept r.bounce_type r'.bounce_type
  complained : r.complained_at.isSome → r'.complained_at = r.complained_at

def NoticeRow.Later (n n' : NoticeRow) : Prop := BounceKept n.bounce_type n'.bounce_type

def ContactRow.Later (c c' : ContactRow) : Prop :=
  c'.account_id = c.account_id ∧ StatusKept c.status c'.status

def ConsentRow.Later (k k' : ConsentRow) : Prop := StatusKept k.status k'.status

/-- What a search for a consent reads of it. -/
def consentKey (k : ConsentRow) : Nat × String × String := (k.contact_id, k.account_id, k.brand_id)

namespace EventStore

structure Later (t t' : EventStore) : Prop where
  keys : t'.keys = t.keys
  consentKeys : t'.consents.map consentKey = t.consents.map consentKey
  sends : Grows SendRow.Later t.sends t'.sends
  notices : Grows NoticeRow.Later t.notices t'.notices
  contacts : Grows ContactRow.Later t.contacts t'.contacts
  consents : Grows ConsentRow.Later t.consents t'.consents

end EventStore

theorem SendRow.Later.refl (r : SendRow) : SendRow.Later r r := ⟨.inr (.inr rfl), fun _ => rfl⟩

theorem SendRow.Later.trans (a b c : SendRow) (h : SendRow.Later a b) (h' : SendRow.Later b c) :
    SendRow.Later a c := by
  refine ⟨h.bounce.trans h'.bounce, fun ha => ?_⟩
  have hb := h.complained ha
  exact (h'.complained (hb ▸ ha)).trans hb

theorem NoticeRow.Later.refl (n : NoticeRow) : NoticeRow.Later n n := .inr (.inr rfl)

theorem ContactRow.Later.refl (c : ContactRow) : ContactRow.Later c c := ⟨rfl, .inr (.inr rfl)⟩

theorem ConsentRow.Later.refl (k : ConsentRow) : ConsentRow.Later k k := .inr (.inr rfl)

namespace EventStore

variable {t t' t'' : EventStore}

theorem Later.refl (t : EventStore) : t.Later t :=
  ⟨rfl, rfl, .refl SendRow.Later.refl _, .refl NoticeRow.Later.refl _,
    .refl ContactRow.Later.refl _, .refl ConsentRow.Later.refl _⟩

theorem Later.trans (h : t.Later t') (h' : t'.Later t'') : t.Later t'' where
  keys := h'.keys.trans h.keys
  consentKeys := h'.consentKeys.trans h.consentKeys
  sends := h.sends.trans SendRow.Later.trans h'.sends
  notices := h.notices.trans (fun _ _ _ => BounceKept.trans) h'.notices
  contacts := h.contacts.trans (fun _ _ _ a b => ⟨b.1.trans a.1, a.2.trans b.2⟩) h'.contacts
  consents := h.consents.trans (fun _ _ _ => StatusKept.trans) h'.consents

end EventStore

/-! ## What a write leaves -/

variable {ev : ProviderEvent}

@[simp] theorem SendRow.bounce_toSendKey (r : SendRow) : (r.bounce ev).toSendKey = r.toSendKey := by
  unfold SendRow.bounce
  split <;> rfl

@[simp] theorem SendRow.complain_toSendKey (r : SendRow) :
    (r.complain ev).toSendKey = r.toSendKey := by
  unfold SendRow.complain
  split <;> rfl

@[simp] theorem NoticeRow.bounce_toNoticeKey (n : NoticeRow) :
    (n.bounce ev).toNoticeKey = n.toNoticeKey := by
  unfold NoticeRow.bounce
  split <;> rfl

theorem bounceKept_of_from {type : BounceType} {b : Option BounceType}
    (h : bounceFrom type b = true) : BounceKept b (some type) := by
  cases b with
  | none => exact .inl rfl
  | some b => cases type <;> cases b <;> simp_all [bounceFrom, BounceKept]

theorem statusKept_of_from {status s : ContactStatus} (h : suppressFrom status s = true) :
    StatusKept s status := by
  cases status <;> cases s <;> simp_all [suppressFrom, StatusKept]

theorem SendRow.later_bounce (r : SendRow) : SendRow.Later r (r.bounce ev) := by
  unfold SendRow.bounce
  split
  next h => exact ⟨bounceKept_of_from h, fun _ => rfl⟩
  next => exact .refl r

theorem SendRow.later_complain (r : SendRow) : SendRow.Later r (r.complain ev) := by
  unfold SendRow.complain
  split
  next h => exact ⟨.inr (.inr rfl), fun hsome => by rw [h] at hsome; cases hsome⟩
  next => exact .refl r

theorem NoticeRow.later_bounce (n : NoticeRow) : NoticeRow.Later n (n.bounce ev) := by
  unfold NoticeRow.bounce
  split
  next h => exact bounceKept_of_from h
  next => exact .refl n

theorem ContactRow.later_suppress (status : ContactStatus) (source : String) (now : Date)
    (c : ContactRow) : ContactRow.Later c (ContactRow.suppress status source now c) := by
  unfold ContactRow.suppress
  split
  next h => exact ⟨rfl, statusKept_of_from h⟩
  next => exact .refl c

theorem ConsentRow.later_suppress (status : ContactStatus) (source : String) (now : Date)
    (k : ConsentRow) : ConsentRow.Later k (ConsentRow.suppress status source now k) := by
  unfold ConsentRow.suppress
  split
  next h => exact statusKept_of_from h
  next => exact .refl k

namespace EventStore

variable (t : EventStore) (place : Nat)

theorem later_recordBounce : t.Later (t.recordBounce ev place) := by
  unfold recordBounce
  split
  next =>
    exact { Later.refl t with
      keys := by
        simp only [keys, map_modify_of_eq (f := SendRow.toSendKey) SendRow.bounce_toSendKey]
      sends := .modify SendRow.Later.refl fun r _ => r.later_bounce }
  next => exact .refl t

theorem later_recordComplaint : t.Later (t.recordComplaint ev place) := by
  unfold recordComplaint
  split
  next =>
    exact { Later.refl t with
      keys := by
        simp only [keys, map_modify_of_eq (f := SendRow.toSendKey) SendRow.complain_toSendKey]
      sends := .modify SendRow.Later.refl fun r _ => r.later_complain }
  next => exact .refl t

theorem later_recordOnNotice (row : NoticeRow) : t.Later (t.recordOnNotice ev place row) := by
  unfold recordOnNotice
  split
  next =>
    exact { Later.refl t with
      keys := by
        simp only [keys, map_modify_of_eq (f := NoticeRow.toNoticeKey) NoticeRow.bounce_toNoticeKey]
      notices := .modify NoticeRow.Later.refl fun n _ => n.later_bounce }
  next =>
    split
    next =>
      exact { Later.refl t with
        keys := by
          simp only [keys, map_modify_of_eq (f := NoticeRow.toNoticeKey) (g := NoticeRow.noted ev)
            fun _ => rfl]
        notices := .modify NoticeRow.Later.refl fun n _ => .refl n }
    next => exact .refl t

theorem later_suppressContact (contact : Nat) (status : ContactStatus) (source brandId : String)
    (now : Date) : t.Later (t.suppressContact contact status source brandId now) := by
  have hhash : ∀ c : ContactRow,
      (ContactRow.suppress status source now c).email_hash = c.email_hash := fun c => by
    unfold ContactRow.suppress
    split <;> rfl
  have hkey : ∀ k : ConsentRow, consentKey (ConsentRow.suppress status source now k) =
      consentKey k := fun k => by
    unfold ConsentRow.suppress
    split <;> rfl
  unfold suppressContact
  split
  next => exact .refl t
  next c hc =>
    split
    next =>
      split
      next => exact .refl t
      next i hi =>
        exact { Later.refl t with
          consentKeys := map_modify_of_eq hkey
          consents := .modify ConsentRow.Later.refl fun k _ =>
            ConsentRow.later_suppress status source now k }
    next =>
      exact { Later.refl t with
        keys := by simp only [keys, map_modify_of_eq hhash]
        contacts := .modify ContactRow.Later.refl fun c _ =>
          ContactRow.later_suppress status source now c }

/-- Neither the contact nor its consent is suppressed less. -/
theorem later_suppressBy (contact : Nat) (brandId : String) (now : Date) :
    t.Later (t.suppressBy ev contact brandId now) := by
  unfold suppressBy
  split
  next => exact t.later_suppressContact ..
  next => exact .refl t

theorem later_evaluateChannel (channel : Nat) (now : Date) :
    t.Later (t.evaluateChannel channel now) := by
  unfold evaluateChannel
  split
  next =>
    split
    next => exact .refl t
    next => exact { Later.refl t with }
  next => exact .refl t

variable (ev) in
/-- What is evaluated after the writes leaves the rows as they are. -/
theorem applySend_after (row : SendRow) (now : Date) :
    (((t.recordBounce ev place).recordComplaint ev place).suppressBy ev row.contact_id row.brand_id
      now).Later (t.applySend ev place row now) := by
  unfold applySend
  dsimp only
  split
  next => exact later_evaluateChannel ..
  next => exact .refl _

/-- An event about a send weakens nothing. -/
theorem later_applySend (row : SendRow) (now : Date) : t.Later (t.applySend ev place row now) :=
  (((t.later_recordBounce place).trans (later_recordComplaint ..)).trans
  (later_suppressBy ..)).trans
    (t.applySend_after ev place row now)

/-- An event about a notice weakens nothing. -/
theorem later_applyNotice (row : NoticeRow) (now : Date) :
    t.Later (t.applyNotice ev place row now) :=
  (t.later_recordOnNotice place row).trans (later_suppressBy ..)

/-- No event weakens what an earlier one has recorded. -/
theorem deliver_later (emailHash : String → String) (d : Delivery) :
    t.Later (t.deliver emailHash d) := by
  unfold deliver applyEvent
  split
  next =>
    split
    next => exact t.later_applySend ..
    next => exact .refl t
  next =>
    split
    next => exact t.later_applyNotice ..
    next => exact .refl t
  next => exact .refl t

/-- Nor does a list of events. -/
theorem deliverAll_later (emailHash : String → String) (ds : List Delivery) :
    t.Later (t.deliverAll emailHash ds) := by
  induction ds generalizing t with
  | nil => exact .refl t
  | cons d ds ih => exact (t.deliver_later emailHash d).trans (ih _)

end EventStore

/-! ## Settled events -/

namespace EventStore

section Facts

variable (t : EventStore) (ev : ProviderEvent) (place : Nat)

def BounceRefused : Prop :=
  ev.undelivered → ∀ row, t.sends[place]? = some row →
    bounceFrom ev.bounceType row.bounce_type = false

def ComplaintRefused : Prop :=
  ev.kind = .complaint → ev.repeated = false → ∀ row, t.sends[place]? = some row →
    row.complained_at.isSome

def NoticeBounceRefused : Prop :=
  ev.undelivered → ∀ row, t.notices[place]? = some row →
    bounceFrom ev.bounceType row.bounce_type = false

/-- The contact, or its consent, does not follow the event any more. -/
def Suppressed (contact : Nat) (brandId : String) : Prop :=
  ∀ status c, ev.contactStatus = some status → t.contacts[contact]? = some c →
    if status = .unsubscribed ∧ brandId ≠ "" then
      ∀ i k, t.consentOf contact c.account_id brandId = some i → t.consents[i]? = some k →
        suppressFrom status k.status = false
    else suppressFrom status c.status = false

end Facts

def Settled (emailHash : String → String) (d : Delivery) (t : EventStore) : Prop :=
  match t.keys.findTarget emailHash d.credential d.event with
  | some (.send place) =>
      t.BounceRefused d.event place ∧ t.ComplaintRefused d.event place ∧
        ∀ row, t.sends[place]? = some row → t.Suppressed d.event row.contact_id row.brand_id
  | some (.notice place) =>
      t.NoticeBounceRefused d.event place ∧
        ∀ row, t.notices[place]? = some row → t.Suppressed d.event row.contact_id row.brand_id
  | none => True

section Stays

variable {t t' : EventStore} {place : Nat}

theorem Later.send_back (h : t.Later t') {r' : SendRow} (hr' : t'.sends[place]? = some r') :
    ∃ r, t.sends[place]? = some r ∧ SendRow.Later r r' ∧ r'.toSendKey = r.toSendKey :=
  h.sends.back (congrArg EventKeys.sends h.keys) hr'

theorem Later.notice_back (h : t.Later t') {n' : NoticeRow} (hn' : t'.notices[place]? = some n') :
    ∃ n, t.notices[place]? = some n ∧ NoticeRow.Later n n' ∧ n'.toNoticeKey = n.toNoticeKey :=
  h.notices.back (congrArg EventKeys.notices h.keys) hn'

theorem consentOf_eq (t : EventStore) (contact : Nat) (accountId brandId : String) :
    t.consentOf contact accountId brandId =
      (t.consents.map consentKey).findIdx? (· = (contact, accountId, brandId)) := by
  rw [consentOf, List.findIdx?_map]
  congr 1
  funext k
  simp [consentKey, Bool.and_assoc]

theorem BounceRefused.stay (hl : t.Later t') (h : t.BounceRefused ev place) :
    t'.BounceRefused ev place := by
  intro hev r' hr'
  obtain ⟨r, hr, hrr', -⟩ := hl.send_back hr'
  exact hrr'.bounce.refused (h hev r hr)

theorem ComplaintRefused.stay (hl : t.Later t') (h : t.ComplaintRefused ev place) :
    t'.ComplaintRefused ev place := by
  intro hkind hrep r' hr'
  obtain ⟨r, hr, hrr', -⟩ := hl.send_back hr'
  have hsome := h hkind hrep r hr
  exact hrr'.complained hsome ▸ hsome

theorem NoticeBounceRefused.stay (hl : t.Later t') (h : t.NoticeBounceRefused ev place) :
    t'.NoticeBounceRefused ev place := by
  intro hev n' hn'
  obtain ⟨n, hn, hnn', -⟩ := hl.notice_back hn'
  exact BounceKept.refused hnn' (h hev n hn)

theorem Suppressed.stay (hl : t.Later t') {contact : Nat} {brandId : String}
    (h : t.Suppressed ev contact brandId) : t'.Suppressed ev contact brandId := by
  intro status c' hstatus hc'
  obtain ⟨c, hc, hcc', -⟩ := hl.contacts.back (congrArg EventKeys.contacts hl.keys) hc'
  have hsup := h status c hstatus hc
  split
  next hscoped =>
    rw [if_pos hscoped] at hsup
    intro i k' hi hk'
    rw [consentOf_eq, hl.consentKeys, hcc'.1, ← consentOf_eq] at hi
    obtain ⟨k, hk, hkk', -⟩ := hl.consents.back hl.consentKeys hk'
    exact StatusKept.refused hkk' (hsup i k hi hk)
  next hscoped =>
    rw [if_neg hscoped] at hsup
    exact hcc'.2.refused hsup

/-- What has settled stays settled, whatever comes behind it. -/
theorem Settled.stay {emailHash : String → String} {d : Delivery} (hl : t.Later t')
    (h : Settled emailHash d t) : Settled emailHash d t' := by
  unfold Settled at *
  rw [hl.keys]
  split
  next place hfind =>
    rw [hfind] at h
    refine ⟨h.1.stay hl, h.2.1.stay hl, fun r' hr' => ?_⟩
    obtain ⟨r, hr, -, hkey⟩ := hl.send_back hr'
    have hsup := (h.2.2 r hr).stay hl
    rwa [← congrArg SendKey.contact_id hkey, ← congrArg SendKey.brand_id hkey] at hsup
  next place hfind =>
    rw [hfind] at h
    refine ⟨h.1.stay hl, fun n' hn' => ?_⟩
    obtain ⟨n, hn, -, hkey⟩ := hl.notice_back hn'
    have hsup := (h.2 n hn).stay hl
    rwa [← congrArg NoticeKey.contact_id hkey, ← congrArg NoticeKey.brand_id hkey] at hsup
  next => trivial

end Stays

/-! ## An event settles -/

section Settling

variable (t : EventStore) (place : Nat)

/-- A row that has bounced refuses the same bounce. -/
theorem bounce_refused (r : SendRow) :
    bounceFrom ev.bounceType (r.bounce ev).bounce_type = false := by
  unfold SendRow.bounce
  split
  next => cases ev.bounceType <;> rfl
  next h => exact Bool.eq_false_iff.mpr h

theorem recordBounce_refused : (t.recordBounce ev place).BounceRefused ev place := by
  intro hev r' hr'
  rw [recordBounce, if_pos hev] at hr'
  obtain ⟨-, r, -, rfl⟩ | ⟨hne, -⟩ := getElem?_modify_cases hr'
  · exact bounce_refused r
  · exact absurd rfl hne

theorem recordComplaint_refused : (t.recordComplaint ev place).ComplaintRefused ev place := by
  intro hkind hrep r' hr'
  rw [recordComplaint, if_pos ⟨hkind, hrep⟩] at hr'
  obtain ⟨-, r, -, rfl⟩ | ⟨hne, -⟩ := getElem?_modify_cases hr'
  · unfold SendRow.complain
    split
    next => rfl
    next h => exact Option.isSome_iff_ne_none.mpr h
  · exact absurd rfl hne

theorem recordOnNotice_refused (row : NoticeRow) :
    (t.recordOnNotice ev place row).NoticeBounceRefused ev place := by
  intro hev n' hn'
  rw [recordOnNotice, if_pos hev] at hn'
  obtain ⟨-, n, -, rfl⟩ | ⟨hne, -⟩ := getElem?_modify_cases hn'
  · unfold NoticeRow.bounce
    split
    next => cases ev.bounceType <;> rfl
    next h => exact Bool.eq_false_iff.mpr h
  · exact absurd rfl hne

theorem suppressFrom_self (status : ContactStatus) : suppressFrom status status = false := by
  cases status <;> rfl

/-- A suppressed contact does not follow the event again. -/
theorem suppressBy_suppressed (contact : Nat) (brandId : String) (now : Date) :
    (t.suppressBy ev contact brandId now).Suppressed ev contact brandId := by
  intro status c' hstatus hc'
  rw [suppressBy, hstatus] at hc' ⊢
  dsimp only [suppressContact] at hc' ⊢
  cases hc : t.contacts[contact]? with
  | none =>
    rw [hc] at hc'
    dsimp only at hc'
    rw [hc] at hc'
    cases hc'
  | some c =>
    rw [hc] at hc'
    dsimp only at hc' ⊢
    split
    next hscoped =>
      rw [if_pos hscoped] at hc'
      intro i k' hi hk'
      cases hfound : t.consentOf contact c.account_id brandId with
      | none =>
        rw [hfound] at hc' hi hk'
        cases hc.symm.trans hc'
        rw [hfound] at hi
        cases hi
      | some j =>
        rw [hfound] at hc' hi hk'
        cases hc.symm.trans hc'
        have hij : i = j := by
          rw [consentOf_eq] at hi hfound
          dsimp only at hi
          rw [map_modify_of_eq (f := consentKey) fun k => by
            unfold ConsentRow.suppress
            split <;> rfl, hfound] at hi
          exact (Option.some.inj hi).symm
        subst hij
        obtain ⟨-, k, -, rfl⟩ | ⟨hne, -⟩ := getElem?_modify_cases hk'
        · unfold ConsentRow.suppress
          split
          next => exact suppressFrom_self status
          next h => exact Bool.eq_false_iff.mpr h
        · exact absurd rfl hne
    next hscoped =>
      rw [if_neg hscoped] at hc'
      obtain ⟨-, c, -, rfl⟩ | ⟨hne, -⟩ := getElem?_modify_cases hc'
      · unfold ContactRow.suppress
        split
        next => exact suppressFrom_self status
        next h => exact Bool.eq_false_iff.mpr h
      · exact absurd rfl hne

/-- A delivery settles its own event. -/
theorem deliver_settled (emailHash : String → String) (d : Delivery) :
    Settled emailHash d (t.deliver emailHash d) := by
  have hl := t.deliver_later emailHash d
  unfold Settled
  rw [hl.keys]
  split
  next place hfind =>
    cases hrow : t.sends[place]? with
    | none =>
      have hnone : ∀ r', (t.deliver emailHash d).sends[place]? ≠ some r' := fun r' hr' => by
        obtain ⟨r, hr, -⟩ := hl.send_back hr'
        rw [hrow] at hr
        cases hr
      exact ⟨fun _ r' hr' => absurd hr' (hnone r'), fun _ _ r' hr' => absurd hr' (hnone r'),
        fun r' hr' => absurd hr' (hnone r')⟩
    | some row =>
      have hdeliver : t.deliver emailHash d = t.applySend d.event place row d.now := by
        rw [deliver, applyEvent, hfind]
        dsimp only
        rw [hrow]
      rw [hdeliver] at hl ⊢
      have hafter := t.applySend_after d.event place row d.now
      refine ⟨(t.recordBounce_refused place).stay
          (((later_recordComplaint ..).trans (later_suppressBy ..)).trans hafter),
        (recordComplaint_refused _ place).stay ((later_suppressBy ..).trans hafter),
        fun r' hr' => ?_⟩
      obtain ⟨r, hr, -, hkey⟩ := hl.send_back hr'
      cases hrow.symm.trans hr
      rw [congrArg SendKey.contact_id hkey, congrArg SendKey.brand_id hkey]
      exact (suppressBy_suppressed _ _ _ _).stay hafter
  next place hfind =>
    cases hrow : t.notices[place]? with
    | none =>
      have hnone : ∀ n', (t.deliver emailHash d).notices[place]? ≠ some n' := fun n' hn' => by
        obtain ⟨n, hn, -⟩ := hl.notice_back hn'
        rw [hrow] at hn
        cases hn
      exact ⟨fun _ n' hn' => absurd hn' (hnone n'), fun n' hn' => absurd hn' (hnone n')⟩
    | some row =>
      have hdeliver : t.deliver emailHash d = t.applyNotice d.event place row d.now := by
        rw [deliver, applyEvent, hfind]
        dsimp only
        rw [hrow]
      rw [hdeliver] at hl ⊢
      refine ⟨(t.recordOnNotice_refused place row).stay (later_suppressBy ..), fun n' hn' => ?_⟩
      obtain ⟨n, hn, -, hkey⟩ := hl.notice_back hn'
      cases hrow.symm.trans hn
      rw [congrArg NoticeKey.contact_id hkey, congrArg NoticeKey.brand_id hkey]
      exact suppressBy_suppressed _ _ _ _
  next => trivial

end Settling

end EventStore

/-! ## Up to the notes on notices -/

def NoticeRow.bare (n : NoticeRow) : NoticeRow := { n with event_note := "" }

namespace EventStore

section Bare

variable (t : EventStore) (place : Nat)

/-- Without the notes on notices. -/
def bare : EventStore := { t with notices := t.notices.map NoticeRow.bare }

@[simp] theorem bare_bare : t.bare.bare = t.bare := by
  simp only [bare, List.map_map]
  rfl

theorem bare_keys : t.bare.keys = t.keys := by
  simp only [bare, keys, List.map_map]
  rfl

theorem suppressBy_bare (contact : Nat) (brandId : String) (now : Date) :
    (t.suppressBy ev contact brandId now).bare = t.bare.suppressBy ev contact brandId now := by
  unfold suppressBy
  split
  next =>
    unfold suppressContact
    rw [show t.bare.contacts = t.contacts from rfl]
    split
    next => rfl
    next c =>
      split
      next =>
        rw [show t.bare.consentOf = t.consentOf from rfl]
        split <;> rfl
      next => rfl
  next => rfl

/-- What an event does to a send does not depend on the notes. -/
theorem applySend_bare (row : SendRow) (now : Date) :
    (t.applySend ev place row now).bare = t.bare.applySend ev place row now := by
  have hbounce : (t.recordBounce ev place).bare = t.bare.recordBounce ev place := by
    unfold recordBounce
    split <;> rfl
  have hcomplaint : ∀ t : EventStore,
      (t.recordComplaint ev place).bare = t.bare.recordComplaint ev place := fun t => by
    unfold recordComplaint
    split <;> rfl
  have hevaluate : ∀ t : EventStore,
      (t.evaluateChannel row.channel_id now).bare = t.bare.evaluateChannel row.channel_id now :=
    fun t => by
      unfold evaluateChannel
      rw [show t.bare.channels = t.channels from rfl]
      split
      next => split <;> rfl
      next => rfl
  unfold applySend
  dsimp only
  rw [← hbounce, ← hcomplaint, ← suppressBy_bare]
  split
  next => exact hevaluate _
  next => rfl

variable (ev) in
/-- A note is not seen, so it does not matter which one the notice had. -/
theorem recordOnNotice_bare (row : NoticeRow) :
    (t.recordOnNotice ev place row).bare =
      if ev.undelivered then
        { t.bare with notices := t.bare.notices.modify place fun n => (n.bounce ev).bare }
      else t.bare := by
  have hbare : ∀ f g : NoticeRow → NoticeRow, (∀ n, (f n).bare = g n.bare) →
      (t.notices.modify place f).map NoticeRow.bare =
      (t.notices.map NoticeRow.bare).modify place g :=
    fun f g hfg => by
      refine List.ext_getElem? fun i => ?_
      rw [List.getElem?_map, List.getElem?_modify, List.getElem?_modify, List.getElem?_map]
      cases t.notices[i]? with
      | none => rfl
      | some n =>
        by_cases hi : place = i
        · simp [hi, hfg]
        · simp [hi]
  unfold recordOnNotice
  split
  next =>
    simp only [bare]
    congr 1
    refine hbare _ _ fun n => ?_
    unfold NoticeRow.bounce NoticeRow.bare
    dsimp only
    split <;> rfl
  next =>
    split
    next =>
      simp only [bare]
      congr 1
      rw [hbare (NoticeRow.noted ev) id fun n => rfl]
      exact modify_eq_self_of_fixed fun _ _ => rfl
    next => rfl

theorem applyNotice_bare (row row' : NoticeRow) (hkey : row'.toNoticeKey = row.toNoticeKey)
    (now : Date) :
    (t.applyNotice ev place row now).bare = (t.bare.applyNotice ev place row' now).bare := by
  unfold applyNotice
  rw [suppressBy_bare, suppressBy_bare, recordOnNotice_bare, recordOnNotice_bare, bare_bare,
    congrArg NoticeKey.contact_id hkey, congrArg NoticeKey.brand_id hkey]

/-- What an event does does not depend on the notes. -/
theorem deliver_bare (emailHash : String → String) (d : Delivery) :
    (t.deliver emailHash d).bare = (t.bare.deliver emailHash d).bare := by
  unfold deliver applyEvent
  rw [bare_keys]
  split
  next place _ =>
    rw [show t.bare.sends = t.sends from rfl]
    split
    next row _ => rw [applySend_bare, applySend_bare, bare_bare]
    next => rw [bare_bare]
  next place _ =>
    rw [show t.bare.notices[place]? = t.notices[place]?.map NoticeRow.bare from List.getElem?_map]
    cases t.notices[place]? with
    | none => exact (bare_bare t).symm
    | some row => exact t.applyNotice_bare place row row.bare rfl d.now
  next => rw [bare_bare]

end Bare

/-! ## A settled event changes nothing more -/

section Absorbed

variable {t : EventStore} {place : Nat}

theorem Suppressed.suppressBy_eq {contact : Nat} {brandId : String}
    (h : t.Suppressed ev contact brandId) (now : Date) :
    t.suppressBy ev contact brandId now = t := by
  unfold suppressBy
  split
  next status hstatus =>
    unfold suppressContact
    split
    next => rfl
    next c hc =>
      have hsup := h status c hstatus hc
      split
      next hscoped =>
        rw [if_pos hscoped] at hsup
        split
        next => rfl
        next i hi =>
          have hfixed : t.consents.modify i (ConsentRow.suppress status ev.source now) =
              t.consents := modify_eq_self_of_fixed fun k hk => by
            rw [ConsentRow.suppress, if_neg (Bool.eq_false_iff.mp (hsup i k hi hk))]
          rw [hfixed]
      next hscoped =>
        rw [if_neg hscoped] at hsup
        have hfixed : t.contacts.modify contact (ContactRow.suppress status ev.source now) =
            t.contacts := modify_eq_self_of_fixed fun c' hc' => by
          cases hc.symm.trans hc'
          rw [ContactRow.suppress, if_neg (Bool.eq_false_iff.mp hsup)]
        rw [hfixed]
  next => rfl

/-- A settled event changes nothing of a send. -/
theorem applySend_settled (hb : t.BounceRefused ev place) (hc : t.ComplaintRefused ev place)
    {row : SendRow} (hrow : t.sends[place]? = some row)
    (hs : t.Suppressed ev row.contact_id row.brand_id) (now : Date) :
    t.applySend ev place row now = t := by
  have hbounce : t.recordBounce ev place = t := by
    unfold recordBounce
    split
    next hev =>
      rw [modify_eq_self_of_fixed fun r hr => ?_]
      rw [SendRow.bounce, if_neg (Bool.eq_false_iff.mp (hb hev r hr))]
    next => rfl
  have hcomplaint : t.recordComplaint ev place = t := by
    unfold recordComplaint
    split
    next hev =>
      rw [modify_eq_self_of_fixed fun r hr => ?_]
      rw [SendRow.complain, if_neg (Option.isSome_iff_ne_none.mp (hc hev.1 hev.2 r hr))]
    next => rfl
  have hquiet : ¬ ((ev.kind = .complaint && !ev.repeated && row.complained_at = none) ||
      ((ev.undelivered && bounceFrom ev.bounceType row.bounce_type) && ev.kind = .bounce &&
        !ev.repeated)) = true := by
    simp only [Bool.or_eq_true, Bool.and_eq_true, decide_eq_true_eq, Bool.not_eq_true']
    rintro (⟨⟨hkind, hrep⟩, hnone⟩ | ⟨⟨⟨hev, hfrom⟩, -⟩, -⟩)
    · have hsome := hc hkind hrep row hrow
      rw [hnone] at hsome
      cases hsome
    · rw [hb hev row hrow] at hfrom
      cases hfrom
  unfold applySend
  dsimp only
  rw [hbounce, hcomplaint, hs.suppressBy_eq, if_neg hquiet]

/-- A settled event changes at most the note of a notice. -/
theorem applyNotice_settled (hb : t.NoticeBounceRefused ev place) {row : NoticeRow}
    (hs : t.Suppressed ev row.contact_id row.brand_id) (now : Date) :
    (t.applyNotice ev place row now).bare = t.bare := by
  have hnotice : (t.recordOnNotice ev place row).bare = t.bare := by
    unfold recordOnNotice
    split
    next hev =>
      rw [modify_eq_self_of_fixed fun n hn => ?_]
      rw [NoticeRow.bounce, if_neg (Bool.eq_false_iff.mp (hb hev n hn))]
    next hev =>
      have := t.recordOnNotice_bare ev place row
      rwa [if_neg hev, recordOnNotice, if_neg hev] at this
  rw [applyNotice, suppressBy_bare, hnotice, ← suppressBy_bare, hs.suppressBy_eq]

end Absorbed

/-- A delivery of the same event to the same webhook. -/
def SameEvent (d d' : Delivery) : Prop := d'.credential = d.credential ∧ d'.event = d.event

variable {emailHash : String → String}

/-- A repeated event finds everything recorded but the notes. -/
theorem deliver_absorbed {t : EventStore} {d d' : Delivery}
    (h : Settled emailHash d t) (hsame : SameEvent d d') :
    (t.deliver emailHash d').bare = t.bare := by
  unfold deliver applyEvent
  rw [hsame.1, hsame.2]
  unfold Settled at h
  split
  next place hfind =>
    rw [hfind] at h
    split
    next row hrow => rw [applySend_settled h.1 h.2.1 hrow (h.2.2 row hrow)]
    next => rfl
  next place hfind =>
    rw [hfind] at h
    split
    next row hrow => exact applyNotice_settled h.1 (h.2 row hrow) d'.now
    next => rfl
  next => rfl

/-- The deliveries are a case of the library on redelivery. -/
theorem settles_deliver (emailHash : String → String) :
    Settles (EventStore.deliver emailHash) SameEvent bare (Settled emailHash) where
  congr t t' d h := by rw [deliver_bare, h, ← deliver_bare]
  settles t d := t.deliver_settled emailHash d
  stays t _ d' h := h.stay (t.deliver_later emailHash d')
  absorbed _ _ _ h hsame := deliver_absorbed h hsame

/-- What is delivered again changes at most notes on notices. -/
theorem deliverAll_bare {es ds : List Delivery} (h : Redelivered SameEvent es ds) (t : EventStore) :
    (t.deliverAll emailHash ds).bare = (t.deliverAll emailHash es).bare :=
  h.view_eq (settles_deliver emailHash) t

end EventStore

end WorkflowBoard.MailEvents
