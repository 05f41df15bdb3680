import WorkflowBoard.ForStd.Grows
import WorkflowBoard.Native.ConsentCalls

/-!
# Who has withdrawn stays withdrawn

Each update that could make a row subscribed again, or move its period, asks in its own condition
that the row is subscribed, and the transactions that make a consent read or lock its contact. An
erasure clears the IP of the evidence, which is all that changes of it.
-/

namespace WorkflowBoard.Consents

open Email (ContactStatus)

/-! ## Rows -/

/-- The evidence is the same, or an erasure has cleared its IP. -/
def EvidenceKept (status : ContactStatus) (e e' : Evidence) : Prop :=
  e' = e ∨ status = .erased ∧ e' = { e with consent_ip := "" }

/-- A row that is not subscribed does not become so, an erased one stays erased, and the evidence of
    both is kept. -/
structure Evolves (status status' : ContactStatus) (e e' : Evidence) : Prop where
  withdrawn : status ≠ .subscribed → status' ≠ .subscribed
  erased : status = .erased → status' = .erased
  evidence : status ≠ .subscribed → EvidenceKept status' e e'

theorem Evolves.refl (status : ContactStatus) (e : Evidence) : Evolves status status e e :=
  ⟨id, id, fun _ => .inl rfl⟩

theorem Evolves.trans {st₁ st₂ st₃ : ContactStatus} {e₁ e₂ e₃ : Evidence}
    (h : Evolves st₁ st₂ e₁ e₂) (h' : Evolves st₂ st₃ e₂ e₃) : Evolves st₁ st₃ e₁ e₃ := by
  refine ⟨fun hs => h'.withdrawn (h.withdrawn hs), fun hs => h'.erased (h.erased hs), fun hs => ?_⟩
  rcases h.evidence hs with rfl | ⟨herased, rfl⟩
  · exact h'.evidence (h.withdrawn hs)
  · rcases h'.evidence (h.withdrawn hs) with rfl | ⟨-, rfl⟩
    · exact .inr ⟨h'.erased herased, rfl⟩
    · exact .inr ⟨h'.erased herased, rfl⟩

theorem Evolves.of_subscribed {status status' : ContactStatus} {e e' : Evidence}
    (h : status = .subscribed) : Evolves status status' e e' :=
  ⟨fun hs => absurd h hs, fun hs => (by rw [hs] at h; cases h), fun hs => absurd h hs⟩

def ContactEvolves (c c' : ContactRow) : Prop :=
  c'.account_id = c.account_id ∧ Evolves c.status c'.status c.toEvidence c'.toEvidence

def ConsentEvolves (k k' : ConsentRow) : Prop :=
  k'.account_id = k.account_id ∧ k'.contact_id = k.contact_id ∧
    Evolves k.status k'.status k.toEvidence k'.toEvidence

def SameStatus (c c' : ContactRow) : Prop := c'.status = c.status

theorem SameStatus.refl (c : ContactRow) : SameStatus c c := rfl

theorem SameStatus.trans (a b c : ContactRow) (h : SameStatus a b) (h' : SameStatus b c) :
    SameStatus a c :=
  Eq.trans h' h

theorem ContactEvolves.refl (c : ContactRow) : ContactEvolves c c := ⟨rfl, .refl _ _⟩

theorem ConsentEvolves.refl (k : ConsentRow) : ConsentEvolves k k := ⟨rfl, rfl, .refl _ _⟩

theorem ContactEvolves.trans (a b c : ContactRow) (h : ContactEvolves a b)
    (h' : ContactEvolves b c) : ContactEvolves a c :=
  ⟨h'.1.trans h.1, h.2.trans h'.2⟩

theorem ConsentEvolves.trans (a b c : ConsentRow) (h : ConsentEvolves a b)
    (h' : ConsentEvolves b c) : ConsentEvolves a c :=
  ⟨h'.1.trans h.1, h'.2.1.trans h.2.1, h.2.2.trans h'.2.2⟩

namespace ConsentStore

/-! ## Tables -/

/-- A consent belongs to a contact of its account. An erased contact holds no address, no name and
    no IP, and its consents are erased and hold none either. -/
structure Orderly (t : ConsentStore) : Prop where
  owner : ∀ k ∈ t.consents, ∃ c, t.contacts[k.contact_id]? = some c ∧ c.account_id = k.account_id
  contact : ∀ c ∈ t.contacts, c.status = .erased →
    c.email = none ∧ c.name = "" ∧ c.consent_ip = ""
  consents : ∀ (i : Nat) (c : ContactRow), t.contacts[i]? = some c → c.status = .erased →
    ∀ k ∈ t.consents, k.contact_id = i → k.status = .erased ∧ k.consent_ip = ""

/-- A consent that is new and subscribed is one of a contact that is subscribed, and was. -/
def BornSubscribed (t t' : ConsentStore) : Prop :=
  ∀ (i : Nat) (k : ConsentRow), t.consents.length ≤ i → t'.consents[i]? = some k →
    k.status = .subscribed → ∃ c, t'.contacts[k.contact_id]? = some c ∧ c.status = .subscribed ∧
      ∀ c₀, t.contacts[k.contact_id]? = some c₀ → c₀.status = .subscribed

/-- What a write does to contacts and consents. -/
structure StoreStep (t t' : ConsentStore) : Prop where
  contacts : Grows ContactEvolves t.contacts t'.contacts
  consents : Grows ConsentEvolves t.consents t'.consents
  born : BornSubscribed t t'
  orderly : Orderly t'

variable {t t' : ConsentStore}

theorem BornSubscribed.of_length (h : t'.consents.length = t.consents.length) :
    BornSubscribed t t' := by
  intro i k hi hk
  have := lt_of_getElem? hk
  omega

theorem StoreStep.of_same (h : Orderly t) (hcontacts : t'.contacts = t.contacts)
    (hconsents : t'.consents = t.consents) : StoreStep t t' where
  contacts := by
    rw [hcontacts]
    exact .refl ContactEvolves.refl _
  consents := by
    rw [hconsents]
    exact .refl ConsentEvolves.refl _
  born := .of_length (by rw [hconsents])
  orderly := by
    obtain ⟨howner, hcontact, hconsent⟩ := h
    exact ⟨by rwa [hcontacts, hconsents], by rwa [hcontacts], by rwa [hcontacts, hconsents]⟩

/-! ## Single writes -/

variable {id : Nat} {k : ConsentRow} {allowed : ContactStatus → Bool} {emailHash : String → String}
  {existing : Option (Nat × ContactRow)} {accountId brandId : String}

theorem StoreStep.of_contact (h : Orderly t) {f : ContactRow → ContactRow}
    (hf : ∀ c, t.contacts[id]? = some c → ContactEvolves c (f c))
    (hkeep : ∀ c, t.contacts[id]? = some c → (f c).status = .erased → c.status = .erased ∧
      (f c).email = c.email ∧ (f c).name = c.name ∧ (f c).consent_ip = c.consent_ip) :
    StoreStep t { t with contacts := t.contacts.modify id f } where
  contacts := .modify ContactEvolves.refl hf
  consents := .refl ConsentEvolves.refl _
  born := .of_length rfl
  orderly := by
    refine ⟨fun k hk => ?_, fun c hc hst => ?_, fun i c hc hst k hk hki => ?_⟩
    · obtain ⟨c, hc, haccount⟩ := h.owner k hk
      by_cases hid : id = k.contact_id
      · subst hid
        exact ⟨f c, getElem?_modify_self hc, (hf c hc).1.trans haccount⟩
      · exact ⟨c, (getElem?_modify_other hid).trans hc, haccount⟩
    · obtain ⟨i, hi⟩ := List.mem_iff_getElem?.mp hc
      rcases getElem?_modify_cases hi with ⟨rfl, c₀, hc₀, rfl⟩ | ⟨-, hi⟩
      · obtain ⟨hst₀, hemail, hname, hip⟩ := hkeep c₀ hc₀ hst
        rw [hemail, hname, hip]
        exact h.contact c₀ (List.mem_of_getElem? hc₀) hst₀
      · exact h.contact c (List.mem_of_getElem? hi) hst
    · rcases getElem?_modify_cases hc with ⟨rfl, c₀, hc₀, rfl⟩ | ⟨-, hc⟩
      · exact h.consents id c₀ hc₀ (hkeep c₀ hc₀ hst).1 k hk hki
      · exact h.consents i c hc hst k hk hki

/-- A consent is changed; an erased one stays as it is. -/
theorem StoreStep.of_consent (h : Orderly t) {f : ConsentRow → ConsentRow}
    (hf : ∀ k, t.consents[id]? = some k → ConsentEvolves k (f k))
    (hkeep : ∀ k, t.consents[id]? = some k → k.status = .erased → f k = k) :
    StoreStep t { t with consents := t.consents.modify id f } where
  contacts := .refl ContactEvolves.refl _
  consents := .modify ConsentEvolves.refl hf
  born := .of_length (List.length_modify ..)
  orderly := by
    refine ⟨fun k hk => ?_, h.contact, fun i c hc hst k hk hki => ?_⟩
    · obtain ⟨j, hj⟩ := List.mem_iff_getElem?.mp hk
      rcases getElem?_modify_cases hj with ⟨rfl, k₀, hk₀, rfl⟩ | ⟨-, hj⟩
      · obtain ⟨c, hc, haccount⟩ := h.owner k₀ (List.mem_of_getElem? hk₀)
        obtain ⟨hacc, hcontact, -⟩ := hf k₀ hk₀
        exact ⟨c, by rwa [hcontact], by rw [hacc, haccount]⟩
      · exact h.owner k (List.mem_of_getElem? hj)
    · obtain ⟨j, hj⟩ := List.mem_iff_getElem?.mp hk
      rcases getElem?_modify_cases hj with ⟨rfl, k₀, hk₀, rfl⟩ | ⟨-, hj⟩
      · have hki₀ : k₀.contact_id = i := by rw [← hki, (hf k₀ hk₀).2.1]
        have herased := h.consents i c hc hst k₀ (List.mem_of_getElem? hk₀) hki₀
        rw [hkeep k₀ hk₀ herased.1]
        exact herased
      · exact h.consents i c hc hst k (List.mem_of_getElem? hj) hki

theorem StoreStep.of_insertContact (h : Orderly t) {c : ContactRow} (hc : c.status ≠ .erased)
    (hins : t.insertContact c = some t') : StoreStep t t' := by
  unfold insertContact at hins
  split at hins
  · cases hins
  cases hins
  refine ⟨.append ContactEvolves.refl _ _, .refl ConsentEvolves.refl _, .of_length rfl,
    fun k hk => ?_, fun c' hc' hst => ?_, fun i c' hc' hst k hk hki => ?_⟩
  · obtain ⟨c', hc', haccount⟩ := h.owner k hk
    exact ⟨c', getElem?_append_of_some hc' c, haccount⟩
  · rcases List.mem_append.mp hc' with hc' | hc'
    · exact h.contact c' hc' hst
    · cases List.mem_singleton.mp hc'
      exact absurd hst hc
  · rcases getElem?_append_cases hc' with hc' | ⟨-, rfl⟩
    · exact h.consents i c' hc' hst k hk hki
    · exact absurd hst hc

theorem insertConsent_contacts (hins : t.insertConsent k = some t') :
    t'.contacts = t.contacts := by
  unfold insertConsent at hins
  split at hins
  · cases hins
  · cases hins
    rfl

/-- A consent is inserted for a contact that stands no worse. -/
theorem StoreStep.of_insertConsent (h : Orderly t) {c : ContactRow}
    (hc : t.contacts[k.contact_id]? = some c) (haccount : c.account_id = k.account_id)
    (hsub : k.status = .subscribed → c.status = .subscribed)
    (herased : c.status = .erased → k.status = .erased ∧ k.consent_ip = "")
    (hins : t.insertConsent k = some t') : StoreStep t t' := by
  unfold insertConsent at hins
  split at hins
  · cases hins
  cases hins
  refine ⟨.refl ContactEvolves.refl _, .append ConsentEvolves.refl _ _, ?_, fun k' hk' => ?_,
    h.contact, fun i c' hc' hst k' hk' hki => ?_⟩
  · intro i k' hi hk' hst
    rcases getElem?_append_cases hk' with hk' | ⟨-, rfl⟩
    · have := lt_of_getElem? hk'
      omega
    · refine ⟨c, hc, hsub hst, fun c₀ hc₀ => ?_⟩
      cases hc.symm.trans hc₀
      exact hsub hst
  · rcases List.mem_append.mp hk' with hk' | hk'
    · exact h.owner k' hk'
    · cases List.mem_singleton.mp hk'
      exact ⟨c, hc, haccount⟩
  · rcases List.mem_append.mp hk' with hk' | hk'
    · exact h.consents i c' hc' hst k' hk' hki
    · cases List.mem_singleton.mp hk'
      subst hki
      cases hc.symm.trans hc'
      exact herased hst

/-- Two writes, of which the second leaves the statuses of the contacts. -/
theorem StoreStep.trans {t'' : ConsentStore} (h : StoreStep t t') (h' : StoreStep t' t'')
    (hkeep : Grows SameStatus t'.contacts t''.contacts) :
    StoreStep t t'' := by
  refine ⟨h.contacts.trans ContactEvolves.trans h'.contacts,
    h.consents.trans ConsentEvolves.trans h'.consents, fun i k hi hk hst => ?_, h'.orderly⟩
  by_cases hlt : i < t'.consents.length
  · -- Born by the first write: the second one has not made it subscribed.
    obtain ⟨k₁, hk₁, -, hcontact, hev⟩ := h'.consents i _ (List.getElem?_eq_getElem hlt)
    cases hk.symm.trans hk₁
    have hst₁ : t'.consents[i].status = .subscribed := by
      by_contra hne
      exact hev.withdrawn hne hst
    obtain ⟨c, hc, hsub, hold⟩ := h.born i _ hi (List.getElem?_eq_getElem hlt) hst₁
    obtain ⟨c', hc', hsame⟩ := hkeep _ c hc
    rw [hcontact]
    exact ⟨c', hc', Eq.trans hsame hsub, hold⟩
  · obtain ⟨c, hc, hsub, hold⟩ := h'.born i k (Nat.le_of_not_lt hlt) hk hst
    refine ⟨c, hc, hsub, fun c₀ hc₀ => ?_⟩
    obtain ⟨c₁, hc₁, -, hev⟩ := h.contacts _ c₀ hc₀
    by_contra hne
    exact hev.withdrawn hne (hold c₁ hc₁)

/-! ## Withdrawals, erasure, keep links and renewals -/

theorem noticeConsent_eq_some {n : Notice} (h : t.noticeConsent n = some k) :
    t.consents[n.consent_id]? = some k ∧ k.account_id = n.account_id ∧
      k.contact_id = n.contact_id ∧ k.brand_id = n.brand_id ∧ k.status = .subscribed := by
  obtain ⟨hk, h⟩ := Option.filter_eq_some_iff.mp h
  simp only [Bool.and_eq_true, decide_eq_true_eq] at h
  exact ⟨hk, h.1.1.1, h.1.1.2, h.1.2, h.2⟩

/-- A withdrawal of a contact takes nothing back. -/
theorem StoreStep.withdrawContact (h : Orderly t)
    {status : ContactStatus} (hallowed : allowed .erased = false) (hst : status ≠ .subscribed)
    (hst' : status ≠ .erased) (source : String) (now : Date) :
    StoreStep t (t.withdrawContact id allowed status source now) := by
  refine .of_contact h (fun c _ => ?_) (fun c _ => ?_)
  · split
    · next hok =>
      refine ⟨rfl, fun _ => hst, fun hc => ?_, fun _ => .inl rfl⟩
      rw [hc, hallowed] at hok
      cases hok
    · exact .refl c
  · split
    · exact fun herased => absurd herased hst'
    · exact fun herased => ⟨herased, rfl, rfl, rfl⟩

theorem StoreStep.withdrawConsent (h : Orderly t)
    {status : ContactStatus} (hallowed : allowed .erased = false) (hst : status ≠ .subscribed)
    (source : String) (now : Date) :
    StoreStep t (t.withdrawConsent id allowed status source now) := by
  refine .of_consent h (fun k _ => ?_) (fun k _ hk => ?_)
  · split
    · next hok =>
      refine ⟨rfl, rfl, fun _ => hst, fun hk => ?_, fun _ => .inl rfl⟩
      rw [hk, hallowed] at hok
      cases hok
    · exact .refl k
  · rw [hk, hallowed]
    rfl

theorem erased_contactEvolves (row : ContactRow) (token : String) (now : Date) (c : ContactRow) :
    ContactEvolves c (row.erased token now c) :=
  ⟨rfl, ⟨fun _ => (nomatch ·), fun _ => rfl, fun _ => .inr ⟨rfl, rfl⟩⟩⟩

theorem erased_consentEvolves (k : ConsentRow) : ConsentEvolves k k.erased :=
  ⟨rfl, rfl, ⟨fun _ => (nomatch ·), fun _ => rfl, fun _ => .inr ⟨rfl, rfl⟩⟩⟩

section

variable (h : Orderly t)
include h

/-- An erasure takes the contact and its consents together. -/
theorem StoreStep.eraseContact (id : Nat) (accountId token : String)
    (row : ContactRow) (now : Date) : StoreStep t (t.eraseContact id accountId token row now) := by
  have hcontacts : Grows ContactEvolves t.contacts
      (t.eraseContact id accountId token row now).contacts := by
    refine .modify ContactEvolves.refl fun c _ => ?_
    split
    · exact erased_contactEvolves row token now c
    · exact .refl c
  have hconsents : Grows ConsentEvolves t.consents
      (t.eraseContact id accountId token row now).consents := by
    refine .map fun k => ?_
    split
    · exact erased_consentEvolves k
    · exact .refl k
  refine ⟨hcontacts, hconsents, .of_length (List.length_map ..), fun k hk => ?_,
    fun c hc hst => ?_, fun i c hc hst k hk hki => ?_⟩
  · obtain ⟨j, hj⟩ := List.mem_iff_getElem?.mp hk
    obtain ⟨k₀, hk₀, rfl⟩ := List.mem_map.mp hk
    obtain ⟨c, hc, haccount⟩ := h.owner k₀ hk₀
    obtain ⟨c', hc', hsame, -⟩ := hcontacts _ c hc
    split
    · exact ⟨c', hc', hsame.trans haccount⟩
    · exact ⟨c', hc', hsame.trans haccount⟩
  · obtain ⟨i, hi⟩ := List.mem_iff_getElem?.mp hc
    rcases getElem?_modify_cases hi with ⟨rfl, c₀, hc₀, rfl⟩ | ⟨-, hi⟩
    · by_cases haccount : c₀.account_id = accountId
      · rw [if_pos haccount]
        exact ⟨rfl, rfl, rfl⟩
      · rw [if_neg haccount] at hst ⊢
        exact h.contact c₀ (List.mem_of_getElem? hc₀) hst
    · exact h.contact c (List.mem_of_getElem? hi) hst
  · obtain ⟨k₀, hk₀, rfl⟩ := List.mem_map.mp hk
    have hki₀ : k₀.contact_id = i := by
      split at hki
      · exact hki
      · exact hki
    split
    · exact ⟨rfl, rfl⟩
    · next hother =>
      -- A consent that is left as it is belongs to a contact that was erased before.
      rcases getElem?_modify_cases hc with ⟨rfl, c₀, hc₀, rfl⟩ | ⟨-, hc⟩
      · obtain ⟨c₁, hc₁, haccount⟩ := h.owner k₀ hk₀
        rw [hki₀] at hc₁
        cases hc₀.symm.trans hc₁
        have hne : c₀.account_id ≠ accountId := fun heq =>
          hother ⟨hki₀, haccount.symm.trans heq⟩
        rw [if_neg hne] at hst
        exact h.consents id c₀ hc₀ hst k₀ hk₀ hki₀
      · exact h.consents i c hc hst k₀ hk₀ hki₀

/-- A keep link writes a consent that is subscribed. -/
theorem StoreStep.keepConsent {place : Nat} {n : Notice} {now : Date}
    (hkeep : t.keepConsent place n now = some t') : StoreStep t t' := by
  unfold ConsentStore.keepConsent at hkeep
  split at hkeep
  · obtain ⟨k, hk, hkeep⟩ := Option.bind_eq_some_iff.mp hkeep
    split at hkeep
    · cases hkeep
      obtain ⟨hk, -, -, -, hst⟩ := noticeConsent_eq_some hk
      have hsub : ∀ k', t.consents[n.consent_id]? = some k' → k'.status = .subscribed := by
        intro k' hk'
        cases hk.symm.trans hk'
        exact hst
      have hstep : StoreStep t { t with
          consents := t.consents.modify n.consent_id (·.kept place n.settings_version now) } := by
        refine .of_consent h (fun k' hk' => ?_) (fun k' hk' herased => ?_)
        · exact ⟨rfl, rfl, .of_subscribed (hsub k' hk')⟩
        · rw [hsub k' hk'] at herased
          cases herased
      exact ⟨hstep.contacts, hstep.consents, hstep.born,
        ⟨hstep.orderly.owner, hstep.orderly.contact, hstep.orderly.consents⟩⟩
    · cases hkeep
  · cases hkeep

/-- A renewal withdraws nothing and revives nothing. -/
theorem StoreStep.renewConsent (n : Notice) (read : ConsentRow) :
    StoreStep t (t.renewConsent n read) := by
  unfold ConsentStore.renewConsent
  split
  · next hmay =>
    have hsub : ∀ k, t.consents[n.consent_id]? = some k → k.status = .subscribed := by
      intro k hk
      simp only [mayRenew, hk, Option.any_some, Bool.and_eq_true, decide_eq_true_eq] at hmay
      exact hmay.1.1.1
    refine .of_consent h (fun k hk => ?_) (fun k hk herased => ?_)
    · exact ⟨rfl, rfl, .of_subscribed (hsub k hk)⟩
    · rw [hsub k hk] at herased
      cases herased
  · exact .of_same h rfl rfl

/-! ## Imports and migrations -/

/-- The contact of an entry is subscribed, whether it was found or is new. -/
theorem saveContact_step {e : ImportEntry}
    (hsave : t.saveContact emailHash e existing = some (id, t')) :
    StoreStep t t' ∧
      ∃ c, t'.contacts[id]? = some c ∧ c.account_id = e.account_id ∧ c.status = .subscribed := by
  unfold saveContact at hsave
  split at hsave
  · next i row =>
    split at hsave
    · next hfound =>
      cases hsave
      obtain ⟨c, hc, hfound⟩ := (Option.any_eq_true _ _).mp hfound
      simp only [Bool.and_eq_true, decide_eq_true_eq] at hfound
      refine ⟨.of_contact h (fun c _ => ⟨rfl, .refl c.status c.toEvidence⟩)
        (fun c' hc' herased => ?_), e.identify row c, getElem?_modify_self hc, hfound⟩
      cases hc.symm.trans hc'
      exact absurd (hfound.2.symm.trans herased) (by decide)
    · cases hsave
  · obtain ⟨t₁, hins, heq⟩ := Option.map_eq_some_iff.mp hsave
    cases heq
    refine ⟨.of_insertContact h (show ContactStatus.subscribed ≠ .erased by decide) hins,
      e.contact emailHash, ?_, rfl, rfl⟩
    unfold insertContact at hins
    split at hins
    · cases hins
    · cases hins
      exact List.getElem?_concat_length ..

theorem StoreStep.saveImport {e : ImportEntry} {prior : Option (Nat × ConsentRow)}
    (hsave : t.saveImport emailHash e existing prior = some t') : StoreStep t t' := by
  obtain ⟨⟨id, t₁⟩, hcontact, hsave⟩ := Option.bind_eq_some_iff.mp hsave
  obtain ⟨hstep, c, hc, haccount, hst⟩ := saveContact_step h hcontact
  dsimp only at hsave
  cases prior with
  | some prior =>
    obtain ⟨i, row⟩ := prior
    dsimp only at hsave
    split at hsave
    · next hnewer =>
      cases hsave
      have hsub : ∀ k, t₁.consents[i]? = some k → k.status = .subscribed := by
        intro k hk
        simp only [hk, Option.any_some, isNewer, Bool.and_eq_true, decide_eq_true_eq] at hnewer
        exact hnewer.2.1.1
      refine hstep.trans (.of_consent hstep.orderly (fun k hk => ?_) (fun k hk herased => ?_))
        (.refl SameStatus.refl _)
      · exact ⟨rfl, rfl, .of_subscribed (hsub k hk)⟩
      · rw [hsub k hk] at herased
        cases herased
    · cases hsave
      exact hstep
  | none =>
    have hins : StoreStep t₁ t' := by
      refine .of_insertConsent hstep.orderly (k := e.consent id) hc haccount (fun _ => hst)
        (fun herased => ?_) hsave
      rw [hst] at herased
      cases herased
    refine hstep.trans hins ?_
    rw [insertConsent_contacts hsave]
    exact .refl SameStatus.refl _

/-- A consent that is migrated has the status of its contact. -/
theorem migrateContact_step {tokens : Nat → String}
    (hmigrate : t.migrateContact accountId brandId tokens id = some t') :
    StoreStep t t' ∧ Grows SameStatus t.contacts t'.contacts := by
  unfold migrateContact at hmigrate
  split at hmigrate
  · next c hc =>
    split at hmigrate
    · cases hmigrate
    split at hmigrate
    · cases hmigrate
      exact ⟨.of_same h rfl rfl, .refl SameStatus.refl _⟩
    have hmark : StoreStep t { t with contacts := t.contacts.modify id fun c =>
        { c with legacy_consent_migrated := true } } :=
      .of_contact h (fun c _ => ⟨rfl, .refl c.status c.toEvidence⟩)
        fun c _ herased => ⟨herased, rfl, rfl, rfl⟩
    have hsame : Grows SameStatus t.contacts
        (t.contacts.modify id fun c => { c with legacy_consent_migrated := true }) :=
      .modify SameStatus.refl fun _ _ => rfl
    dsimp only at hmigrate
    split at hmigrate
    · cases hmigrate
      exact ⟨hmark, hsame⟩
    · have hins := by
        refine StoreStep.of_insertConsent hmark.orderly (getElem?_modify_self hc) rfl
          (fun hsub => hsub)
          (fun herased => ⟨herased, ?_⟩) hmigrate
        exact (h.contact c (List.mem_of_getElem? hc) herased).2.2
      have hcontacts := insertConsent_contacts hmigrate
      refine ⟨hmark.trans hins ?_, ?_⟩
      · rw [hcontacts]
        exact .refl SameStatus.refl _
      · rw [hcontacts]
        exact hsame
  · cases hmigrate

/-- A migration carries the status over. -/
theorem migrateContacts_step {tokens : Nat → String}
    {ids : List Nat} (hmigrate : t.migrateContacts accountId brandId tokens ids = some t') :
    StoreStep t t' ∧ Grows SameStatus t.contacts t'.contacts := by
  induction ids generalizing t with
  | nil =>
    cases hmigrate
    exact ⟨.of_same h rfl rfl, .refl SameStatus.refl _⟩
  | cons id ids ih =>
    obtain ⟨t₁, hfirst, hrest⟩ := Option.bind_eq_some_iff.mp hmigrate
    obtain ⟨hstep, hsame⟩ := migrateContact_step h hfirst
    obtain ⟨hstep', hsame'⟩ := ih hstep.orderly hrest
    exact ⟨hstep.trans hstep' hsame', hsame.trans SameStatus.trans hsame'⟩

end

theorem insertNotice_rest {accountId token : String} {d : DueNotice} {now updated : Date}
    (hins : t.insertNotice accountId d token now updated = some t') :
    t'.contacts = t.contacts ∧ t'.consents = t.consents := by
  unfold insertNotice at hins
  split at hins
  · cases hins
  · cases hins
    exact ⟨rfl, rfl⟩

end ConsentStore

open ConsentStore

/-! ## Calls -/

/-- What a call is about to write withdraws, and leaves an erased row alone. -/
def CallOk : ConsentCall → Prop
  | .withdrawContact _ allowed status _ =>
    allowed .erased = false ∧ status ≠ .subscribed ∧ status ≠ .erased
  | .withdrawConsent _ allowed status _ => allowed .erased = false ∧ status ≠ .subscribed
  | .suppressing _ status _ _ | .suppressingConsent _ _ status _ _ =>
    status ≠ .subscribed ∧ status ≠ .erased
  | _ => True

theorem suppressFrom_erased (status : ContactStatus) : suppressFrom status .erased = false := by
  cases status with
  | subscribed | bounced | complained | unsubscribed | erased => rfl

namespace ConsentState

structure ConsentInv (s : ConsentState) : Prop where
  orderly : s.store.Orderly
  calls : ∀ c ∈ s.calls, CallOk c

/-- What a step does to the tables and leaves of the calls. -/
structure StepOk (s s' : ConsentState) : Prop where
  store : StoreStep s.store s'.store
  calls : ∀ c ∈ s'.calls, CallOk c

variable {w : ConsentWorld} {s s' : ConsentState} {k : Nat} {token : String}

variable {c : ConsentCall}

section

variable (h : ConsentInv s)
include h

theorem StepOk.commit {t : ConsentStore} {cause : MoveCause}
    (ht : StoreStep s.store t) (hc : CallOk c) : StepOk s ((s.commit t cause).setCall k c) := by
  refine ⟨ht, fun c' hc' => ?_⟩
  rcases List.mem_or_eq_of_mem_set hc' with hc' | rfl
  · exact h.calls c' hc'
  · exact hc

theorem StepOk.setCall (hc : CallOk c) :
    StepOk s (s.setCall k c) := by
  refine ⟨.of_same h.orderly rfl rfl, fun c' hc' => ?_⟩
  rcases List.mem_or_eq_of_mem_set hc' with hc' | rfl
  · exact h.calls c' hc'
  · exact hc

theorem storeStep_getD {t : Option ConsentStore}
    (ht : ∀ t', t = some t' → StoreStep s.store t') : StoreStep s.store (t.getD s.store) := by
  cases t with
  | none => exact .of_same h.orderly rfl rfl
  | some t' => exact ht t' rfl

/-- Each statement of a queue pass keeps what is withdrawn. -/
theorem StepOk.queueNext {p : QueuePass} {phase : NoticePhase}
    (hrun : s.queueNext w k p phase = some s') : StepOk s s' := by
  unfold ConsentState.queueNext at hrun
  split at hrun
  all_goals first
    | cases hrun; exact .setCall h trivial
    | cases hrun; exact .commit h (.of_same h.orderly rfl rfl) trivial
    | skip
  · split at hrun
    · cases hrun
      exact .commit h (.of_same h.orderly rfl rfl) trivial
    · cases hrun
      exact .setCall h trivial
  · cases hrun
  · cases hrun

/-- A statement of a call; those that only read leave the tables as they are. -/
theorem StepOk.callNext (hc : CallOk c)
    (hrun : s.callNext w k token c = some s') : StepOk s s' := by
  unfold ConsentState.callNext at hrun
  cases c with
  | importing e =>
    dsimp only at hrun
    split at hrun
    · cases hrun
      exact .setCall h (by split <;> trivial)
    · cases hrun
      exact .setCall h trivial
  | importPrior e existing =>
    cases hrun
    exact .setCall h (by split <;> trivial)
  | importSaving e existing prior =>
    cases hrun
    exact .commit h (storeStep_getD h fun t ht => .saveImport h.orderly ht) trivial
  | migrating accountId brandId ids tokens =>
    cases hrun
    exact .commit h (storeStep_getD h fun t ht => (migrateContacts_step h.orderly ht).1) trivial
  | byToken token' source =>
    dsimp only at hrun
    split at hrun
    · cases hrun
      exact .setCall h trivial
    · cases hrun
      exact .setCall h trivial
  | byConsentToken id row source =>
    cases hrun
    refine .setCall h ?_
    split
    · exact ⟨rfl, by decide⟩
    · trivial
  | byContactToken token' source =>
    dsimp only at hrun
    split at hrun
    · cases hrun
      refine .setCall h ?_
      split
      · exact ⟨rfl, by decide, by decide⟩
      · trivial
    · cases hrun
      exact .setCall h trivial
  | marking id accountId brandId =>
    dsimp only at hrun
    split at hrun
    · cases hrun
      refine .setCall h ?_
      split
      · trivial
      · split
        · trivial
        · exact ⟨rfl, by decide, by decide⟩
    · cases hrun
      exact .setCall h trivial
  | markingConsent id accountId brandId =>
    dsimp only at hrun
    split at hrun
    · cases hrun
      exact .setCall h ⟨rfl, by decide⟩
    · cases hrun
      exact .setCall h trivial
  | suppressing contactId status source brandId =>
    dsimp only at hrun
    split at hrun
    · cases hrun
      refine .setCall h ?_
      split
      · exact hc
      · exact ⟨suppressFrom_erased status, hc⟩
    · cases hrun
      exact .setCall h trivial
  | suppressingConsent contactId accountId status source brandId =>
    dsimp only at hrun
    split at hrun
    · cases hrun
      exact .setCall h ⟨suppressFrom_erased status, hc.1⟩
    · cases hrun
      exact .setCall h trivial
  | withdrawContact id allowed status source =>
    cases hrun
    exact .commit h (.withdrawContact h.orderly hc.1 hc.2.1 hc.2.2 source s.clock) trivial
  | withdrawConsent id allowed status source =>
    cases hrun
    exact .commit h (.withdrawConsent h.orderly hc.1 hc.2 source s.clock) trivial
  | erasing id accountId =>
    dsimp only at hrun
    split at hrun
    · cases hrun
      exact .setCall h trivial
    · cases hrun
      exact .setCall h trivial
  | eraseSaving id accountId row =>
    cases hrun
    exact .commit h (.eraseContact h.orderly id accountId token row s.clock) trivial
  | keeping token' now =>
    dsimp only at hrun
    split at hrun
    · cases hrun
      exact .setCall h (by split <;> trivial)
    · cases hrun
      exact .setCall h trivial
  | keepReading place n now =>
    cases hrun
    exact .setCall h (by split <;> trivial)
  | keepSaving place n now =>
    cases hrun
    exact .commit h (storeStep_getD h fun t ht => .keepConsent h.orderly ht) trivial
  | renewing now =>
    cases hrun
    exact .setCall h trivial
  | renewRow now rows =>
    cases rows with
    | nil =>
      cases hrun
      exact .setCall h trivial
    | cons row rows =>
      cases hrun
      exact .setCall h (by split <;> trivial)
  | renewReading now place n rows =>
    cases hrun
    exact .setCall h (by split <;> trivial)
  | renewSaving now place n row rows =>
    cases hrun
    exact .commit h (.renewConsent h.orderly n row) trivial
  | renewMarking now place rows =>
    cases hrun
    exact .commit h (.of_same h.orderly rfl rfl) trivial
  | planning accountId now =>
    cases hrun
    exact .setCall h (by split <;> trivial)
  | planContacts accountId leadDays now =>
    cases hrun
    exact .setCall h trivial
  | planConsents accountId leadDays now contacts =>
    cases hrun
    exact .setCall h trivial
  | planCycles accountId now due =>
    cases hrun
    exact .setCall h trivial
  | planInserting accountId now due =>
    cases due with
    | nil =>
      cases hrun
      exact .setCall h trivial
    | cons d due =>
      dsimp only at hrun
      split at hrun
      · next t ht =>
        cases hrun
        obtain ⟨hcontacts, hconsents⟩ := insertNotice_rest ht
        exact .commit h (.of_same h.orderly hcontacts hconsents) trivial
      · cases hrun
        exact .setCall h (by split <;> trivial)
  | queue p phase => exact .queueNext h hrun
  | ended => cases hrun

theorem StepOk.picked {pick : SenderPick} (hrun : s.picked k pick c = some s') : StepOk s s' := by
  unfold ConsentState.picked at hrun
  split at hrun
  · cases hrun
    exact .setCall h trivial
  · cases hrun

theorem StepOk.returned {outcome : Email.EmailOutcome}
    (hrun : s.returned k outcome c = some s') : StepOk s s' := by
  unfold ConsentState.returned at hrun
  split at hrun
  · cases hrun
    obtain ⟨hstore, hcalls⟩ :=
      StepOk.setCall (k := k) h (c := .queue _ (.sending _ (.finishing _))) trivial
    exact ⟨hstore, hcalls⟩
  · cases hrun

theorem StepOk.throws (error : String) :
    StepOk s (s.throws k error c) := by
  unfold ConsentState.throws
  split
  · exact .setCall h trivial
  · exact .setCall h trivial

end

theorem call_ok {r : ConsentRequest} (hcall : r.call s = some c) : CallOk c := by
  cases r with
  | suppressContact contactId status source brandId =>
    obtain ⟨hstatus, heq⟩ := Option.ite_none_right_eq_some.mp hcall
    cases heq
    rcases hstatus with rfl | rfl | rfl
    · exact ⟨by decide, by decide⟩
    · exact ⟨by decide, by decide⟩
    · exact ⟨by decide, by decide⟩
  | importEntry e =>
    obtain ⟨-, heq⟩ := Option.ite_none_right_eq_some.mp hcall
    cases heq
    trivial
  | migrateLegacy accountId brandId ids tokens =>
    obtain ⟨-, heq⟩ := Option.ite_none_right_eq_some.mp hcall
    cases heq
    trivial
  | unsubscribeByToken | markUnsubscribed | erase | keep | renewDue | planAccount | processQueue =>
    cases hcall
    trivial

/-- Each step keeps what is withdrawn. -/
theorem StepOk.run (h : ConsentInv s) {a : ConsentAction} (hrun : a.run w s = some s') :
    StepOk s s' := by
  have hcall : ∀ {k c}, s.calls[k]? = some c → CallOk c := fun hc =>
    h.calls _ (List.mem_of_getElem? hc)
  cases a with
  | tick | createBrand | bounce | retryFailed =>
    cases hrun
    exact ⟨.of_same h.orderly rfl rfl, h.calls⟩
  | saveSettings accountId v =>
    obtain ⟨-, heq⟩ := Option.ite_none_right_eq_some.mp hrun
    cases heq
    exact ⟨.of_same h.orderly rfl rfl, h.calls⟩
  | request r =>
    obtain ⟨c, hc, rfl⟩ := Option.map_eq_some_iff.mp hrun
    refine ⟨.of_same h.orderly rfl rfl, fun c' hc' => ?_⟩
    rcases List.mem_append.mp hc' with hc' | hc'
    · exact h.calls c' hc'
    · cases List.mem_singleton.mp hc'
      exact call_ok hc
  | next k token =>
    obtain ⟨c, hc, hrun⟩ := Option.bind_eq_some_iff.mp hrun
    exact .callNext h (hcall hc) hrun
  | picked k pick =>
    obtain ⟨c, -, hrun⟩ := Option.bind_eq_some_iff.mp hrun
    exact .picked h hrun
  | returned k outcome =>
    obtain ⟨c, -, hrun⟩ := Option.bind_eq_some_iff.mp hrun
    exact .returned h hrun
  | throws k error =>
    obtain ⟨c, -, rfl⟩ := Option.map_eq_some_iff.mp hrun
    exact .throws h error
  | stop k =>
    obtain ⟨c, -, rfl⟩ := Option.map_eq_some_iff.mp hrun
    exact .setCall h trivial

theorem consentInv_reachable (hs : (consentSystem w Orderly).Reachable s) : ConsentInv s := by
  refine hs.invariant (fun s hinit => ?_) fun s a t _ h hstep => ?_
  · obtain ⟨hstart, -, hcalls, -⟩ := hinit
    refine ⟨hstart, fun c hc => ?_⟩
    rw [hcalls] at hc
    cases hc
  · have hok := StepOk.run h hstep
    exact ⟨hok.store.orderly, hok.calls⟩

/-! ## Runs -/

/-- What the tables of `t` keep of the withdrawals of `s`. -/
structure WithdrawalKept (s t : ConsentStore) : Prop where
  contacts : ∀ (i : Nat) (c : ContactRow), s.contacts[i]? = some c → c.status ≠ .subscribed →
    ∃ c', t.contacts[i]? = some c' ∧ c'.status ≠ .subscribed ∧
      EvidenceKept c'.status c.toEvidence c'.toEvidence
  consents : ∀ (i : Nat) (k : ConsentRow), s.consents[i]? = some k → k.status ≠ .subscribed →
    ∃ k', t.consents[i]? = some k' ∧ k'.status ≠ .subscribed ∧
      EvidenceKept k'.status k.toEvidence k'.toEvidence
  erased : ∀ (i : Nat) (c : ContactRow), s.contacts[i]? = some c → c.status = .erased →
    ∃ c', t.contacts[i]? = some c' ∧ c'.email = none ∧ c'.name = "" ∧ c'.consent_ip = "" ∧
      ∀ k ∈ t.consents, k.contact_id = i → k.consent_ip = ""

/-- Along a run, rows only evolve. -/
theorem path_evolves {as : List ConsentAction} {t : ConsentState}
    (hs : (consentSystem w Orderly).Reachable s) (hp : (consentSystem w Orderly).Path s as t) :
    Grows ContactEvolves s.store.contacts t.store.contacts ∧
      Grows ConsentEvolves s.store.consents t.store.consents := by
  refine hs.path_invariant (P := fun t => Grows ContactEvolves s.store.contacts t.store.contacts ∧
    Grows ConsentEvolves s.store.consents t.store.consents) hp (fun t a u ht h hstep => ?_) ?_
  · have hok := StepOk.run (consentInv_reachable ht) hstep
    exact ⟨h.1.trans ContactEvolves.trans hok.store.contacts,
      h.2.trans ConsentEvolves.trans hok.store.consents⟩
  · exact ⟨.refl ContactEvolves.refl _, .refl ConsentEvolves.refl _⟩

/-- Whoever has withdrawn stays withdrawn, with the evidence there was, and no step makes a
    subscribed consent for a contact that is not subscribed. -/
theorem withdrawal_permanent (w : ConsentWorld) {s t : ConsentState} {as : List ConsentAction}
    (hs : (consentSystem w Orderly).Reachable s) (hp : (consentSystem w Orderly).Path s as t) :
    WithdrawalKept s.store t.store ∧
      ∀ a u, (consentSystem w Orderly).step t a u → BornSubscribed t.store u.store := by
  obtain ⟨hcontacts, hconsents⟩ := path_evolves hs hp
  have hinv := consentInv_reachable (hs.path hp)
  refine ⟨⟨fun i c hc hst => ?_, fun i k hk hst => ?_, fun i c hc hst => ?_⟩,
    fun a u hstep => (StepOk.run hinv hstep).store.born⟩
  · obtain ⟨c', hc', -, hev⟩ := hcontacts i c hc
    exact ⟨c', hc', hev.withdrawn hst, hev.evidence hst⟩
  · obtain ⟨k', hk', -, -, hev⟩ := hconsents i k hk
    exact ⟨k', hk', hev.withdrawn hst, hev.evidence hst⟩
  · obtain ⟨c', hc', -, hev⟩ := hcontacts i c hc
    obtain ⟨hemail, hname, hip⟩ :=
      hinv.orderly.contact c' (List.mem_of_getElem? hc') (hev.erased hst)
    refine ⟨c', hc', hemail, hname, hip, fun k hk hki => ?_⟩
    exact (hinv.orderly.consents i c' hc' (hev.erased hst) k hk hki).2

/-! ## A contact that withdraws and is erased -/

def plainWorld : ConsentWorld := { emailHash := id, localHour := fun _ _ => 12 }

def annEntry : ImportEntry where
  account_id := "a"
  brand_id := "b"
  email := "ann@example.com"
  lists := ["news"]
  evidence := { consent_at := 0, consent_method := "form", consent_source := "site"
                consent_ip := "10.0.0.1" }
  contactToken := "t1"
  consentToken := "t2"

/-- Ann is imported and withdraws. -/
def annWithdraws : List ConsentAction :=
  [.createBrand "b" "a", .request (.importEntry annEntry), .next 0 "", .next 0 "",
    .request (.markUnsubscribed 0 "a" ""), .next 1 "", .next 1 ""]

/-- She asks to be erased. -/
def annErased : List ConsentAction := [.request (.erase 0 "a"), .next 2 "", .next 2 "t3"]

/-- The status and the IP of the contacts. -/
def marks (s : ConsentState) : List (ContactStatus × String) :=
  s.store.contacts.map fun c => (c.status, c.consent_ip)

theorem exists_ann : ∃ s t, (consentSystem plainWorld Orderly).Reachable s ∧
    (∃ as, (consentSystem plainWorld Orderly).Path s as t) ∧
      marks s = [(.unsubscribed, "10.0.0.1")] ∧ marks t = [(.erased, "")] := by
  have hinit : (consentSystem plainWorld Orderly).init { clock := 0, store := {} } := by
    refine ⟨⟨fun k hk => ?_, fun c hc => ?_, fun i c hc => ?_⟩, rfl, rfl, rfl, rfl⟩
    · cases hk
    · cases hc
    · cases hc
  obtain ⟨s, hreach, hs⟩ := Transition.exists_reachable_checked
    (M := consentSystem plainWorld Orderly) (C := fun _ _ => true)
    (fun _ _ _ h => h) hinit annWithdraws
    (fun s => marks s = [(.unsubscribed, "10.0.0.1")] &&
      (Transition.runChecked (ConsentAction.run plainWorld) (fun _ _ => true) s annErased).any
        fun t => marks t = [(.erased, "")]) (by decide +kernel)
  rw [Bool.and_eq_true, decide_eq_true_eq] at hs
  obtain ⟨t, hpath, ht⟩ := Transition.exists_path_checked
    (M := consentSystem plainWorld Orderly) (fun _ _ _ h => h) s annErased _ hs.2
  exact ⟨s, t, hreach.of_restrict, ⟨_, hpath.of_restrict⟩, hs.1, of_decide_eq_true ht⟩

/-- A contact that has withdrawn is erased. -/
theorem withdrawal_permanent_small : ∃ s t : ConsentState,
    marks s = [(.unsubscribed, "10.0.0.1")] ∧ WithdrawalKept s.store t.store := by
  obtain ⟨s, t, hs, ⟨as, hp⟩, hmarks, -⟩ := exists_ann
  exact ⟨s, t, hmarks, (withdrawal_permanent plainWorld hs hp).1⟩

/-- The IP of a contact that has withdrawn goes with its erasure. -/
theorem evidence_erased : ¬∀ (w : ConsentWorld) (s t : ConsentState) (as : List ConsentAction),
    (consentSystem w Orderly).Reachable s → (consentSystem w Orderly).Path s as t →
      ∀ (i : Nat) (c c' : ContactRow), s.store.contacts[i]? = some c →
        t.store.contacts[i]? = some c' → c.status ≠ .subscribed →
          c'.toEvidence = c.toEvidence := by
  intro hall
  obtain ⟨s, t, hs, ⟨as, hp⟩, hs', ht'⟩ := exists_ann
  obtain ⟨c, hc, hcmark⟩ := List.map_eq_singleton_iff.mp hs'
  obtain ⟨c', hc', hcmark'⟩ := List.map_eq_singleton_iff.mp ht'
  obtain ⟨hst, hip⟩ := Prod.mk.inj hcmark
  have hsame := hall plainWorld s t as hs hp 0 c c' (by rw [hc]; rfl) (by rw [hc']; rfl)
    (by rw [hst]; decide)
  have hip' := (Prod.mk.inj hcmark').2
  rw [hsame, hip] at hip'
  exact absurd hip' (by decide)

end ConsentState

end WorkflowBoard.Consents
