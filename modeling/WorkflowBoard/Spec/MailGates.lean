import WorkflowBoard.ForStd.List
import WorkflowBoard.Native.EmailQueue

/-!
# What the gates of a mail let through

Each gate of `sendOne` either ends in a write or hands the mail on, and then what it asks for
holds of what it was given.
-/

namespace WorkflowBoard.Email

variable {localHour : LocalHour} {now : Date} {t : EmailTables} {row : EmailSend}

/-- The mail goes no further. -/
def SendStage.IsWrite (stage : SendStage) : Prop := ∃ f, stage = .finishing f

/-- A contact that may be mailed. -/
structure ContactOk (row : EmailSend) (c : Contact) : Prop where
  account : c.account_id = row.account_id
  subscribed : c.status = .subscribed
  address : c.email ≠ ""

/-- A consent under which the contact may be mailed at the time. -/
structure ConsentOk (localHour : LocalHour) (now : Date) (c : Contact)
    (k : BrandConsent) : Prop where
  subscribed : k.status = .subscribed
  fresh : consentFresh k.toConsentPeriod now = true
  day : k.night_consent = true ∨ isNightFor localHour now (zoneOf c.timezone) = false

/-- A channel that is still of the brand of the row. -/
structure ChannelOk (row : EmailSend) (c : MailChannel) : Prop where
  branded : row.brand_id ≠ ""
  brand : c.brand_id = row.brand_id
  account : c.account_id = row.account_id

/-- What the gate of the contact lets through. -/
theorem contactGate_cases : (contactGate t row).IsWrite ∨
    ∃ c, contactGate t row = .consent c ∧ t.contact row.contact_id = some c ∧ ContactOk row c := by
  unfold contactGate
  cases hc : t.contact row.contact_id with
  | none => exact .inl ⟨_, rfl⟩
  | some c =>
    dsimp only
    split
    · rename_i hok
      exact .inr ⟨c, rfl, rfl, hok.1, hok.2.1, hok.2.2⟩
    · exact .inl ⟨_, rfl⟩

theorem consentGate_cases {c : Contact} : (consentGate localHour now t row c).IsWrite ∨
    consentGate localHour now t row c = .post ∧
      ∃ k, t.consentFor row.contact_id row.account_id row.brand_id = some k ∧
        ConsentOk localHour now c k := by
  unfold consentGate
  cases hk : t.consentFor row.contact_id row.account_id row.brand_id with
  | none => exact .inl ⟨_, rfl⟩
  | some k =>
    dsimp only
    split
    · rename_i hok
      split
      · exact .inl ⟨_, rfl⟩
      · rename_i hday
        refine .inr ⟨rfl, k, rfl, hok.1, hok.2, ?_⟩
        cases hnight : k.night_consent with
        | true => exact .inl rfl
        | false => exact .inr (by simpa [hnight] using hday)
    · exact .inl ⟨_, rfl⟩

theorem postGate_cases {post : Option PostStatus} : (postGate post).IsWrite ∨
    postGate post = .campaign ∧ post = some .sending := by
  unfold postGate
  split
  · rename_i hpost
    exact .inr ⟨rfl, hpost⟩
  · exact .inl ⟨_, rfl⟩

theorem campaignGate_cases {campaign : Option MailCampaign} : (campaignGate campaign).IsWrite ∨
    ∃ c, campaignGate campaign = .channel c ∧ campaign = some c := by
  unfold campaignGate
  cases campaign with
  | none => exact .inl ⟨_, rfl⟩
  | some c =>
    dsimp only
    split
    · exact .inl ⟨_, rfl⟩
    · exact .inr ⟨c, rfl, rfl⟩

theorem channelGate_cases {campaign : MailCampaign} {channel : Option MailChannel} :
    (channelGate now row campaign channel).IsWrite ∨
      ∃ c, channel = some c ∧ ChannelOk row c ∧ campaign.status = .active ∧
        (channelGate now row campaign channel = .sender c ∧ c.list_name = "" ∨
          channelGate now row campaign channel = .list campaign c) := by
  unfold channelGate
  cases channel with
  | none => exact .inl ⟨_, rfl⟩
  | some c =>
    dsimp only
    split
    · exact .inl ⟨_, rfl⟩
    · rename_i hbrand
      split
      · exact .inl ⟨_, rfl⟩
      · rename_i hactive
        split
        · exact .inl ⟨_, rfl⟩
        · refine .inr ⟨c, rfl, ?_, not_not.mp hactive, ?_⟩
          · simp only [not_or, not_not] at hbrand
            exact ⟨hbrand.1, hbrand.2.1, hbrand.2.2⟩
          · split
            · rename_i hlist
              exact .inl ⟨rfl, hlist⟩
            · exact .inr rfl

theorem listGate_cases {channel : MailChannel} {held : Bool} :
    (listGate now channel held).IsWrite ∨
      listGate now channel held = .sender channel ∧ held = false := by
  unfold listGate
  cases held with
  | true => exact .inl ⟨_, rfl⟩
  | false => exact .inr ⟨rfl, rfl⟩

theorem senderGate_cases {sender : Option ChannelSender} : (senderGate sender).IsWrite ∨
    ∃ s, senderGate sender = .composing s ∧ sender = some s := by
  cases sender with
  | none => exact .inl ⟨_, rfl⟩
  | some s => exact .inr ⟨s, rfl, rfl⟩

section Cache

variable {κ α : Type} [DecidableEq κ] {entries : List (κ × α)} (key : κ) (read : α)

/-- What holds of the entries and of what is read now holds of what the cache hands out and of what
    it then has. -/
theorem cached_all {P : κ → α → Prop} (h : ∀ e ∈ entries, P e.1 e.2) (hread : P key read) :
    P key (cached entries key read).1 ∧ ∀ e ∈ (cached entries key read).2, P e.1 e.2 := by
  unfold cached
  cases hfind : entries.find? (·.1 = key) with
  | none => exact ⟨hread, List.forall_mem_cons.mpr ⟨hread, h⟩⟩
  | some entry =>
    have hkey : entry.1 = key := by simpa using List.find?_some hfind
    exact ⟨hkey ▸ h entry (List.mem_of_find?_eq_some hfind), h⟩

variable (entries) in
theorem cached_find? : (cached entries key read).2.find? (·.1 = key) =
    some (key, (cached entries key read).1) := by
  unfold cached
  cases hfind : entries.find? (·.1 = key) with
  | none => simp
  | some entry =>
    obtain rfl : entry.1 = key := by simpa using List.find?_some hfind
    exact hfind

variable {key read} in
theorem cached_keeps {key' : κ} {e : κ × α} (h : entries.find? (·.1 = key') = some e) :
    (cached entries key read).2.find? (·.1 = key') = some e := by
  unfold cached
  cases hfind : entries.find? (·.1 = key) with
  | none =>
    have hne : key ≠ key' := by
      rintro rfl
      rw [hfind] at h
      cases h
    simpa [hne] using h
  | some entry => exact h

end Cache

/-- A read starts no request. -/
theorem sendOneNext_ne_calling {cache cache' : PassCache} {stage stage' : SendStage}
    (hs : sendOneNext localHour now t row cache stage = some (stage', cache'))
    (sender : ChannelSender) (n : Nat) : stage' ≠ .calling sender n := by
  cases stage with
  | contact =>
    cases hs
    rcases @contactGate_cases t row with ⟨f, h⟩ | ⟨c, h, -⟩ <;>
      exact fun he => by cases h.symm.trans he
  | consent c =>
    cases hs
    rcases @consentGate_cases localHour now t row c with ⟨f, h⟩ | ⟨h, -⟩ <;>
      exact fun he => by cases h.symm.trans he
  | post =>
    cases hs
    rcases postGate_cases with ⟨f, h⟩ | ⟨h, -⟩ <;> exact fun he => by cases h.symm.trans he
  | campaign =>
    cases hs
    rcases campaignGate_cases with ⟨f, h⟩ | ⟨c, h, -⟩ <;> exact fun he => by cases h.symm.trans he
  | channel campaign =>
    cases hs
    rcases channelGate_cases with ⟨f, h⟩ | ⟨c, -, -, -, ⟨h, -⟩ | h⟩ <;>
      exact fun he => by cases h.symm.trans he
  | list campaign channel =>
    cases hs
    rcases listGate_cases with ⟨f, h⟩ | ⟨h, -⟩ <;> exact fun he => by cases h.symm.trans he
  | sender channel =>
    cases hs
    rcases senderGate_cases with ⟨f, h⟩ | ⟨s, h, -⟩ <;> exact fun he => by cases h.symm.trans he
  | _ => cases hs

/-! ## Runs of the queue -/

namespace EmailState

open Budget (SqlStore)

/-- Tables in which everything is as it should be. -/
def openTables : EmailTables :=
  { contact := fun _ => some { account_id := "a", status := .subscribed, email := "ann@x.org" }
    consent := fun _ _ _ => some { consent_at := 0, status := .subscribed, night_consent := true }
    post := fun _ => some .sending
    campaign := fun _ => some { account_id := "a", status := .active }
    channel := fun _ => some { account_id := "a", status := .active, brand_id := "b" }
    held := fun _ _ => false
    brand := fun _ _ => true
    secret := fun _ _ => some { provider := "resend", api_key := "key" } }

/-- A world whose clocks all show noon. -/
def noonWorld (store : SqlStore) : EmailWorld := { store, localHour := fun _ _ => 12 }

def emptyQueue : EmailState :=
  { clock := 0, store := { tables := openTables }, flushed := { tables := openTables } }

theorem exists_checked_mail (store : SqlStore) (C : EmailState → EmailAction → Bool)
    (actions : List EmailAction) (q : EmailState → Bool)
    (h : (Transition.runChecked (EmailAction.run (noonWorld store)) C emptyQueue actions).any q =
      true) :
    ∃ s, ((emailSystem (noonWorld store)).restrict fun s a _ => C s a = true).Reachable s ∧
      q s = true :=
  Transition.exists_reachable_checked (M := emailSystem (noonWorld store)) (fun _ _ _ hs => hs)
    ⟨rfl, rfl, rfl, rfl, rfl⟩ actions q h

/-- The mail of a post to a contact. -/
def mailTo (contact : String) : EmailAction :=
  .enqueue { account_id := "a", campaign_id := "c", channel_id := "ch", post_id := "p"
             contact_id := contact, brand_id := "b", next_attempt_at := 0 }

/-- A pass with one row, from its start to its request. -/
def toRequest (k : Nat) : List EmailAction := .begin :: List.replicate 12 (.next k)

def accepted : ProviderAnswer := .answered 200 "m1" ""

end EmailState

end WorkflowBoard.Email
