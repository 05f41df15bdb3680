import WorkflowBoard.Spec.MailGates

/-!
# The gates that a marketing mail has passed

The contact of a mail and its consent are read after the claim of its row. Post, campaign, channel
and hold of the list may come from the cache of the pass and the clock is the one it began at, so
of these no more is known than that they were so at an instant since the pass began.
-/

namespace WorkflowBoard.Email

open Budget (SqlStore)

namespace EmailState

/-- At an instant from `a` to `b` the property held. -/
def Between (s : EmailState) (a b : Nat) (P : Instant → Prop) : Prop :=
  ∃ (j : Nat) (i : Instant), a ≤ j ∧ j ≤ b ∧ s.instants[j]? = some i ∧ P i

/-- The gates of a mail, each at an instant up to its request: those of the contact and its consent
    after the claim of the row, the others after `start`. -/
structure MailGated (w : EmailWorld) (s : EmailState) (start : Nat) (c : ProviderCall) : Prop where
  contact : s.Between c.claimed c.started fun i =>
    ∃ a, i.tables.contact c.row.contact_id = some a ∧ ContactOk c.row a
  consent : s.Between c.claimed c.started fun i => ∃ k,
    i.tables.consentFor c.row.contact_id c.row.account_id c.row.brand_id = some k ∧
      k.status = .subscribed
  period : ∃ (a : Contact) (k : BrandConsent),
    (s.Between c.claimed c.started fun i => i.tables.contact c.row.contact_id = some a) ∧
    (s.Between c.claimed c.started fun i =>
      i.tables.consentFor c.row.contact_id c.row.account_id c.row.brand_id = some k) ∧
    s.Between start c.started fun i => ConsentOk w.localHour i.clock a k
  post : s.Between start c.started fun i => i.tables.post c.row.post_id = some .sending
  campaign : s.Between start c.started fun i => ∃ ca,
    i.tables.campaign c.row.campaign_id = some ca ∧ ca.status = .active
  channel : s.Between start c.started fun i => ∃ ch,
    i.tables.channel c.row.channel_id = some ch ∧ ChannelOk c.row ch ∧ ch.status = .active
  list : ∃ (ca : MailCampaign) (ch : MailChannel),
    (s.Between start c.started fun i => i.tables.campaign c.row.campaign_id = some ca) ∧
    (s.Between start c.started fun i => i.tables.channel c.row.channel_id = some ch) ∧
    s.Between start c.started fun i => i.tables.listHeld ca.account_id ch.list_name = false

/-! ## The invariant -/

/-- What the cache of a pass was read from. -/
structure CacheGated (s : EmailState) (p : Pass) : Prop where
  posts : ∀ e ∈ p.cache.posts, s.Between p.since s.present fun i => i.tables.post e.1 = e.2
  campaigns : ∀ e ∈ p.cache.campaigns,
    s.Between p.since s.present fun i => i.tables.campaign e.1 = e.2
  channels : ∀ e ∈ p.cache.channels,
    s.Between p.since s.present fun i => i.tables.channel e.1 = e.2
  heldLists : ∀ e ∈ p.cache.heldLists,
    s.Between p.since s.present fun i => i.tables.listHeld e.1.1 e.1.2 = e.2
  /-- A channel with a sender is active in the cache. -/
  senders : ∀ e ∈ p.cache.senders, e.2.isSome = true → ∃ ch,
    p.cache.channels.find? (·.1 = e.1) = some (e.1, some ch) ∧ ch.status = .active

/-- The contact of the row, as it was read after the claim. -/
def ContactRead (s : EmailState) (job : SendJob) (a : Contact) : Prop :=
  (s.Between job.claimed s.present fun i => i.tables.contact job.row.contact_id = some a) ∧
    ContactOk job.row a

/-- The contact and its consent. -/
def Addressed (w : EmailWorld) (s : EmailState) (p : Pass) (job : SendJob) : Prop :=
  ∃ a k, ContactRead s job a ∧ ConsentOk w.localHour p.now a k ∧
    s.Between job.claimed s.present fun i =>
      i.tables.consentFor job.row.contact_id job.row.account_id job.row.brand_id = some k

def PostRead (s : EmailState) (p : Pass) (job : SendJob) : Prop :=
  s.Between p.since s.present fun i => i.tables.post job.row.post_id = some .sending

def CampaignRead (s : EmailState) (p : Pass) (job : SendJob) (ca : MailCampaign) : Prop :=
  s.Between p.since s.present fun i => i.tables.campaign job.row.campaign_id = some ca

/-- The channel of the row, as it is in the cache. -/
def ChannelRead (p : Pass) (job : SendJob) (ch : MailChannel) : Prop :=
  p.cache.channels.find? (·.1 = job.row.channel_id) = some (job.row.channel_id, some ch) ∧
    ChannelOk job.row ch

def ListRead (s : EmailState) (p : Pass) (ca : MailCampaign) (ch : MailChannel) : Prop :=
  s.Between p.since s.present fun i => i.tables.listHeld ca.account_id ch.list_name = false

/-- What a pass knows of a mail at a stage. -/
def StageGated (w : EmailWorld) (s : EmailState) (p : Pass) (job : SendJob) : SendStage → Prop
  | .contact => True
  | .consent a => ContactRead s job a
  | .post => Addressed w s p job
  | .campaign => Addressed w s p job ∧ PostRead s p job
  | .channel ca => Addressed w s p job ∧ PostRead s p job ∧ CampaignRead s p job ca
  | .list ca ch => Addressed w s p job ∧ PostRead s p job ∧ CampaignRead s p job ca ∧
      ca.status = .active ∧ ChannelRead p job ch
  | .sender ch => Addressed w s p job ∧ PostRead s p job ∧ ∃ ca, CampaignRead s p job ca ∧
      ca.status = .active ∧ ChannelRead p job ch ∧ ListRead s p ca ch
  | .composing _ => Addressed w s p job ∧ PostRead s p job ∧ ∃ ca ch, CampaignRead s p job ca ∧
      ca.status = .active ∧ ChannelRead p job ch ∧ ListRead s p ca ch ∧ ch.status = .active
  | .calling _ _ | .finishing _ => True

def PhaseGated (w : EmailWorld) (s : EmailState) (p : Pass) : Prop :=
  match p.phase with
  | .loading _ _ claimed => claimed ≤ s.present
  | .sending job stage => job.claimed ≤ s.present ∧ StageGated w s p job stage
  | _ => True

/-- What a pass knows at each stage, and what its cache was read from. -/
structure PassGated (w : EmailWorld) (s : EmailState) (p : Pass) : Prop where
  began : s.Between p.since p.since fun i => i.clock = p.now
  cache : CacheGated s p
  phase : PhaseGated w s p

structure GateInv (w : EmailWorld) (s : EmailState) : Prop where
  passes : ∀ p ∈ s.passes, PassGated w s p
  calls : ∀ c ∈ s.calls, MailGated w s c.since c

section Steps

variable {w : EmailWorld} {s s' : EmailState} {k : Nat} {p q : Pass} {job : SendJob}

theorem Between.mono {a b b' : Nat} {P : Instant → Prop} (h : s.Between a b P)
    (hpast : s.instants <+: s'.instants) (hb : b ≤ b') : s'.Between a b' P := by
  obtain ⟨j, i, ha, hj, hi, hp⟩ := h
  obtain ⟨rest, hrest⟩ := hpast
  refine ⟨j, i, ha, Nat.le_trans hj hb, ?_, hp⟩
  rw [← hrest]
  exact (List.getElem?_append_left (lt_of_getElem? hi)).trans hi

theorem Between.now {a : Nat} {P : Instant → Prop} (ha : a ≤ s.present)
    (hp : P ⟨s.clock, s.store.tables⟩) : s.Between a s.present P :=
  ⟨s.present, _, ha, Nat.le_refl _, List.getElem?_concat_length, hp⟩

theorem Between.imp {a b : Nat} {P Q : Instant → Prop} (h : s.Between a b P)
    (hpq : ∀ i, P i → Q i) : s.Between a b Q := by
  obtain ⟨j, i, ha, hj, hi, hp⟩ := h
  exact ⟨j, i, ha, hj, hi, hpq i hp⟩

/-! ### Time goes on -/

theorem Addressed.mono (h : Addressed w s p job) (hpast : s.instants <+: s'.instants)
    (hnow : s.present ≤ s'.present) : Addressed w s' p job := by
  obtain ⟨a, k, ⟨ha, hok⟩, hk, hread⟩ := h
  exact ⟨a, k, ⟨ha.mono hpast hnow, hok⟩, hk, hread.mono hpast hnow⟩

theorem StageGated.mono {stage : SendStage} (h : StageGated w s p job stage)
    (hpast : s.instants <+: s'.instants) (hnow : s.present ≤ s'.present) :
    StageGated w s' p job stage := by
  cases stage with
  | consent a => exact ⟨h.1.mono hpast hnow, h.2⟩
  | post => exact Addressed.mono h hpast hnow
  | campaign => exact ⟨h.1.mono hpast hnow, h.2.mono hpast hnow⟩
  | channel ca => exact ⟨h.1.mono hpast hnow, h.2.1.mono hpast hnow, h.2.2.mono hpast hnow⟩
  | list ca ch =>
    obtain ⟨haddr, hpost, hca, hrest⟩ := h
    exact ⟨haddr.mono hpast hnow, hpost.mono hpast hnow, hca.mono hpast hnow, hrest⟩
  | sender ch =>
    obtain ⟨haddr, hpost, ca, hca, hactive, hch, hlist⟩ := h
    exact ⟨haddr.mono hpast hnow, hpost.mono hpast hnow, ca, hca.mono hpast hnow, hactive, hch,
      hlist.mono hpast hnow⟩
  | composing sender =>
    obtain ⟨haddr, hpost, ca, ch, hca, hactive, hch, hlist, hon⟩ := h
    exact ⟨haddr.mono hpast hnow, hpost.mono hpast hnow, ca, ch, hca.mono hpast hnow, hactive, hch,
      hlist.mono hpast hnow, hon⟩
  | _ => trivial

theorem PassGated.mono (h : PassGated w s p) (hpast : s.instants <+: s'.instants)
    (hnow : s.present ≤ s'.present) : PassGated w s' p where
  began := h.began.mono hpast (Nat.le_refl _)
  cache := {
    posts := fun e he => (h.cache.posts e he).mono hpast hnow
    campaigns := fun e he => (h.cache.campaigns e he).mono hpast hnow
    channels := fun e he => (h.cache.channels e he).mono hpast hnow
    heldLists := fun e he => (h.cache.heldLists e he).mono hpast hnow
    senders := h.cache.senders }
  phase := by
    have hphase := h.phase
    unfold PhaseGated at hphase ⊢
    split
    · rename_i hp
      rw [hp] at hphase
      exact Nat.le_trans hphase hnow
    · rename_i hp
      rw [hp] at hphase
      exact ⟨Nat.le_trans hphase.1 hnow, hphase.2.mono hpast hnow⟩
    · trivial

theorem MailGated.mono {start : Nat} {c : ProviderCall} (h : MailGated w s start c)
    (hpast : s.instants <+: s'.instants) : MailGated w s' start c := by
  obtain ⟨a, k, ha, hk, hperiod⟩ := h.period
  obtain ⟨ca, ch, hca, hch, hlist⟩ := h.list
  exact {
    contact := h.contact.mono hpast (Nat.le_refl _)
    consent := h.consent.mono hpast (Nat.le_refl _)
    period := ⟨a, k, ha.mono hpast (Nat.le_refl _), hk.mono hpast (Nat.le_refl _),
      hperiod.mono hpast (Nat.le_refl _)⟩
    post := h.post.mono hpast (Nat.le_refl _)
    campaign := h.campaign.mono hpast (Nat.le_refl _)
    channel := h.channel.mono hpast (Nat.le_refl _)
    list := ⟨ca, ch, hca.mono hpast (Nat.le_refl _), hch.mono hpast (Nat.le_refl _),
      hlist.mono hpast (Nat.le_refl _)⟩ }

/-- A step keeps what the passes and the calls know if it only adds to the instants. -/
theorem GateInv.move (h : GateInv w s) (hpast : s.instants <+: s'.instants)
    (hnow : s.present ≤ s'.present)
    (hpasses : ∀ p ∈ s'.passes, p ∈ s.passes ∨ PassGated w s' p)
    (hcalls : ∀ c ∈ s'.calls, c ∈ s.calls ∨ MailGated w s' c.since c) : GateInv w s' where
  passes p hp := (hpasses p hp).elim (fun hold => (h.passes p hold).mono hpast hnow) id
  calls c hc := (hcalls c hc).elim (fun hold => (h.calls c hold).mono hpast) id

theorem GateInv.setPass (h : GateInv w s) (hq : PassGated w s q) : GateInv w (s.setPass k q) := by
  refine h.move (List.prefix_refl _) (Nat.le_refl _) (fun p hp => ?_) fun c hc => .inl hc
  rcases List.mem_or_eq_of_mem_set hp with hp | rfl
  · exact .inl hp
  · exact .inr (hq.mono (List.prefix_refl _) (Nat.le_refl _))

theorem PassGated.withPhase {phase : PassPhase} (h : PassGated w s p)
    (hphase : PhaseGated w s { p with phase }) : PassGated w s { p with phase } where
  began := h.began
  cache := ⟨h.cache.posts, h.cache.campaigns, h.cache.channels, h.cache.heldLists, h.cache.senders⟩
  phase := hphase

theorem PassGated.since_le (h : PassGated w s p) : p.since ≤ s.present := by
  obtain ⟨j, i, hj, -, hi, -⟩ := h.began
  have hlt := lt_of_getElem? hi
  simp only [instants, List.length_append, List.length_singleton] at hlt
  unfold present
  omega

/-! ### Gates -/

section Gates

variable {stage : SendStage} {cache : PassCache} {sender : ChannelSender}

theorem StageGated.of_write (h : stage.IsWrite) : StageGated w s q job stage := by
  obtain ⟨f, rfl⟩ := h
  trivial

/-- The next read of a mail: what its gate lets through holds of what was read. -/
theorem PassGated.read {stage' : SendStage} (h : PassGated w s p)
    (hclaimed : job.claimed ≤ s.present) (hstage : StageGated w s p job stage)
    (hs : sendOneNext w.localHour p.now s.store.tables job.row p.cache stage =
      some (stage', cache)) :
    CacheGated s { p with cache } ∧ StageGated w s { p with cache } job stage' := by
  have hsince := h.since_le
  obtain ⟨hposts, hcampaigns, hchannels, hheld, hsenders⟩ := h.cache
  cases stage with
  | contact =>
    cases hs
    refine ⟨⟨hposts, hcampaigns, hchannels, hheld, hsenders⟩, ?_⟩
    rcases @contactGate_cases s.store.tables job.row with hw | ⟨a, heq, ha, hok⟩
    · exact .of_write hw
    · rw [heq]
      exact ⟨.now hclaimed ha, hok⟩
  | consent a =>
    cases hs
    refine ⟨⟨hposts, hcampaigns, hchannels, hheld, hsenders⟩, ?_⟩
    rcases @consentGate_cases w.localHour p.now s.store.tables job.row a with hw | ⟨heq, k, hk, hok⟩
    · exact .of_write hw
    · rw [heq]
      exact ⟨a, k, hstage, hok, .now hclaimed hk⟩
  | post =>
    simp only [sendOneNext, Option.some.injEq, Prod.mk.injEq] at hs
    obtain ⟨rfl, rfl⟩ := hs
    obtain ⟨hpost, hall⟩ := cached_all job.row.post_id _
      (P := fun id post => s.Between p.since s.present fun i => i.tables.post id = post)
      hposts (.now hsince rfl)
    refine ⟨⟨hall, hcampaigns, hchannels, hheld, hsenders⟩, ?_⟩
    rcases postGate_cases with hw | ⟨heq, hsending⟩
    · exact .of_write hw
    · rw [heq]
      rw [hsending] at hpost
      exact ⟨hstage, hpost⟩
  | campaign =>
    simp only [sendOneNext, Option.some.injEq, Prod.mk.injEq] at hs
    obtain ⟨rfl, rfl⟩ := hs
    obtain ⟨hcampaign, hall⟩ := cached_all job.row.campaign_id _
      (P := fun id ca => s.Between p.since s.present fun i => i.tables.campaign id = ca)
      hcampaigns (.now hsince rfl)
    refine ⟨⟨hposts, hall, hchannels, hheld, hsenders⟩, ?_⟩
    rcases campaignGate_cases with hw | ⟨ca, heq, hsome⟩
    · exact .of_write hw
    · rw [heq]
      rw [hsome] at hcampaign
      exact ⟨hstage.1, hstage.2, hcampaign⟩
  | channel ca =>
    simp only [sendOneNext, Option.some.injEq, Prod.mk.injEq] at hs
    obtain ⟨rfl, rfl⟩ := hs
    obtain ⟨haddr, hpost, hcampaign⟩ := hstage
    obtain ⟨-, hall⟩ := cached_all job.row.channel_id _
      (P := fun id ch => s.Between p.since s.present fun i => i.tables.channel id = ch)
      hchannels (.now hsince rfl)
    refine ⟨⟨hposts, hcampaigns, hall, hheld, fun e he hsome => ?_⟩, ?_⟩
    · obtain ⟨ch, hfind, hon⟩ := hsenders e he hsome
      exact ⟨ch, cached_keeps hfind, hon⟩
    · rcases channelGate_cases with hw | ⟨ch, hsome, hok, hactive, hnext⟩
      · exact .of_write hw
      · have hfind := cached_find? p.cache.channels job.row.channel_id
          (s.store.tables.channel job.row.channel_id)
        rw [hsome] at hfind
        rcases hnext with ⟨heq, hlist⟩ | heq
        · rw [heq]
          refine ⟨haddr, hpost, ca, hcampaign, hactive, ⟨hfind, hok⟩, .now hsince ?_⟩
          simp [EmailTables.listHeld, hlist]
        · rw [heq]
          exact ⟨haddr, hpost, hcampaign, hactive, hfind, hok⟩
  | list ca ch =>
    simp only [sendOneNext, Option.some.injEq, Prod.mk.injEq] at hs
    obtain ⟨rfl, rfl⟩ := hs
    obtain ⟨haddr, hpost, hcampaign, hactive, hchannel⟩ := hstage
    obtain ⟨hlist, hall⟩ := cached_all (ca.account_id, ch.list_name) _
      (P := fun key held => s.Between p.since s.present fun i =>
        i.tables.listHeld key.1 key.2 = held) hheld (.now hsince rfl)
    refine ⟨⟨hposts, hcampaigns, hchannels, hall, hsenders⟩, ?_⟩
    rcases listGate_cases with hw | ⟨heq, hfree⟩
    · exact .of_write hw
    · rw [heq]
      rw [hfree] at hlist
      exact ⟨haddr, hpost, ca, hcampaign, hactive, hchannel, hlist⟩
  | sender ch =>
    simp only [sendOneNext, Option.some.injEq, Prod.mk.injEq] at hs
    obtain ⟨rfl, rfl⟩ := hs
    obtain ⟨haddr, hpost, ca, hcampaign, hactive, hchannel, hlist⟩ := hstage
    obtain ⟨hsender, hall⟩ := cached_all job.row.channel_id
      (if ch.status = .active then s.store.tables.senderFor ch else none)
      (P := fun id sender => sender.isSome = true → ∃ ch,
        p.cache.channels.find? (·.1 = id) = some (id, some ch) ∧ ch.status = .active)
      hsenders (fun hsome => by
        refine ⟨ch, hchannel.1, ?_⟩
        by_contra hoff
        rw [if_neg hoff] at hsome
        cases hsome)
    refine ⟨⟨hposts, hcampaigns, hchannels, hheld, hall⟩, ?_⟩
    rcases senderGate_cases with hw | ⟨sender, heq, hsome⟩
    · exact .of_write hw
    · rw [heq]
      obtain ⟨ch', hfind, hon⟩ := hsender (by rw [hsome]; rfl)
      rw [hchannel.1] at hfind
      obtain rfl : ch = ch' := by simpa using hfind
      exact ⟨haddr, hpost, ca, ch, hcampaign, hactive, hchannel, hlist, hon⟩
  | _ => cases hs

theorem PassGated.request (h : PassGated w s p) (hstage : StageGated w s p job (.composing sender))
    (afterClose : Bool) :
    MailGated w s p.since { row := job.row, since := p.since, claimed := job.claimed
                            started := s.present, afterClose } := by
  obtain ⟨⟨a, k, ⟨hcontact, hok⟩, hconsent, hread⟩, hpost, ca, ch, hca, hactive, ⟨hfind, hbrand⟩,
    hlist, hon⟩ := hstage
  have hch := h.cache.channels _ (List.mem_of_find?_eq_some hfind)
  have hbegan := h.began.mono (List.prefix_refl _) h.since_le
  exact {
    contact := hcontact.imp fun i hi => ⟨a, hi, hok⟩
    consent := hread.imp fun i hi => ⟨k, hi, hconsent.subscribed⟩
    period := ⟨a, k, hcontact, hread, hbegan.imp fun i hi => by rw [hi]; exact hconsent⟩
    post := hpost
    campaign := hca.imp fun i hi => ⟨ca, hi, hactive⟩
    channel := hch.imp fun i hi => ⟨ch, hi, hbrand, hon⟩
    list := ⟨ca, ch, hca, hch, hlist⟩ }

end Gates

/-! ### Steps -/

theorem instants_closeSend (i : Nat) :
    (s.closeSend w i).instants = s.instants ∧ (s.closeSend w i).present = s.present := by
  unfold EmailState.closeSend
  split
  · split <;> exact ⟨rfl, rfl⟩
  · exact ⟨rfl, rfl⟩

section

variable (h : GateInv w s)
include h

/-- The request of a mail, or its failure where there is no such provider. -/
theorem GateInv.startCall {sender : ChannelSender} (hp : PassGated w s p)
    (hclaimed : job.claimed ≤ s.present) (hstage : StageGated w s p job (.composing sender)) :
    GateInv w (s.startCall k p job sender) := by
  unfold EmailState.startCall
  split
  · refine h.move (List.prefix_refl _) (Nat.le_refl _) (fun q hq => ?_) fun c hc => ?_
    · rcases List.mem_or_eq_of_mem_set hq with hq | rfl
      · exact .inl hq
      · have hq : PassGated w s { p with phase := .sending job (.calling sender s.calls.length) } :=
          hp.withPhase ⟨hclaimed, trivial⟩
        exact .inr (hq.mono (List.prefix_refl _) (Nat.le_refl _))
    · rcases List.mem_append.mp hc with hc | hc
      · exact .inl hc
      · obtain rfl := List.mem_singleton.mp hc
        exact .inr ((hp.request hstage _).mono (List.prefix_refl _))
  · exact h.setPass (hp.withPhase ⟨hclaimed, trivial⟩)

theorem GateInv.modifySend (i : Nat) (f : EmailSend → EmailSend) :
    GateInv w (s.modifySend i f) :=
  h.move (List.prefix_refl _) (Nat.le_refl _) (fun _ hp => .inl hp) fun _ hc => .inl hc

theorem GateInv.closeSend (i : Nat) : GateInv w (s.closeSend w i) := by
  unfold EmailState.closeSend
  split
  · split
    · exact h.move (List.prefix_refl _) (Nat.le_refl _) (fun _ hp => .inl hp) fun _ hc => .inl hc
    · exact h
  · exact h

theorem GateInv.read {stage : SendStage} (hp : PassGated w s p)
    (hphase : p.phase = .sending job stage)
    (hs : ((sendOneNext w.localHour p.now s.store.tables job.row p.cache stage).map
      fun (stage, cache) => s.setPass k { p with cache, phase := .sending job stage }) = some s') :
    GateInv w s' := by
  obtain ⟨⟨stage', cache'⟩, hnext, rfl⟩ := Option.map_eq_some_iff.mp hs
  have hknown := hp.phase
  unfold PhaseGated at hknown
  rw [hphase] at hknown
  obtain ⟨hcache, hstage⟩ := hp.read hknown.1 hknown.2 hnext
  exact h.setPass ⟨hp.began, ⟨hcache.posts, hcache.campaigns, hcache.channels, hcache.heldLists,
    hcache.senders⟩, hknown.1, hstage⟩

theorem GateInv.passNext (hk : s.passes[k]? = some p)
    (hs : s.passNext w k p = some s') : GateInv w s' := by
  have hp := h.passes p (List.mem_of_getElem? hk)
  unfold EmailState.passNext at hs
  cases hphase : p.phase with
  | finding =>
    rw [hphase] at hs
    cases hs
    exact h.setPass (hp.withPhase trivial)
  | closing stuck =>
    rw [hphase] at hs
    cases stuck with
    | nil =>
      cases hs
      exact h.setPass (hp.withPhase trivial)
    | cons i stuck =>
      cases hs
      have hp' : PassGated w (s.closeSend w i) p :=
        hp.mono (by rw [(instants_closeSend i).1]) (by rw [(instants_closeSend i).2])
      exact (h.closeSend i).setPass (hp'.withPhase trivial)
  | listing =>
    rw [hphase] at hs
    cases hs
    exact h.setPass (hp.withPhase trivial)
  | claiming due =>
    rw [hphase] at hs
    cases due with
    | nil =>
      cases hs
      exact h.setPass (hp.withPhase trivial)
    | cons i due =>
      dsimp only at hs
      split at hs
      · cases hs
        have hp' : PassGated w (s.modifySend i (·.claimed (s.stamp w))) p :=
          hp.mono (List.prefix_refl _) (Nat.le_refl _)
        exact (h.modifySend i _).setPass (hp'.withPhase (Nat.le_refl _))
      · cases hs
        exact h.setPass (hp.withPhase trivial)
  | loading i due claimed =>
    have hknown := hp.phase
    unfold PhaseGated at hknown
    rw [hphase] at hs hknown
    dsimp only at hs
    split at hs
    · cases hs
      exact h.setPass (hp.withPhase ⟨hknown, trivial⟩)
    · cases hs
      exact h.setPass (hp.withPhase trivial)
  | sending job stage =>
    have hknown := hp.phase
    unfold PhaseGated at hknown
    rw [hphase] at hs hknown
    cases stage with
    | composing sender =>
      cases hs
      exact h.startCall hp hknown.1 hknown.2
    | finishing f =>
      cases hs
      have hp' : PassGated w (s.modifySend job.place (f.apply (s.stamp w))) p :=
        hp.mono (List.prefix_refl _) (Nat.le_refl _)
      exact (h.modifySend job.place _).setPass (hp'.withPhase trivial)
    | calling sender n => cases hs
    | contact => exact h.read hp hphase hs
    | consent a => exact h.read hp hphase hs
    | post => exact h.read hp hphase hs
    | campaign => exact h.read hp hphase hs
    | channel ca => exact h.read hp hphase hs
    | list ca ch => exact h.read hp hphase hs
    | sender ch => exact h.read hp hphase hs
  | ended =>
    rw [hphase] at hs
    cases hs

theorem GateInv.advance (hpast : s'.past = s.instants)
    (hpasses : ∀ p ∈ s'.passes, p ∈ s.passes) (hcalls : s'.calls = s.calls) : GateInv w s' := by
  refine h.move ?_ ?_ (fun p hp => .inl (hpasses p hp)) fun c hc => .inl (hcalls ▸ hc)
  · show s.instants <+: s'.past ++ [_]
    rw [hpast]
    exact List.prefix_append _ _
  · unfold present
    rw [hpast, instants, List.length_append]
    omega

theorem GateInv.step {a : EmailAction} (hs : a.run w s = some s') :
    GateInv w s' := by
  cases a with
  | tick elapsed =>
    cases hs
    exact h.advance rfl (fun _ hp => hp) rfl
  | change tables =>
    cases hs
    exact h.advance rfl (fun _ hp => hp) rfl
  | enqueue d =>
    simp only [EmailAction.run] at hs
    split at hs
    · cases hs
    · cases hs
      exact h.move (List.prefix_refl _) (Nat.le_refl _) (fun _ hp => .inl hp) fun _ hc => .inl hc
  | release channels =>
    cases hs
    exact h.move (List.prefix_refl _) (Nat.le_refl _) (fun _ hp => .inl hp) fun _ hc => .inl hc
  | begin =>
    simp only [EmailAction.run] at hs
    split at hs
    · cases hs
    · cases hs
      refine h.move (List.prefix_refl _) (Nat.le_refl _) (fun p hp => ?_) fun _ hc => .inl hc
      rcases List.mem_append.mp hp with hp | hp
      · exact .inl hp
      · obtain rfl := List.mem_singleton.mp hp
        refine .inr ⟨.now (Nat.le_refl _) rfl, ⟨?_, ?_, ?_, ?_, ?_⟩, trivial⟩ <;>
          exact nofun
  | next k =>
    obtain ⟨p, hk, hs⟩ := Option.bind_eq_some_iff.mp hs
    exact h.passNext hk hs
  | composeThrows k message =>
    obtain ⟨p, hk, hs⟩ := Option.bind_eq_some_iff.mp hs
    have hp := h.passes p (List.mem_of_getElem? hk)
    have hknown := hp.phase
    unfold EmailState.composeThrows at hs
    unfold PhaseGated at hknown
    split at hs
    · rename_i hphase
      rw [hphase] at hknown
      cases hs
      exact h.setPass (hp.withPhase ⟨hknown.1, trivial⟩)
    · cases hs
  | answer k a =>
    obtain ⟨p, hk, hs⟩ := Option.bind_eq_some_iff.mp hs
    have hp := h.passes p (List.mem_of_getElem? hk)
    have hknown := hp.phase
    unfold EmailState.answered at hs
    unfold PhaseGated at hknown
    split at hs
    · rename_i job sender n hphase
      rw [hphase] at hknown
      cases hs
      have hq : ∀ f, PassGated w s { p with phase := .sending job (.finishing f) } := fun f =>
        hp.withPhase ⟨hknown.1, trivial⟩
      refine (h.setPass (hq _)).move (List.prefix_refl _) (Nat.le_refl _)
        (fun q hq => .inl hq) fun c hc => ?_
      -- The outcome is not among what a mail has passed.
      obtain ⟨m, hm⟩ := List.mem_iff_getElem?.mp hc
      rcases getElem?_modify_cases hm with ⟨-, c₀, hc₀, rfl⟩ | ⟨-, hm⟩
      · have hold := (h.calls c₀ (List.mem_of_getElem? hc₀)).mono (List.prefix_refl _)
        exact .inr ⟨hold.contact, hold.consent, hold.period, hold.post, hold.campaign, hold.channel,
          hold.list⟩
      · exact .inl (List.mem_of_getElem? hm)
    · cases hs
  | stop k =>
    obtain ⟨p, hk, rfl⟩ := Option.map_eq_some_iff.mp hs
    exact h.setPass ((h.passes p (List.mem_of_getElem? hk)).withPhase trivial)
  | flush =>
    simp only [EmailAction.run] at hs
    split at hs
    · obtain rfl := Option.some.inj hs
      exact h.move (List.prefix_refl _) (Nat.le_refl _) (fun _ hp => .inl hp) fun _ hc => .inl hc
    · cases hs
  | crash =>
    simp only [EmailAction.run] at hs
    split at hs
    · cases hs
      exact h.advance rfl (fun _ hp => by cases hp) rfl
    · cases hs

end

/-- Every mail has passed its gates: those of its contact and consent behind the claim of its row,
    the others since the pass began. -/
theorem mail_gated (h : (emailSystem w).Reachable s) : ∀ c ∈ s.calls, MailGated w s c.since c := by
  have hinv : GateInv w s := by
    refine h.invariant (P := GateInv w) ?_ fun s a s' _ hi hs => hi.step hs
    rintro s ⟨-, -, hpasses, hcalls, -⟩
    exact ⟨by simp [hpasses], by simp [hcalls]⟩
  exact hinv.calls

end Steps

/-! ## Runs with two mails -/

/-- A mail that has passed its gates. -/
theorem mail_gated_small : ∃ s : EmailState, s.calls.length = 1 ∧
    ∀ c ∈ s.calls, MailGated (noonWorld .postgres) s c.since c := by
  obtain ⟨s, hreach, hq⟩ := exists_checked_mail .postgres (fun _ _ => true)
    (mailTo "ann" :: toRequest 0) (fun s => s.calls.length = 1) (by decide +kernel)
  exact ⟨s, of_decide_eq_true hq, mail_gated hreach.of_restrict⟩

/-- The campaign is not active at any instant since the claim of the row. -/
def neverActive (s : EmailState) (c : ProviderCall) : Bool :=
  (s.instants.drop c.claimed).all fun i =>
    (i.tables.campaign c.row.campaign_id).all (·.status ≠ .active)

/-- The campaign is paused when the first of two mails has been sent. The pass has it active in its
    cache and sends the second one. -/
theorem mailed_though_paused : ¬∀ s, (emailSystem (noonWorld .postgres)).Reachable s →
    ∀ c ∈ s.calls, MailGated (noonWorld .postgres) s c.claimed c := by
  intro hall
  obtain ⟨s, hreach, hq⟩ := exists_checked_mail .postgres (fun _ _ => true)
    (mailTo "ann" :: mailTo "bob" :: toRequest 0 ++ [.answer 0 accepted, .next 0,
      .change { openTables with
        campaign := fun _ => some { account_id := "a", status := .paused } }]
      ++ List.replicate 9 (.next 0))
    (fun s => s.calls.any (neverActive s)) (by decide +kernel)
  obtain ⟨c, hc, hnever⟩ := List.any_eq_true.mp hq
  obtain ⟨j, i, hj, -, hi, ca, hca, hactive⟩ := (hall s hreach.of_restrict c hc).campaign
  have hmem : i ∈ s.instants.drop c.claimed := by
    refine List.mem_of_getElem? (i := j - c.claimed) ?_
    rw [List.getElem?_drop, Nat.add_sub_cancel' hj]
    exact hi
  have hoff := List.all_eq_true.mp hnever i hmem
  rw [hca, Option.all_some, decide_eq_true_eq] at hoff
  exact hoff hactive

end EmailState

end WorkflowBoard.Email
