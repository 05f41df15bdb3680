import WorkflowBoard.Native.HoldCalls
import WorkflowBoard.Spec.EventReplay
import WorkflowBoard.Spec.ListCounts

/-!
# Lists that are held

Each evaluation under way counts what is there now, or another one is still to come.
-/

namespace WorkflowBoard.MailEvents

open Email (SendStatus)
open Consents (BounceType)

/-! ## Evaluations under way -/

/-- What has come back is what would come back now, but for mails sent since. -/
structure CountsRead.Current (read : CountsRead) (now : ListMailStats) : Prop where
  sent : ∀ n, read.sent = some n → 0 < n ∧ n ≤ now.sent
  bounced : ∀ n, read.bounced = some n → n = now.bounced
  complained : ∀ n, read.complained = some n → n = now.complained
  hard_bounced : ∀ n, read.hard_bounced = some n → n = now.hard_bounced

/-- The event evaluates the list, and will see the counts `now` from `since` on. -/
def EventCall.Sees (w : HoldWorld) (now : ListMailStats) (since : Date)
    (accountId listName : String) (c : EventCall) : Prop :=
  match c.phase with
  | .recorded =>
      ∃ channel, w.channels[c.channel]? = some channel ∧ channel.account_id = accountId ∧
        channel.list_name = listName
  | .checking a l _ | .reading a l _ => a = accountId ∧ l = listName
  | .counting a l since' read =>
      a = accountId ∧ l = listName ∧ SameWindow w.windowStart since' since ∧ read.Current now
  | .inserting a l _ _ _ => a = accountId ∧ l = listName
  | .writing | .ended => False

/-- The event evaluates the list, and has not begun to count or is done with it. -/
def EventCall.awaits (w : HoldWorld) (accountId listName : String) (c : EventCall) : Bool :=
  match c.phase with
  | .recorded =>
      (w.channels[c.channel]?).any fun channel =>
        channel.account_id = accountId && channel.list_name = listName
  | .checking a l _ | .reading a l _ => a = accountId && l = listName
  | .inserting a l _ _ _ => a = accountId && l = listName
  | .counting .. | .writing | .ended => false

namespace HoldState

variable (w : HoldWorld) (s : HoldState) (accountId listName : String)

/-- The time the list is counted from. -/
def since : Date := countedSince (lastRelease s.holds accountId listName) s.clock

def current : ListMailStats :=
  listStats s.sends w.channels accountId listName (s.since accountId listName)

theorem meets_eq : s.meets w accountId listName =
    (listHoldReason (s.current w accountId listName)).isSome := rfl

/-- The list is held, or will be: some evaluation sees what there is to see. -/
def Minded : Prop :=
  isHeld s.holds accountId listName = true ∨
    ∃ (k : Nat) (c : EventCall), s.events[k]? = some c ∧
      c.Sees w (s.current w accountId listName) (s.since accountId listName) accountId listName

/-! ## Steps by right -/

/-- The list is held, meets no reason, or is evaluated by an event that has still to count. -/
def covered : Bool :=
  accountId = "" || listName = "" || isHeld s.holds accountId listName ||
    !s.meets w accountId listName || s.events.any (·.awaits w accountId listName)

/-- The list that the channel mails is covered. -/
def coveredChannel (channel : Nat) : Bool :=
  match w.channels[channel]? with
  | some c => s.covered w c.account_id c.list_name
  | none => true

/-- Where a write adds a bounce or a complaint to the counts and no evaluation follows, and where a
    hold is released, the list is covered afterwards. -/
def timely (a : HoldAction) : Bool :=
  match a with
  | .record k =>
      match s.sending[k]? with
      | some { place, phase := .accepted sentAt messageId credentialId } =>
          match s.sends[place]? with
          | some r =>
              r.unmarked ||
                (s.setRow place (r.recorded sentAt messageId credentialId)).coveredChannel w
                  r.channel_id
          | none => true
      | _ => true
  | .next k =>
      match s.events[k]? with
      | some { place, channel := _, event, phase := .writing } =>
          match s.sends[place]? with
          | some r =>
              r.evaluatesBy event || r.status ≠ .sent || r.told event = r ||
                (s.setRow place (r.told event)).coveredChannel w r.channel_id
          | none => true
      | _ => true
  | .release k =>
      match s.releases[k]? with
      | some c =>
          match s.holds[c.place]? with
          | some h =>
              h.status ≠ .held ||
                ({ s with
                    holds := s.holds.modify c.place (HoldRow.released c.releasedAt) }).covered w
                  h.account_id h.list_name
          | none => true
      | none => true
  | _ => true

end HoldState

/-! ## The invariant -/

structure RowsInv (w : HoldWorld) (s : HoldState) : Prop where
  clock : w.windowStart ≤ s.clock ∧ s.clock ≤ w.windowStart + complaintWindowMs
  sends : SentFrom w.windowStart s.sends
  /-- A row that is being sent is not counted yet. -/
  live : ∀ (k : Nat) (c : SendCall), s.sending[k]? = some c → c.phase ≠ .ended →
    ∃ r, s.sends[c.place]? = some r ∧ (r.status = .sending ∨ r.status = .failed)
  apart : ∀ (k k' : Nat) (c c' : SendCall), s.sending[k]? = some c → s.sending[k']? = some c' →
    c.phase ≠ .ended → c'.phase ≠ .ended → c.place = c'.place → k = k'
  accepted : ∀ (k : Nat) (c : SendCall) (t : Date) (m cr : String), s.sending[k]? = some c →
    c.phase = .accepted t m cr → w.windowStart ≤ t

structure EventsInv (w : HoldWorld) (s : HoldState) : Prop where
  channels : ∀ (k : Nat) (c : EventCall), s.events[k]? = some c →
    ∃ r, s.sends[c.place]? = some r ∧ r.channel_id = c.channel
  times : ∀ (k : Nat) (c : EventCall) (a l : String) (now : Date), s.events[k]? = some c →
    c.phase = .checking a l now ∨ c.phase = .reading a l now →
    now ≤ w.windowStart + complaintWindowMs

/-- Each list that meets a reason is held, or will be. -/
def AllMinded (w : HoldWorld) (s : HoldState) : Prop :=
  ∀ a l, a ≠ "" → l ≠ "" → s.meets w a l = true → s.Minded w a l

structure HoldInv (w : HoldWorld) (s : HoldState) : Prop where
  rows : RowsInv w s
  events : EventsInv w s
  unique : ∀ a l, s.holds.countP (·.isActiveFor a l) ≤ 1
  minded : AllMinded w s

variable {w : HoldWorld} {s s' : HoldState} {k place : Nat} {a l : String}

/-! ## Rows -/

variable {r : SendRow} {c : EventCall} {channels : List ChannelRow}

/-- A row is written whose call has ended. -/
theorem RowsInv.setRow (h : RowsInv w s)
    (hr : r.status = .sent → ∀ t, r.sent_at = some t → w.windowStart ≤ t)
    (hlive : ∀ (k : Nat) (c : SendCall), s.sending[k]? = some c → c.phase ≠ .ended →
      c.place = place → r.status = .sending ∨ r.status = .failed) :
    RowsInv w (s.setRow place r) where
  clock := h.clock
  sends := fun r' hr' => by
    rcases List.mem_or_eq_of_mem_set hr' with hr' | rfl
    · exact h.sends r' hr'
    · exact hr
  live := fun k c hc hlive' => by
    obtain ⟨r', hr', hs'⟩ := h.live k c hc hlive'
    by_cases hp : c.place = place
    · subst hp
      exact ⟨r, getElem?_set_self hr',
        hlive k c hc hlive' rfl⟩
    · exact ⟨r', (List.getElem?_set_ne fun h => hp h.symm).trans hr', hs'⟩
  apart := h.apart
  accepted := h.accepted

theorem RowsInv.setSend (h : RowsInv w s) {c c' : SendCall} (hk : s.sending[k]? = some c)
    (hplace : c'.place = c.place) (hlive : c'.phase ≠ .ended → c.phase ≠ .ended)
    (haccepted : ∀ t m cr, c'.phase = .accepted t m cr → w.windowStart ≤ t) :
    RowsInv w (s.setSend k c') where
  clock := h.clock
  sends := h.sends
  live := fun j d hd hlive' => by
    rcases getElem?_set_cases hd with ⟨rfl, rfl⟩ | ⟨-, hd⟩
    · rw [hplace]
      exact h.live _ c hk (hlive hlive')
    · exact h.live j d hd hlive'
  apart := fun j j' d d' hd hd' hl hl' hp => by
    rcases getElem?_set_cases hd with ⟨rfl, rfl⟩ | ⟨-, hj⟩
    · rcases getElem?_set_cases hd' with ⟨rfl, rfl⟩ | ⟨-, hj'⟩
      · rfl
      · exact h.apart _ _ c d' hk hj' (hlive hl) hl' (hplace.symm.trans hp)
    · rcases getElem?_set_cases hd' with ⟨rfl, rfl⟩ | ⟨-, hj'⟩
      · exact h.apart _ _ d c hj hk hl (hlive hl') (hp.trans hplace)
      · exact h.apart j j' d d' hj hj' hl hl' hp
  accepted := fun j d t m cr hd hp => by
    rcases getElem?_set_cases hd with ⟨rfl, rfl⟩ | ⟨-, hd⟩
    · exact haccepted t m cr hp
    · exact h.accepted j d t m cr hd hp

theorem RowsInv.addSend (h : RowsInv w s) (hr : s.sends[place]? = some r) (hs : r.status = .sending)
    (hfree : ∀ (k : Nat) (c : SendCall), s.sending[k]? = some c → c.phase ≠ .ended →
      c.place ≠ place) :
    RowsInv w { s with sending := s.sending ++ [{ place }] } where
  clock := h.clock
  sends := h.sends
  live := fun j d hd hlive => by
    rcases getElem?_append_cases hd with hd | ⟨-, rfl⟩
    · exact h.live j d hd hlive
    · exact ⟨r, hr, .inl hs⟩
  apart := fun j j' d d' hd hd' hl hl' hp => by
    rcases getElem?_append_cases hd with hd | ⟨hj, rfl⟩
    · rcases getElem?_append_cases hd' with hd' | ⟨-, rfl⟩
      · exact h.apart j j' d d' hd hd' hl hl' hp
      · exact absurd hp (hfree j d hd hl)
    · rcases getElem?_append_cases hd' with hd' | ⟨hj', -⟩
      · exact absurd hp.symm (hfree j' d' hd' hl')
      · exact hj.trans hj'.symm
  accepted := fun j d t m cr hd hp => by
    rcases getElem?_append_cases hd with hd | ⟨-, rfl⟩
    · exact h.accepted j d t m cr hd hp
    · cases hp

/-! ## Events -/

theorem EventsInv.setRow (h : EventsInv w s) {r q : SendRow} (hr : s.sends[place]? = some r)
    (hchannel : q.channel_id = r.channel_id) : EventsInv w (s.setRow place q) where
  channels := fun j d hd => by
    obtain ⟨r', hr', hrd⟩ := h.channels j d hd
    by_cases hp : d.place = place
    · obtain rfl : r = r' := Option.some.inj (hr.symm.trans (hp ▸ hr'))
      refine ⟨q, ?_, hchannel.trans hrd⟩
      rw [hp]
      exact getElem?_set_self hr
    · exact ⟨r', (List.getElem?_set_ne fun h => hp h.symm).trans hr', hrd⟩
  times := h.times

theorem EventsInv.setEvent (h : EventsInv w s) (hk : s.events[k]? = some c) {phase : EventPhase}
    (htimes : ∀ a l now, phase = .checking a l now ∨ phase = .reading a l now →
      now ≤ w.windowStart + complaintWindowMs) :
    EventsInv w (s.setEvent k { c with phase }) where
  channels := fun j d hd => by
    rcases getElem?_set_cases hd with ⟨rfl, rfl⟩ | ⟨-, hd⟩
    · exact h.channels _ c hk
    · exact h.channels j d hd
  times := fun j d a l now hd hp => by
    rcases getElem?_set_cases hd with ⟨rfl, rfl⟩ | ⟨-, hd⟩
    · exact htimes a l now hp
    · exact h.times j d a l now hd hp

/-! ## What an evaluation sees -/

/-- An event that sees the counts sees later ones. -/
theorem EventCall.Sees.mono {now now' : ListMailStats} {since since' : Date}
    (h : c.Sees w now since a l) (hs : SameWindow w.windowStart since since')
    (hn : ∀ read : CountsRead, read.Current now → read.Current now') :
    c.Sees w now' since' a l := by
  unfold Sees at *
  split <;> simp_all
  exact h.2.2.1.trans hs

theorem EventCall.sees_of_awaits (h : c.awaits w a l = true) (now : ListMailStats)
    (since : Date) : c.Sees w now since a l := by
  unfold awaits at h
  unfold Sees
  split <;> simp_all
  obtain ⟨channel, hc, hlist⟩ := (Option.any_eq_true _ _).mp h
  exact ⟨channel, hc, by simpa using hlist⟩

namespace HoldState

theorem Minded.setEvent {c c' : EventCall} (h : s.Minded w a l) (hk : s.events[k]? = some c)
    (hc : c.Sees w (s.current w a l) (s.since a l) a l →
      isHeld s.holds a l = true ∨ c'.Sees w (s.current w a l) (s.since a l) a l) :
    (s.setEvent k c').Minded w a l := by
  rcases h with h | ⟨j, d, hd, hsees⟩
  · exact .inl h
  · by_cases hj : k = j
    · subst hj
      cases hk.symm.trans hd
      exact (hc hsees).imp_right fun hc' =>
        ⟨k, c', getElem?_set_self hk, hc'⟩
    · exact .inr ⟨j, d, (List.getElem?_set_ne hj).trans hd, hsees⟩

/-- A covered list that meets a reason is held, or will be. -/
theorem minded_of_covered (h : s.covered w a l = true) (ha : a ≠ "") (hl : l ≠ "")
    (hm : s.meets w a l = true) : s.Minded w a l := by
  simp only [covered, ha, hl, hm, decide_false, Bool.false_or, Bool.not_true, Bool.or_false,
    Bool.or_eq_true, List.any_eq_true] at h
  rcases h with h | ⟨c, hc, hawaits⟩
  · exact .inl h
  · obtain ⟨k, hk⟩ := List.getElem?_of_mem hc
    exact .inr ⟨k, c, hk, EventCall.sees_of_awaits hawaits _ _⟩

end HoldState

theorem AllMinded.setEvent (h : AllMinded w s) {c c' : EventCall} (hk : s.events[k]? = some c)
    (hc : ∀ a l, a ≠ "" → l ≠ "" → s.meets w a l = true →
      c.Sees w (s.current w a l) (s.since a l) a l →
      isHeld s.holds a l = true ∨ c'.Sees w (s.current w a l) (s.since a l) a l) :
    AllMinded w (s.setEvent k c') := fun a l ha hl hm =>
  (h a l ha hl hm).setEvent hk (hc a l ha hl hm)

theorem HoldState.Minded.setRow_same (h : s.meets w a l = true → s.Minded w a l)
    (hcur : (s.setRow place r).current w a l = s.current w a l)
    (hm : (s.setRow place r).meets w a l = true) : (s.setRow place r).Minded w a l := by
  rw [HoldState.meets_eq, hcur] at hm
  refine (h hm).imp_right fun ⟨k, c, hk, hsees⟩ => ⟨k, c, hk, ?_⟩
  rw [hcur]
  exact hsees

/-- A row that is counted for no list, or not for this one. -/
theorem current_setRow_uncounted {r r' : SendRow} (hr : s.sends[place]? = some r)
    (h : r.countedIn w.channels a l (s.since a l) = false)
    (h' : r'.countedIn w.channels a l (s.since a l) = false) :
    (s.setRow place r').current w a l = s.current w a l :=
  listStats_set_uncounted hr h h'

/-- A row that is not sent changes no counts. -/
theorem AllMinded.setRow_uncounted (h : AllMinded w s) {r q : SendRow}
    (hr : s.sends[place]? = some r) (hs : r.status ≠ .sent) (hs' : q.status ≠ .sent) :
    AllMinded w (s.setRow place q) := fun a l ha hl =>
  HoldState.Minded.setRow_same (h a l ha hl)
    (current_setRow_uncounted hr (countedIn_eq_false_of_status hs)
      (countedIn_eq_false_of_status hs'))

theorem countedIn_eq_false_of_channel {since : Date}
    (h : channelsOf channels a l r.channel_id = false) :
    r.countedIn channels a l since = false := by
  simp [SendRow.countedIn, h]

theorem channelsOf_iff {i : Nat} :
    channelsOf channels a l i = true ↔ ∃ c, channels[i]? = some c ∧ c.account_id = a ∧
      c.isEmail = true ∧ c.list_name = l := by
  simp [channelsOf, ChannelRow.isOf, Option.any_eq_true, and_assoc]

/-- After a write that leaves the list of the channel covered. -/
theorem HoldState.minded_of_coveredChannel {channel : Nat}
    (h : s.coveredChannel w channel = true) (hl : channelsOf w.channels a l channel = true)
    (ha : a ≠ "") (hl' : l ≠ "") (hm : s.meets w a l = true) : s.Minded w a l := by
  obtain ⟨c, hc, rfl, -, rfl⟩ := channelsOf_iff.mp hl
  rw [HoldState.coveredChannel, hc] at h
  exact HoldState.minded_of_covered h ha hl' hm

/-- A mail without a bounce or a complaint is recorded. -/
theorem HoldState.Minded.setRow_unmarked {r r' : SendRow} (hr : s.sends[place]? = some r)
    (hs : r.status ≠ .sent) (hr' : r'.unmarked = true)
    (h : s.meets w a l = true → s.Minded w a l) (hm : (s.setRow place r').meets w a l = true) :
    (s.setRow place r').Minded w a l := by
  obtain ⟨n, hn⟩ := listStats_set_unmarked w.channels a l (s.since a l) hr
    (countedIn_eq_false_of_status hs) hr'
  have hcur : (s.setRow place r').current w a l =
      { s.current w a l with sent := (s.current w a l).sent + n } := hn
  have hcs : (s.current w a l).complained ≤ (s.current w a l).sent := complained_le_sent
  have hhs : (s.current w a l).hard_bounced ≤ (s.current w a l).sent := hard_bounced_le_sent
  rw [meets_eq, hcur] at hm
  have hbefore : s.meets w a l = true := by
    refine listHoldReason_mono hm (Nat.le_add_right _ _) ?_ rfl rfl rfl
    rw [listHoldReason_isSome_iff] at hm
    show 0 < (s.current w a l).sent
    dsimp only at hm
    omega
  refine (h hbefore).imp_right fun ⟨k, c, hk, hsees⟩ => ⟨k, c, hk, ?_⟩
  refine hsees.mono (SameWindow.refl _ _) fun read hread => ?_
  rw [hcur]
  exact ⟨fun m hm' => ⟨(hread.sent m hm').1, (hread.sent m hm').2.trans (Nat.le_add_right _ _)⟩,
    hread.bounced, hread.complained, hread.hard_bounced⟩

/-! ## Steps of a send -/

namespace HoldInv

theorem tick (h : HoldInv w s) {elapsed : Nat}
    (hin : s.clock + elapsed ≤ w.windowStart + complaintWindowMs) :
    HoldInv w { s with clock := s.clock + elapsed } := by
  have hsame : ∀ a l, SameWindow w.windowStart (s.since a l)
      (HoldState.since { s with clock := s.clock + elapsed } a l) := fun a l =>
    countedSince_sameWindow h.rows.clock.2 hin _
  have hcur : ∀ a l, HoldState.current w { s with clock := s.clock + elapsed } a l =
      s.current w a l := fun a l => (listStats_sameWindow h.rows.sends (hsame a l)).symm
  refine ⟨{ h.rows with clock := ⟨?_, hin⟩ }, { h.events with }, h.unique, fun a l ha hl hm => ?_⟩
  · have := h.rows.clock.1
    unfold Date at *
    dsimp only
    omega
  · rw [HoldState.meets_eq, hcur] at hm
    refine (h.minded a l ha hl hm).imp_right fun ⟨k, c, hk, hsees⟩ => ⟨k, c, hk, ?_⟩
    refine hsees.mono (hsame a l) fun read hread => ?_
    rwa [hcur]

theorem enqueue (h : HoldInv w s) (r : SendRow) (hr : r.status ≠ .sent) :
    HoldInv w { s with sends := s.sends ++ [r] } where
  rows := { h.rows with
    sends := fun q hq => by
      rcases List.mem_append.mp hq with hq | hq
      · exact h.rows.sends q hq
      · obtain rfl := List.mem_singleton.mp hq
        exact fun hs => absurd hs hr
    live := fun k c hc hlive => by
      obtain ⟨q, hq, hs⟩ := h.rows.live k c hc hlive
      exact ⟨q, getElem?_append_of_some hq r, hs⟩ }
  events := { h.events with
    channels := fun k c hc => by
      obtain ⟨q, hq, hs⟩ := h.events.channels k c hc
      exact ⟨q, getElem?_append_of_some hq r, hs⟩ }
  unique := h.unique
  minded := fun a l ha hl hm => by
    have hcur : HoldState.current w { s with sends := s.sends ++ [r] } a l = s.current w a l :=
      listStats_append_uncounted (countedIn_eq_false_of_status hr)
    rw [HoldState.meets_eq, hcur] at hm
    refine (h.minded a l ha hl hm).imp_right fun ⟨k, c, hk, hsees⟩ => ⟨k, c, hk, ?_⟩
    rw [hcur]
    exact hsees

variable {r : SendRow} {c : EventCall} {read : CountsRead} {since : Date} {holds : List HoldRow}
  {hold : HoldRow}

section

variable (h : HoldInv w s)
include h

theorem free_of_waiting (hr : s.sends[place]? = some r) (hw : r.status.isWaiting = true) :
    ∀ (k : Nat) (c : SendCall), s.sending[k]? = some c → c.phase ≠ .ended → c.place ≠ place := by
  intro k c hc hlive hp
  obtain ⟨q, hq, hs⟩ := h.rows.live k c hc hlive
  cases hr.symm.trans (hp ▸ hq)
  rcases hs with hs | hs <;> rw [hs] at hw <;> cases hw

theorem claim (hr : s.sends[place]? = some r) (hw : r.status.isWaiting = true) :
    HoldInv w { s.setRow place (r.withStatus .sending) with
      sending := s.sending ++ [{ place }] } := by
  have hs : r.status ≠ .sent := fun hs => by
    rw [hs] at hw
    cases hw
  have hrow : (s.setRow place (r.withStatus .sending)).sends[place]? =
      some (r.withStatus .sending) :=
    getElem?_set_self hr
  exact ⟨(h.rows.setRow (r := r.withStatus .sending) (fun hs' => nomatch hs') fun _ _ _ _ _ =>
      .inl rfl).addSend hrow rfl
      (h.free_of_waiting hr hw),
    { h.events.setRow hr (q := r.withStatus .sending) rfl with }, h.unique,
    h.minded.setRow_uncounted hr hs (q := r.withStatus .sending) nofun⟩

theorem closeStuck (hr : s.sends[place]? = some r)
    (hs : r.status = .sending) : HoldInv w (s.setRow place (r.withStatus .failed)) :=
  ⟨h.rows.setRow (r := r.withStatus .failed) (fun hs' => nomatch hs') fun _ _ _ _ _ => .inr rfl,
    h.events.setRow hr rfl, h.unique,
    h.minded.setRow_uncounted hr (q := r.withStatus .failed) (fun hs' => by
      rw [hs] at hs'; cases hs')
      nofun⟩

section

variable {c : SendCall} (hk : s.sending[k]? = some c)
include hk

theorem accept (hc : c.phase = .asking) (messageId credentialId : String) :
    HoldInv w (s.setSend k { c with phase := .accepted s.clock messageId credentialId }) :=
  ⟨h.rows.setSend hk rfl (fun _ => by rw [hc]; exact nofun) fun t m cr ht => by
      cases ht
      exact h.rows.clock.1,
    { h.events with }, h.unique, h.minded⟩

/-- The row that a call sends is not counted, and no other call sends it. -/
theorem row_of_live (hlive : c.phase ≠ .ended) (hr : s.sends[c.place]? = some r) :
    r.status ≠ .sent := by
  obtain ⟨q, hq, hs⟩ := h.rows.live k c hk hlive
  cases hr.symm.trans hq
  rcases hs with hs | hs <;> rw [hs] <;> exact nofun

/-- The rows after the result of a call is written and the call has ended. -/
theorem rows_ended (hlive : c.phase ≠ .ended)
    (hr : r.status = .sent → ∀ t, r.sent_at = some t → w.windowStart ≤ t) :
    RowsInv w ((s.setRow c.place r).setSend k { place := c.place, phase := .ended }) := by
  -- the call ends first, so that the row need not be one that is being sent
  have hended : RowsInv w (s.setSend k { place := c.place, phase := .ended }) :=
    h.rows.setSend hk rfl (fun hne => absurd rfl hne) nofun
  have hwritten :
    RowsInv w ((s.setSend k { place := c.place, phase := .ended }).setRow c.place r) :=
    hended.setRow hr fun j d hd hlive' hp => by
      rcases getElem?_set_cases hd with ⟨-, rfl⟩ | ⟨hj, hd'⟩
      · exact absurd rfl hlive'
      · exact absurd (h.rows.apart k j c d hk hd' hlive hlive' hp.symm) hj
  exact hwritten

theorem finish (hc : c.phase = .asking) (hr : s.sends[c.place]? = some r) {status : SendStatus}
    (hstatus : status ≠ .sent) (credentialId : Option String) :
    HoldInv w ((s.setRow c.place (r.finished status credentialId)).setSend k
      { place := c.place, phase := .ended }) := by
  have hlive : c.phase ≠ .ended := by rw [hc]; exact nofun
  exact ⟨h.rows_ended hk hlive fun hs => absurd hs hstatus,
    { h.events.setRow hr (q := r.finished status credentialId) rfl with }, h.unique,
    h.minded.setRow_uncounted hr (h.row_of_live hk hlive hr)
      (q := r.finished status credentialId) hstatus⟩

/-- A mail with a bounce or a complaint on it is recorded only if its list is covered then. -/
theorem record {t : Date} {m cr : String} (hc : c.phase = .accepted t m cr)
    (hr : s.sends[c.place]? = some r)
    (hright : r.unmarked = true ∨
      (s.setRow c.place (r.recorded t m cr)).coveredChannel w r.channel_id = true) :
    HoldInv w ((s.setRow c.place (r.recorded t m cr)).setSend k
      { place := c.place, phase := .ended }) := by
  have hlive : c.phase ≠ .ended := by rw [hc]; exact nofun
  have hs := h.row_of_live hk hlive hr
  refine ⟨h.rows_ended hk hlive fun _ t' ht' => ?_,
    { h.events.setRow hr (q := r.recorded t m cr) rfl with }, h.unique, fun a l ha hl hm => ?_⟩
  · cases ht'
    exact h.rows.accepted k c t m cr hk hc
  · rcases hright with hright | hright
    · exact HoldState.Minded.setRow_unmarked hr hs hright (h.minded a l ha hl) hm
    · cases hof : channelsOf w.channels a l r.channel_id with
      | true => exact HoldState.minded_of_coveredChannel hright hof ha hl hm
      | false =>
        exact HoldState.Minded.setRow_same (h.minded a l ha hl)
          (current_setRow_uncounted hr (countedIn_eq_false_of_channel hof)
            (countedIn_eq_false_of_channel hof)) hm

end

end

/-! ## Steps of an event -/

theorem told_toSendKey (r : SendRow) (ev : ProviderEvent) :
    (r.told ev).toSendKey = r.toSendKey := by
  unfold SendRow.told
  dsimp only
  split
  next =>
    rw [SendRow.complain_toSendKey]
    split
    next => exact r.bounce_toSendKey
    next => rfl
  next =>
    split
    next => exact r.bounce_toSendKey
    next => rfl

/-- An event writes to its row, and its list is covered afterwards. -/
theorem write (h : HoldInv w s) (hk : s.events[k]? = some c)
    (hc : c.phase = .writing) (hr : s.sends[c.place]? = some r)
    (hright : r.evaluatesBy c.event = true ∨ r.status ≠ .sent ∨ r.told c.event = r ∨
      (s.setRow c.place (r.told c.event)).coveredChannel w r.channel_id = true) :
    HoldInv w ((s.setRow c.place (r.told c.event)).setEvent k
      { c with phase := if r.evaluatesBy c.event then .recorded else .ended }) := by
  have hkey := told_toSendKey r c.event
  have hstatus : (r.told c.event).status = r.status := congrArg SendKey.status hkey
  have hchannel : (r.told c.event).channel_id = r.channel_id := congrArg SendKey.channel_id hkey
  have hunseen : ∀ now since a l, ¬c.Sees w now since a l := fun now since a l hsees => by
    rw [EventCall.Sees, hc] at hsees
    exact hsees
  refine ⟨{ h.rows.setRow (r := r.told c.event) (fun hs t ht => ?_)
      fun j d hd hlive hp => ?_ with },
    (h.events.setRow hr hchannel).setEvent hk fun a l now hp => ?_, h.unique,
    fun a l ha hl hm => ?_⟩
  · rw [hstatus] at hs
    exact h.rows.sends r (List.mem_of_getElem? hr) hs t
      ((congrArg SendKey.sent_at hkey).symm.trans ht)
  · obtain ⟨q, hq, hs⟩ := h.rows.live j d hd hlive
    cases hr.symm.trans (hp ▸ hq)
    rwa [hstatus]
  · split at hp <;> rcases hp with hp | hp <;> cases hp
  · have hother : channelsOf w.channels a l r.channel_id = false →
        (s.setRow c.place (r.told c.event)).Minded w a l := fun hof =>
      HoldState.Minded.setRow_same (h.minded a l ha hl)
        (current_setRow_uncounted hr (countedIn_eq_false_of_channel hof)
          (countedIn_eq_false_of_channel (hchannel.symm ▸ hof))) hm
    by_cases heval : r.evaluatesBy c.event = true
    · rw [if_pos heval]
      cases hof : channelsOf w.channels a l r.channel_id with
      | true =>
        -- the list of the mail: the event itself will see it
        obtain ⟨channel, hchan, hacc, -, hlist⟩ := channelsOf_iff.mp hof
        obtain ⟨q, hq, hqc⟩ := h.events.channels k c hk
        cases hr.symm.trans hq
        exact .inr ⟨k, { c with phase := .recorded },
          getElem?_set_self hk, channel,
          hqc ▸ hchan, hacc, hlist⟩
      | false => exact (hother hof).setEvent hk fun hsees => absurd hsees (hunseen _ _ a l)
    · have hrow : (s.setRow c.place (r.told c.event)).Minded w a l := by
        cases hof : channelsOf w.channels a l r.channel_id with
        | false => exact hother hof
        | true =>
          rcases hright with hright | hright | hright | hright
          · exact absurd hright heval
          · exact HoldState.Minded.setRow_same (h.minded a l ha hl)
              (current_setRow_uncounted hr (countedIn_eq_false_of_status hright)
                (countedIn_eq_false_of_status (hstatus ▸ hright))) hm
          · have hsame : s.setRow c.place (r.told c.event) = s := by
              obtain ⟨hi, rfl⟩ := List.getElem?_eq_some_iff.mp hr
              rw [HoldState.setRow, hright, List.set_getElem_self]
            rw [hsame]
            refine h.minded a l ha hl ?_
            rw [← hsame]
            exact hm
          · exact HoldState.minded_of_coveredChannel hright hof ha hl hm
      exact hrow.setEvent hk fun hsees => absurd hsees (hunseen _ _ a l)

theorem advance (h : HoldInv w s) (hk : s.events[k]? = some c) {phase : EventPhase}
    (htimes : ∀ a l now, phase = .checking a l now ∨ phase = .reading a l now →
      now ≤ w.windowStart + complaintWindowMs)
    (hsees : ∀ a l, a ≠ "" → l ≠ "" → s.meets w a l = true →
      c.Sees w (s.current w a l) (s.since a l) a l →
      isHeld s.holds a l = true ∨
        ({ c with phase } : EventCall).Sees w (s.current w a l) (s.since a l) a l) :
    HoldInv w (s.setEvent k { c with phase }) :=
  ⟨{ h.rows with }, h.events.setEvent hk htimes, h.unique, h.minded.setEvent hk hsees⟩

theorem stats_eq_some {stats : ListMailStats} (h : read.stats = some stats) :
    read.sent = some stats.sent ∧ read.bounced = some stats.bounced ∧
      read.complained = some stats.complained ∧ read.hard_bounced = some stats.hard_bounced := by
  simp only [CountsRead.stats, Option.bind_eq_bind, Option.bind_eq_some_iff, Option.pure_def,
    Option.some.injEq] at h
  obtain ⟨sent, hsent, bounced, hbounced, complained, hcomplained, hard, hhard, rfl⟩ := h
  exact ⟨hsent, hbounced, hcomplained, hhard⟩

/-- Counts that are current decide as the counts of now do. -/
theorem sees_afterCounts {now : ListMailStats}
    {since since' : Date} (hread : read.Current now) (hsame : SameWindow w.windowStart since' since)
    (hm : (listHoldReason now).isSome = true) :
    ({ c with phase := afterCounts a l since' read } : EventCall).Sees w now since a l := by
  unfold afterCounts
  split
  next => exact ⟨rfl, rfl, hsame, hread⟩
  next stats hstats =>
    obtain ⟨hsent, hbounced, hcomplained, hhard⟩ := stats_eq_some hstats
    have hmeets := listHoldReason_mono hm (hread.sent _ hsent).2 (hread.sent _ hsent).1
      (hread.bounced _ hbounced) (hread.complained _ hcomplained) (hread.hard_bounced _ hhard)
    split
    next => exact ⟨rfl, rfl⟩
    next hnone =>
      rw [hnone] at hmeets
      cases hmeets

theorem current_put {now : ListMailStats} (h : read.Current now)
    (hpos : 0 < now.sent) (name : CountName) : (read.put name now).Current now := by
  cases name with
  | sent => exact { h with sent := fun n hn => by cases hn; exact ⟨hpos, Nat.le_refl _⟩ }
  | bounced => exact { h with bounced := fun n hn => by cases hn; rfl }
  | complained => exact { h with complained := fun n hn => by cases hn; rfl }
  | hardBounced => exact { h with hard_bounced := fun n hn => by cases hn; rfl }

theorem afterCounts_times {a' l' : String} {now : Date}
    (h : afterCounts a l since read = .checking a' l' now ∨
      afterCounts a l since read = .reading a' l' now) : False := by
  unfold afterCounts at h
  split at h
  next => rcases h with h | h <;> cases h
  next => split at h <;> rcases h with h | h <;> cases h

/-- An evaluation reads one of its counts. -/
theorem count (h : HoldInv w s) (hk : s.events[k]? = some c)
    (hc : c.phase = .counting a l since read) (name : CountName) :
    HoldInv w (s.setEvent k { c with
      phase := afterCounts a l since
        (read.put name (listStats s.sends w.channels a l since)) }) := by
  refine h.advance hk (fun a l now hp => (afterCounts_times hp).elim) fun a' l' _ _ hm hsees => ?_
  rw [EventCall.Sees, hc] at hsees
  obtain ⟨rfl, rfl, hsame, hread⟩ := hsees
  have hnow : listStats s.sends w.channels a l since = s.current w a l :=
    listStats_sameWindow h.rows.sends hsame
  have hcs : (s.current w a l).complained ≤ (s.current w a l).sent := complained_le_sent
  have hpos : 0 < (s.current w a l).sent := by
    rw [HoldState.meets_eq, listHoldReason_isSome_iff] at hm
    omega
  rw [hnow]
  exact .inr (sees_afterCounts (current_put hread hpos name) hsame hm)

/-! ## Holds -/

theorem isHeld_eq_false_iff :
    isHeld holds a l = false ↔ holds.countP (·.isActiveFor a l) = 0 := by
  simp [isHeld, List.countP_eq_zero]

theorem lastRelease_append (hs : hold.status = .held) :
    lastRelease (holds ++ [hold]) a l = lastRelease holds a l := by
  simp [lastRelease, List.filterMap_append, hs]

theorem isHeld_append (hold : HoldRow) (h : isHeld holds a l = true) :
    isHeld (holds ++ [hold]) a l = true := by
  simp [isHeld, List.any_append] at h ⊢
  exact .inl h

/-- An insert holds no list twice. -/
theorem insertHold_unique (h : ∀ a l, holds.countP (·.isActiveFor a l) ≤ 1) :
    ∀ a l, (insertHold holds hold).countP (·.isActiveFor a l) ≤ 1 := by
  intro a l
  unfold insertHold
  split
  next => exact h a l
  next hfree =>
    rw [List.countP_append, List.countP_singleton]
    split
    next hactive =>
      simp only [HoldRow.isActiveFor, Bool.and_eq_true, decide_eq_true_eq] at hactive
      obtain ⟨⟨rfl, rfl⟩, -⟩ := hactive
      rw [isHeld_eq_false_iff.mp (Bool.eq_false_iff.mpr hfree)]
    next => exact h a l

/-- The hold is inserted, or the list has one already. -/
theorem insert (h : HoldInv w s) (hk : s.events[k]? = some c)
    {stats : ListMailStats} {reason : HoldReason}
    (hc : c.phase = .inserting a l since stats reason) :
    HoldInv w (({ s with
      holds := insertHold s.holds
        { account_id := a, list_name := l, reason, since, stats } } : HoldState).setEvent k
          { c with phase := .ended }) := by
  have hevents : EventsInv w (s.setEvent k { c with phase := .ended }) :=
    h.events.setEvent hk fun a l now hp => by rcases hp with hp | hp <;> cases hp
  refine ⟨{ h.rows with }, { hevents with }, insertHold_unique h.unique, fun a' l' ha hl hm => ?_⟩
  have hheld : isHeld s.holds a' l' = true → isHeld (insertHold s.holds
      { account_id := a, list_name := l, reason, since, stats }) a' l' = true := fun hheld => by
    unfold insertHold
    split
    next => exact hheld
    next => exact isHeld_append _ hheld
  have hinserted : isHeld (insertHold s.holds
      { account_id := a, list_name := l, reason, since, stats }) a l = true := by
    unfold insertHold
    split
    next hin => exact hin
    next => simp [isHeld, HoldRow.isActiveFor]
  have hrelease : lastRelease (insertHold s.holds
      { account_id := a, list_name := l, reason, since, stats }) a' l' =
        lastRelease s.holds a' l' := by
    unfold insertHold
    split
    next => rfl
    next => exact lastRelease_append rfl
  have hsince : HoldState.since { s with
      holds :=
        insertHold s.holds { account_id := a, list_name := l, reason, since, stats } } a' l' =
        s.since a' l' := by
    simp only [HoldState.since, hrelease]
  have hcur : HoldState.current w { s with
      holds :=
        insertHold s.holds { account_id := a, list_name := l, reason, since, stats } } a' l' =
        s.current w a' l' := by
    simp only [HoldState.current, hsince]
  have hbefore : s.meets w a' l' = true := by
    rw [HoldState.meets_eq] at hm ⊢
    exact hcur ▸ hm
  have hminded : HoldState.Minded w { s with
      holds :=
        insertHold s.holds { account_id := a, list_name := l, reason, since, stats } } a' l' :=
    (h.minded a' l' ha hl hbefore).imp hheld fun ⟨j, d, hj, hsees⟩ =>
      ⟨j, d, hj, by rw [hsince, hcur]; exact hsees⟩
  refine hminded.setEvent hk fun hsees => ?_
  rw [EventCall.Sees, hc] at hsees
  obtain ⟨rfl, rfl⟩ := hsees
  exact .inl hinserted

theorem modify_eq_set (hr : holds[place]? = some hold)
    (f : HoldRow → HoldRow) : holds.modify place f = holds.set place (f hold) := by
  refine List.ext_getElem? fun i => ?_
  by_cases hi : place = i
  · subst hi
    rw [getElem?_modify_self hr, getElem?_set_self hr]
  · rw [getElem?_modify_other hi, List.getElem?_set_ne hi]

theorem released_isActiveFor (hold : HoldRow) (t : Date) :
    (hold.released t).isActiveFor a l = false := by
  unfold HoldRow.released HoldRow.isActiveFor
  split <;> simp_all

/-- A hold is released whose list stays covered. -/
theorem release (h : HoldInv w s) {c : ReleaseCall} (releases : List ReleaseCall)
    (hright : ∀ hold, s.holds[c.place]? = some hold → hold.status = .held →
      HoldState.covered w { s with holds := s.holds.modify c.place (HoldRow.released c.releasedAt) }
        hold.account_id hold.list_name = true) :
    HoldInv w { s with
      holds := s.holds.modify c.place (HoldRow.released c.releasedAt), releases } := by
  cases hhold : s.holds[c.place]? with
  | none =>
    rw [List.modify_eq_self (by simpa using hhold)]
    exact ⟨{ h.rows with }, { h.events with }, h.unique, h.minded⟩
  | some hold =>
    by_cases hs : hold.status = .held
    · refine ⟨{ h.rows with }, { h.events with }, fun a l => ?_, fun a l ha hl hm => ?_⟩
      · have := countP_set_add (b := hold.released c.releasedAt) hhold (·.isActiveFor a l)
        simp only [released_isActiveFor, Bool.false_eq_true, if_false] at this
        have := h.unique a l
        dsimp only
        rw [modify_eq_set hhold]
        omega
      · by_cases hlist : hold.account_id = a ∧ hold.list_name = l
        · obtain ⟨rfl, rfl⟩ := hlist
          exact HoldState.minded_of_covered (hright hold hhold hs) ha hl hm
        · -- a hold of another list
          have hactive : hold.isActiveFor a l = false := by
            simp only [HoldRow.isActiveFor, Bool.and_eq_false_iff, decide_eq_false_iff_not]
            rw [not_and_or] at hlist
            exact .inl hlist
          have hheld : isHeld (s.holds.modify c.place (HoldRow.released c.releasedAt)) a l =
              isHeld s.holds a l := by
            have hmap := map_set_of_eq (b := hold.released c.releasedAt) (f := (·.isActiveFor a l))
              hhold (by rw [released_isActiveFor, hactive])
            have := congrArg (·.any id) hmap
            simpa only [isHeld, modify_eq_set hhold, List.any_map, Function.id_comp] using this
          have hrelease : lastRelease (s.holds.modify c.place (HoldRow.released c.releasedAt)) a l =
              lastRelease s.holds a l := by
            have hmap := map_set_of_eq (b := hold.released c.releasedAt) (f := fun h : HoldRow =>
                if h.account_id = a ∧ h.list_name = l ∧ h.status = .released then h.released_at
                else none) hhold (by
              have hout : ∀ h' : HoldRow, h'.account_id = hold.account_id →
                  h'.list_name = hold.list_name →
                  ¬(h'.account_id = a ∧ h'.list_name = l ∧ h'.status = .released) :=
                fun h' hacc hname hin => hlist ⟨hacc ▸ hin.1, hname ▸ hin.2.1⟩
              have hkey : (hold.released c.releasedAt).account_id = hold.account_id ∧
                  (hold.released c.releasedAt).list_name = hold.list_name := by
                unfold HoldRow.released
                split <;> exact ⟨rfl, rfl⟩
              rw [if_neg (hout _ hkey.1 hkey.2), if_neg (hout _ rfl rfl)])
            have := congrArg (fun l => (l.filterMap id).max?) hmap
            simpa only [lastRelease, modify_eq_set hhold, List.filterMap_map, Function.id_comp]
              using this
          have hsince : HoldState.since { s with
              holds := s.holds.modify c.place (HoldRow.released c.releasedAt), releases } a l =
                s.since a l := by
            simp only [HoldState.since, hrelease]
          have hcur : HoldState.current w { s with
              holds := s.holds.modify c.place (HoldRow.released c.releasedAt), releases } a l =
                s.current w a l := by
            simp only [HoldState.current, hsince]
          rw [HoldState.meets_eq, hcur] at hm
          refine (h.minded a l ha hl hm).imp (fun hh => hheld.trans hh) fun ⟨j, d, hj, hsees⟩ =>
            ⟨j, d, hj, ?_⟩
          rw [hsince, hcur]
          exact hsees
    · rw [modify_eq_self_of_fixed fun hold' hh => ?_]
      · exact ⟨{ h.rows with }, { h.events with }, h.unique, h.minded⟩
      · cases hhold.symm.trans hh
        exact if_neg hs

/-! ## All steps -/

theorem init (h : s.Initial w) : HoldInv w s := by
  obtain ⟨hsending, hevents, -⟩ := h.idle
  have hnosend : ∀ (k : Nat) (c : SendCall), s.sending[k]? ≠ some c := fun k c hk => by
    rw [hsending] at hk
    cases hk
  have hnoevent : ∀ (k : Nat) (c : EventCall), s.events[k]? ≠ some c := fun k c hk => by
    rw [hevents] at hk
    cases hk
  exact ⟨⟨h.clock, h.sends, fun k c hk => absurd hk (hnosend k c),
      fun k _ c _ hk => absurd hk (hnosend k c), fun k c _ _ _ hk => absurd hk (hnosend k c)⟩,
    ⟨fun k c hk => absurd hk (hnoevent k c), fun k c _ _ _ hk => absurd hk (hnoevent k c)⟩,
    h.unique, fun a l ha hl hm => .inl (h.held a l ha hl hm)⟩

theorem event (h : HoldInv w s) (hr : s.sends[place]? = some r) (ev : ProviderEvent) :
    HoldInv w { s with
      events := s.events ++ [{ place, channel := r.channel_id, event := ev }] } where
  rows := { h.rows with }
  events :=
    { channels := fun k c hk => by
        rcases getElem?_append_cases hk with hk | ⟨-, rfl⟩
        · exact h.events.channels k c hk
        · exact ⟨r, hr, rfl⟩
      times := fun k c a l now hk hp => by
        rcases getElem?_append_cases hk with hk | ⟨-, rfl⟩
        · exact h.events.times k c a l now hk hp
        · rcases hp with hp | hp <;> cases hp }
  unique := h.unique
  minded := fun a l ha hl hm => (h.minded a l ha hl hm).imp_right fun ⟨k, c, hk, hsees⟩ =>
    ⟨k, c, getElem?_append_of_some hk _, hsees⟩

/-- Each statement of an event by right keeps the invariant. -/
theorem eventNext (h : HoldInv w s) (hk : s.events[k]? = some c)
    (hright : s.timely w (.next k) = true) (hnext : s.eventNext w k c = some s') :
    HoldInv w s' := by
  obtain ⟨place, channel, ev, phase⟩ := c
  unfold HoldState.eventNext at hnext
  cases phase with
  | writing =>
    dsimp only at hnext
    split at hnext
    next =>
      cases hnext
      exact h.advance hk (fun a l now hp => by rcases hp with hp | hp <;> cases hp)
        fun _ _ _ _ _ hsees => hsees.elim
    next r hr =>
      cases hnext
      refine h.write hk rfl hr ?_
      simp only [HoldState.timely, hk, hr, Bool.or_eq_true, decide_eq_true_eq] at hright
      rcases hright with ((hright | hright) | hright) | hright
      · exact .inl hright
      · exact .inr (.inl hright)
      · exact .inr (.inr (.inl hright))
      · exact .inr (.inr (.inr hright))
  | recorded =>
    dsimp only at hnext
    split at hnext
    next row hrow =>
      split at hnext
      next hempty =>
        cases hnext
        refine h.advance hk (fun a l now hp => by rcases hp with hp | hp <;> cases hp)
          fun a l ha hl _ hsees => ?_
        obtain ⟨row', hrow', rfl, rfl⟩ := hsees
        cases hrow.symm.trans hrow'
        rcases hempty with hempty | hempty
        · exact absurd hempty hl
        · exact absurd hempty ha
      next =>
        cases hnext
        refine h.advance hk (fun a l now hp => ?_) fun a l ha hl _ hsees => .inr ?_
        · rcases hp with hp | hp <;> cases hp
          exact h.rows.clock.2
        · obtain ⟨row', hrow', rfl, rfl⟩ := hsees
          cases hrow.symm.trans hrow'
          exact ⟨rfl, rfl⟩
    next hnone =>
      cases hnext
      refine h.advance hk (fun a l now hp => by rcases hp with hp | hp <;> cases hp)
        fun a l ha hl _ hsees => ?_
      obtain ⟨row', hrow', -⟩ := hsees
      exact absurd hrow' (by rw [hnone]; exact nofun)
  | checking a l now =>
    cases hnext
    have hnow := h.events.times k _ a l now hk (.inl rfl)
    refine h.advance hk (fun a' l' now' hp => ?_) fun a' l' _ _ _ hsees => ?_
    · split at hp <;> rcases hp with hp | hp <;> cases hp
      exact hnow
    · obtain ⟨rfl, rfl⟩ := hsees
      split
      next hheld => exact .inl hheld
      next => exact .inr ⟨rfl, rfl⟩
  | reading a l now =>
    cases hnext
    have hnow := h.events.times k _ a l now hk (.inr rfl)
    refine h.advance hk (fun a' l' now' hp => by rcases hp with hp | hp <;> cases hp)
      fun a' l' _ _ _ hsees => .inr ?_
    obtain ⟨rfl, rfl⟩ := hsees
    exact ⟨rfl, rfl, countedSince_sameWindow hnow h.rows.clock.2 _, nofun, nofun, nofun, nofun⟩
  | inserting a l since stats reason =>
    cases hnext
    exact h.insert hk rfl
  | counting => cases hnext
  | ended => cases hnext

/-- Each step by right keeps the invariant. -/
theorem step (h : HoldInv w s) {action : HoldAction} (hright : s.timely w action = true)
    (hstep : s.step w action = some s') : HoldInv w s' := by
  unfold HoldState.step at hstep
  cases action with
  | tick elapsed =>
    obtain ⟨hin, ⟨⟩⟩ := Option.ite_none_right_eq_some.mp hstep
    exact h.tick hin
  | enqueue id channel contact brandId =>
    cases hstep
    exact h.enqueue _ nofun
  | claim place =>
    dsimp only at hstep
    split at hstep
    next r hr =>
      obtain ⟨hw, ⟨⟩⟩ := Option.ite_none_right_eq_some.mp hstep
      exact h.claim hr hw
    next => cases hstep
  | accept k m cr =>
    dsimp only at hstep
    split at hstep
    next c hk =>
      obtain ⟨hc, ⟨⟩⟩ := Option.ite_none_right_eq_some.mp hstep
      exact h.accept hk hc m cr
    next => cases hstep
  | record k =>
    dsimp only at hstep
    split at hstep
    next place t m cr hk =>
      split at hstep
      next r hr =>
        cases hstep
        simp only [HoldState.timely, hk, hr, Bool.or_eq_true] at hright
        exact h.record hk rfl hr hright
      next => cases hstep
    next => cases hstep
  | finish k status cr =>
    dsimp only at hstep
    split at hstep
    next place hk =>
      split at hstep
      next r hr =>
        obtain ⟨hstatus, ⟨⟩⟩ := Option.ite_none_right_eq_some.mp hstep
        refine h.finish hk rfl hr (fun hs => ?_) cr
        rw [hs] at hstatus
        rcases hstatus with hs | hs | hs <;> cases hs
      next => cases hstep
    next => cases hstep
  | closeStuck place =>
    dsimp only at hstep
    split at hstep
    next r hr =>
      obtain ⟨hs, ⟨⟩⟩ := Option.ite_none_right_eq_some.mp hstep
      exact h.closeStuck hr hs
    next => cases hstep
  | event place ev =>
    dsimp only at hstep
    split at hstep
    next r hr =>
      cases hstep
      exact h.event hr ev
    next => cases hstep
  | next k =>
    dsimp only at hstep
    split at hstep
    next c hk => exact h.eventNext hk hright hstep
    next => cases hstep
  | count k name =>
    dsimp only at hstep
    split at hstep
    next place channel ev a l since read hk =>
      cases hstep
      exact h.count hk rfl name
    next => cases hstep
  | startRelease place =>
    obtain ⟨-, ⟨⟩⟩ := Option.ite_none_right_eq_some.mp hstep
    exact ⟨{ h.rows with }, { h.events with }, h.unique, h.minded⟩
  | release k =>
    dsimp only at hstep
    split at hstep
    next c hk =>
      split at hstep
      next => cases hstep
      next =>
        cases hstep
        refine h.release _ fun hold hhold hs => ?_
        simp only [HoldState.timely, hk, hhold, hs, ne_eq, not_true_eq_false, decide_false,
          Bool.false_or] at hright
        exact hright
    next => cases hstep

end HoldInv

/-! ## Held once -/

/-- No list has two active holds. -/
def HeldOnce (s : HoldState) : Prop := ∀ a l, s.holds.countP (·.isActiveFor a l) ≤ 1

/-- When all is quiet, each list that meets a reason is held. -/
def NoneMissed (w : HoldWorld) (s : HoldState) : Prop :=
  s.quiescent = true → ∀ a l, a ≠ "" → l ≠ "" → s.meets w a l = true → isHeld s.holds a l = true

/-- A step inserts a hold, releases one or leaves them. -/
theorem holds_of_step {action : HoldAction} (hstep : s.step w action = some s') :
    s'.holds = s.holds ∨ (∃ hold, s'.holds = insertHold s.holds hold) ∨
      ∃ place t, s'.holds = s.holds.modify place (HoldRow.released t) := by
  unfold HoldState.step HoldState.eventNext at hstep
  cases action with
  | release k =>
    dsimp only at hstep
    split at hstep
    next c _ =>
      split at hstep
      next => cases hstep
      next =>
        cases hstep
        exact .inr (.inr ⟨_, _, rfl⟩)
    next => cases hstep
  | next k =>
    dsimp only at hstep
    split at hstep
    next c _ =>
      split at hstep
      next => split at hstep <;> cases hstep <;> exact .inl rfl
      next =>
        split at hstep
        next => split at hstep <;> cases hstep <;> exact .inl rfl
        next =>
          cases hstep
          exact .inl rfl
      next =>
        cases hstep
        exact .inl rfl
      next =>
        cases hstep
        exact .inl rfl
      next =>
        cases hstep
        exact .inr (.inl ⟨_, rfl⟩)
      next => cases hstep
      next => cases hstep
    next => cases hstep
  | tick elapsed =>
    obtain ⟨-, ⟨⟩⟩ := Option.ite_none_right_eq_some.mp hstep
    exact .inl rfl
  | startRelease place =>
    obtain ⟨-, ⟨⟩⟩ := Option.ite_none_right_eq_some.mp hstep
    exact .inl rfl
  | enqueue =>
    cases hstep
    exact .inl rfl
  | _ =>
    dsimp only at hstep
    repeat' split at hstep
    all_goals cases hstep
    all_goals exact .inl rfl

/-- No step holds a list twice. -/
theorem HeldOnce.step (h : HeldOnce s) {action : HoldAction}
    (hstep : s.step w action = some s') : HeldOnce s' := by
  rcases holds_of_step hstep with hsame | ⟨hold, hinsert⟩ | ⟨place, t, hrelease⟩
  · intro a l
    rw [hsame]
    exact h a l
  · intro a l
    rw [hinsert]
    exact HoldInv.insertHold_unique h a l
  · intro a l
    rw [hrelease]
    cases hhold : s.holds[place]? with
    | none =>
      rw [List.modify_eq_self (by simpa using hhold)]
      exact h a l
    | some hold =>
      have := countP_set_add (b := hold.released t) hhold (·.isActiveFor a l)
      simp only [HoldInv.released_isActiveFor, Bool.false_eq_true, if_false] at this
      have := h a l
      rw [HoldInv.modify_eq_set hhold]
      omega

theorem HoldInv.noneMissed (h : HoldInv w s) : NoneMissed w s := by
  intro hquiet a l ha hl hm
  rcases h.minded a l ha hl hm with hheld | ⟨k, c, hk, hsees⟩
  · exact hheld
  · simp only [HoldState.quiescent, Bool.and_eq_true, List.all_eq_true, decide_eq_true_eq] at hquiet
    rw [EventCall.Sees, hquiet.1.2 c (List.mem_of_getElem? hk)] at hsees
    exact hsees.elim

/-- Along every run no list is held twice; and along those whose steps are by right none that meets
    a reason is left without a hold. -/
theorem holds_kept (w : HoldWorld) :
    (∀ s, (holdSystem w).Reachable s → HeldOnce s) ∧
    ∀ s, ((holdSystem w).restrict fun s a _ => s.timely w a = true).Reachable s →
      NoneMissed w s := by
  refine ⟨fun s hs => ?_, fun s hs => ?_⟩
  · refine hs.invariant (fun t ht => ?_) fun t _ t' _ h hstep => ?_
    · exact HoldState.Initial.unique ht
    · exact h.step hstep
  · refine HoldInv.noneMissed ?_
    refine hs.invariant (P := HoldInv w) (fun t ht => HoldInv.init ht) fun t _ t' _ h hstep => ?_
    exact h.step hstep.2 hstep.1

/-- A shop with one list. -/
def shopWorld : HoldWorld :=
  { windowStart := 0
    channels := [{ account_id := "shop", credential_id := "resend", list_name := "news" }] }

theorem shopWorld_initial : ({ clock := 0 } : HoldState).Initial shopWorld where
  clock := by decide
  sends := fun _ hr => nomatch hr
  unique := fun _ _ => Nat.zero_le 1
  held := fun _ _ _ _ hm => nomatch hm
  idle := ⟨rfl, rfl, rfl⟩

/-- The mail at `place` is sent, and the provider accepts it. -/
def accepted (place : Nat) : List HoldAction :=
  [.enqueue "mail" 0 place "brand", .claim place, .accept place "message" "resend"]

/-- A complaint about the mail, the `place`-th event of all, and what it evaluates. -/
def complained (place : Nat) : List HoldAction :=
  [.event place { kind := .complaint, occurred_at := 1 }, .next place, .next place, .next place,
    .next place, .count place .sent, .count place .bounced, .count place .complained,
    .count place .hardBounced]

/-- Two complaints about mails that are recorded as sent hold the list. -/
theorem holds_kept_small :
    ∃ s, (s.quiescent = true ∧ isHeld s.holds "shop" "news" = true) ∧ HeldOnce s ∧
      NoneMissed shopWorld s := by
  obtain ⟨s, hs, hend⟩ := Transition.exists_reachable_checked (M := holdSystem shopWorld)
    (C := fun s a => s.timely shopWorld a) (fun _ _ _ h => h) shopWorld_initial
    (accepted 0 ++ [.record 0] ++ accepted 1 ++ [.record 1] ++ complained 0 ++ complained 1 ++
      [.next 1])
    (fun s => s.quiescent && isHeld s.holds "shop" "news") (by decide +kernel)
  have hkept := holds_kept shopWorld
  exact ⟨s, by simpa using hend, hkept.1 s hs.of_restrict, hkept.2 s hs⟩

/-- Two complaints that come before the results of their mails are recorded hold nothing. -/
theorem complaints_before_results :
    ¬ ∀ (w : HoldWorld) (s : HoldState), (holdSystem w).Reachable s →
      HeldOnce s ∧ NoneMissed w s := by
  intro hall
  obtain ⟨s, hs, hend⟩ := Transition.exists_reachable_checked (M := holdSystem shopWorld)
    (C := fun _ _ => true) (fun _ _ _ h => h) shopWorld_initial
    (accepted 0 ++ complained 0 ++ [.record 0] ++ accepted 1 ++ complained 1 ++ [.record 1])
    (fun s => s.quiescent && s.meets shopWorld "shop" "news" && !isHeld s.holds "shop" "news")
    (by decide +kernel)
  simp only [Bool.and_eq_true, Bool.not_eq_true'] at hend
  have hheld := (hall shopWorld s hs.of_restrict).2 hend.1.1 "shop" "news" (by decide) (by decide)
    hend.1.2
  rw [hend.2] at hheld
  cases hheld

end WorkflowBoard.MailEvents
