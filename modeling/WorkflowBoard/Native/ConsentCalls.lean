import WorkflowBoard.Native.ConsentNotices

/-!
# Calls that write contacts and consents

Imports, legacy migrations, withdrawals, erasures, keep links, renewals and the queue of the
notices, any number of each underway. A transaction is a step, and so is a statement outside of
one; what a call has read stays with it while others write.

The events of a provider are `bounce`, its write to a notice, and `suppress`, which follows it for
most of them. Tokens are drawn anew and given with the step.
-/

namespace WorkflowBoard.Consents

open Email (ContactStatus LocalHour EmailOutcome)

structure ConsentWorld where
  emailHash : String → String
  localHour : LocalHour

/-- A notice that a pass has claimed: its place, the row as it was read, the clock at the claim and
    at the start of `sendOne`, and what is left of the batch. -/
structure NoticeJob where
  place : Nat
  n : Notice
  claimed : Date
  start : Date
  due : List Nat

/-- Where a pass of the queue of notices is. -/
inductive NoticePhase where
  | finding
  | closing (stuck : List Nat)
  | listing
  | claiming (due : List Nat)
  | loading (place : Nat) (claimed : Date) (due : List Nat)
  | sending (job : NoticeJob) (stage : NoticeStage)

/-- A pass of the queue, with the time it was given, the one it was started at and the settings it
    has read. -/
structure QueuePass where
  now : Date
  started : Date
  settings : List (String × Option NoticeSetting) := []

/-- `clock()`. -/
def QueuePass.clock (p : QueuePass) (current : Date) : Date := p.now + max (current - p.started) 0

inductive ConsentCall where
  /-- `import`: before its reads and before its transaction. -/
  | importing (e : ConsentStore.ImportEntry)
  | importPrior (e : ConsentStore.ImportEntry) (existing : Nat × ContactRow)
  | importSaving (e : ConsentStore.ImportEntry) (existing : Option (Nat × ContactRow))
      (prior : Option (Nat × ConsentRow))
  | migrating (accountId brandId : String) (ids : List Nat) (tokens : Nat → String)
  /-- `unsubscribeByToken`. -/
  | byToken (token source : String)
  | byConsentToken (id : Nat) (k : ConsentRow) (source : String)
  | byContactToken (token source : String)
  /-- `markUnsubscribed`. -/
  | marking (id : Nat) (accountId brandId : String)
  | markingConsent (id : Nat) (accountId brandId : String)
  /-- `suppressContact`. -/
  | suppressing (contactId : Nat) (status : ContactStatus) (source brandId : String)
  | suppressingConsent (contactId : Nat) (accountId : String) (status : ContactStatus)
      (source brandId : String)
  /-- The update of one of the three, with the statuses it allows. -/
  | withdrawContact (id : Nat) (allowed : ContactStatus → Bool) (status : ContactStatus)
      (source : String)
  | withdrawConsent (id : Nat) (allowed : ContactStatus → Bool) (status : ContactStatus)
      (source : String)
  | erasing (id : Nat) (accountId : String)
  | eraseSaving (id : Nat) (accountId : String) (row : ContactRow)
  /-- `keep`. -/
  | keeping (token : String) (now : Date)
  | keepReading (place : Nat) (n : Notice) (now : Date)
  | keepSaving (place : Nat) (n : Notice) (now : Date)
  /-- `renewDue`. -/
  | renewing (now : Date)
  | renewRow (now : Date) (rows : List (Nat × Notice))
  | renewReading (now : Date) (place : Nat) (n : Notice) (rows : List (Nat × Notice))
  | renewSaving (now : Date) (place : Nat) (n : Notice) (k : ConsentRow)
    (rows : List (Nat × Notice))
  | renewMarking (now : Date) (place : Nat) (rows : List (Nat × Notice))
  /-- `planAccount`. -/
  | planning (accountId : String) (now : Date)
  | planContacts (accountId : String) (leadDays : Nat) (now : Date)
  | planConsents (accountId : String) (leadDays : Nat) (now : Date) (contacts : List Nat)
  | planCycles (accountId : String) (now : Date) (due : List ConsentStore.DueNotice)
  | planInserting (accountId : String) (now : Date) (due : List ConsentStore.DueNotice)
  /-- `processQueue`. -/
  | queue (p : QueuePass) (phase : NoticePhase)
  | ended

/-- Why a deadline is what it is. -/
inductive MoveCause where
  | imported
  | migrated
  /-- By a click on the link of the notice at `place`, which was begun at `now`. -/
  | kept (place : Nat) (now : Date)
  /-- By the notice at `place`, read as `n`, with the bounce it has now. -/
  | renewed (place : Nat) (n : Notice) (bounce : Option BounceType)
  | other

/-- The deadline of a consent is set. -/
structure DeadlineMove where
  consent : Nat
  /-- The consent before, if there was one. -/
  before : Option ConsentRow
  after : Date
  cause : MoveCause

/-- The consents whose deadline is not the one it was. -/
def deadlineMoves (before after : ConsentStore) (cause : MoveCause) : List DeadlineMove :=
  (List.range after.consents.length).filterMap fun i =>
    (after.consents[i]?).bind fun k =>
      let old := before.consents[i]?
      let deadline := Email.consentDeadline k.toConsentPeriod
      if old.map (fun k => Email.consentDeadline k.toConsentPeriod) = some deadline then none
      else some { consent := i, before := old, after := deadline, cause }

/-- A notice that a provider has accepted: its place, the policy it names and the time. -/
structure NoticeSent where
  place : Nat
  policy : NoticePolicy
  clock : Date

/-- `moves`, the latest first, and `sends` are bookkeeping: no step depends on them. -/
structure ConsentState where
  clock : Date
  store : ConsentStore
  calls : List ConsentCall := []
  moves : List DeadlineMove := []
  sends : List NoticeSent := []

namespace ConsentState

def setCall (s : ConsentState) (k : Nat) (c : ConsentCall) : ConsentState :=
  { s with calls := s.calls.set k c }

/-- The tables become `t`. -/
def commit (s : ConsentState) (t : ConsentStore) (cause : MoveCause) : ConsentState :=
  { s with store := t, moves := deadlineMoves s.store t cause ++ s.moves }

/-- The place and row of the first contact or consent that a query finds. -/
def readContact (s : ConsentState) (i : Option Nat) : Option (Nat × ContactRow) :=
  i.bind fun i => (s.store.contacts[i]?).map fun c => (i, c)

def readConsent (s : ConsentState) (i : Option Nat) : Option (Nat × ConsentRow) :=
  i.bind fun i => (s.store.consents[i]?).map fun k => (i, k)

/-- The next statement of a pass of the queue. -/
def queueNext (w : ConsentWorld) (s : ConsentState) (k : Nat) (p : QueuePass) :
    NoticePhase → Option ConsentState
  | .finding => some (s.setCall k (.queue p (.closing (s.store.stuckNotices p.now))))
  | .closing [] => some (s.setCall k (.queue p .listing))
  | .closing (i :: stuck) =>
    some ((s.commit (s.store.modifyNotice i (·.interrupted s.clock)) .other).setCall k
      (.queue p (.closing stuck)))
  | .listing => some (s.setCall k (.queue p (.claiming (s.store.waitingNotices p.now))))
  | .claiming [] => some (s.setCall k .ended)
  | .claiming (i :: due) =>
    if (s.store.notices[i]?).any (ConsentStore.isWaiting (p.clock s.clock)) then
      some ((s.commit (s.store.modifyNotice i (·.claimed s.clock)) .other).setCall k
        (.queue p (.loading i (p.clock s.clock) due)))
    else some (s.setCall k (.queue p (.claiming due)))
  | .loading i claimed due =>
    some (s.setCall k (.queue p (match s.store.notices[i]? with
      | some n => .sending { place := i, n, claimed, start := p.clock s.clock, due } .contact
      | none => .claiming due)))
  | .sending job .contact =>
    some (s.setCall k (.queue p (.sending job (noticeContactGate s.store job.n))))
  | .sending job (.consent timezone) =>
    some (s.setCall k (.queue p (.sending job
      (noticeConsentGate s.store job.n job.start timezone))))
  | .sending job (.settings timezone) =>
    let setting := ((p.settings.find? (·.1 = job.n.account_id)).map (·.2)).getD
      (s.store.settings job.n.account_id)
    some (s.setCall k (.queue { p with settings := (job.n.account_id, setting) :: p.settings }
      (.sending job (noticeSettingsGate w.localHour job.n job.start timezone setting))))
  | .sending job (.finishing f) =>
    some ((s.commit (s.store.modifyNotice job.place (f.apply s.clock)) .other).setCall k
      (.queue p (.claiming job.due)))
  | .sending job (.caught error) =>
    some ((s.commit (s.store.modifyNotice job.place (·.putOff job.claimed error s.clock))
      .other).setCall k (.queue p (.claiming job.due)))
  | .sending _ (.sender _) | .sending _ (.calling _) => none

/-- The next statement of a call. -/
def callNext (w : ConsentWorld) (s : ConsentState) (k : Nat) (token : String) :
    ConsentCall → Option ConsentState
  | .importing e =>
    match s.readContact (e.existing w.emailHash s.store) with
    | some existing =>
      some (s.setCall k
        (if existing.2.status = .subscribed then .importPrior e existing else .ended))
    | none => some (s.setCall k (.importSaving e none none))
  | .importPrior e existing =>
    let prior := s.readConsent (s.store.consentFor existing.1 e.account_id e.brand_id)
    some (s.setCall k (if prior.all (·.2.status = .subscribed) then .importSaving e existing prior
      else .ended))
  | .importSaving e existing prior =>
    -- What throws in the transaction leaves the tables as they were.
    some ((s.commit ((s.store.saveImport w.emailHash e existing prior).getD s.store)
      .imported).setCall
      k .ended)
  | .migrating accountId brandId ids tokens =>
    some ((s.commit ((s.store.migrateContacts accountId brandId tokens ids).getD s.store)
      .migrated).setCall k .ended)
  | .byToken token source =>
    match s.readConsent (s.store.consents.findIdx? (·.unsubscribe_token = token)) with
    | some (id, row) => some (s.setCall k (.byConsentToken id row source))
    | none => some (s.setCall k (.byContactToken token source))
  | .byConsentToken id row source =>
    let open_ := (s.store.contacts[row.contact_id]?).any fun c =>
      c.account_id = row.account_id && c.status = .subscribed && row.status = .subscribed
    some (s.setCall k (if open_ then
      .withdrawConsent id (· = .subscribed) .unsubscribed source else .ended))
  | .byContactToken token source =>
    match s.readContact (s.store.findContact (·.unsubscribe_token = token)) with
    | some (id, row) => some (s.setCall k (if row.status = .subscribed then
        .withdrawContact id (· = .subscribed) .unsubscribed source else .ended))
    | none => some (s.setCall k .ended)
  | .marking id accountId brandId =>
    match (s.store.contacts[id]?).filter (·.account_id = accountId) with
    | some row => some (s.setCall k (
        if brandId ≠ "" then .markingConsent id accountId brandId
        else if row.status = .erased then .ended
        else .withdrawContact id (· ≠ .erased) .unsubscribed "manual"))
    | none => some (s.setCall k .ended)
  | .markingConsent id accountId brandId =>
    match s.store.consentFor id accountId brandId with
    | some i => some (s.setCall k (.withdrawConsent i (· = .subscribed) .unsubscribed "manual"))
    | none => some (s.setCall k .ended)
  | .suppressing contactId status source brandId =>
    match s.store.contacts[contactId]? with
    | some row => some (s.setCall k (
        if status = .unsubscribed ∧ brandId ≠ "" then
          .suppressingConsent contactId row.account_id status source brandId
        else .withdrawContact contactId (suppressFrom status) status source))
    | none => some (s.setCall k .ended)
  | .suppressingConsent contactId accountId status source brandId =>
    match s.store.consentFor contactId accountId brandId with
    | some i => some (s.setCall k (.withdrawConsent i (suppressFrom status) status source))
    | none => some (s.setCall k .ended)
  | .withdrawContact id allowed status source =>
    some ((s.commit (s.store.withdrawContact id allowed status source s.clock) .other).setCall k
      .ended)
  | .withdrawConsent id allowed status source =>
    some ((s.commit (s.store.withdrawConsent id allowed status source s.clock) .other).setCall k
      .ended)
  | .erasing id accountId =>
    match (s.store.contacts[id]?).filter (·.account_id = accountId) with
    | some row => some (s.setCall k (.eraseSaving id accountId row))
    | none => some (s.setCall k .ended)
  | .eraseSaving id accountId row =>
    some ((s.commit (s.store.eraseContact id accountId token row s.clock) .other).setCall k .ended)
  | .keeping token now =>
    match s.store.notices.findIdx? (·.token = token) with
    | some place => some (s.setCall k (match s.store.notices[place]? with
      | some n => .keepReading place n now
      | none => .ended))
    | none => some (s.setCall k .ended)
  | .keepReading place n now =>
    some (s.setCall k (if (s.store.consentForNotice n).isSome then .keepSaving place n now
      else .ended))
  | .keepSaving place n now =>
    some ((s.commit ((s.store.keepConsent place n now).getD s.store) (.kept place now)).setCall k
      .ended)
  | .renewing now => some (s.setCall k (.renewRow now (s.store.renewPage now)))
  | .renewRow _ [] => some (s.setCall k .ended)
  | .renewRow now ((place, n) :: rows) =>
    some (s.setCall k (if s.store.isMailable n.contact_id n.account_id then
      .renewReading now place n rows else .renewRow now rows))
  | .renewReading now place n rows =>
    some (s.setCall k (match s.store.consentToRenew n with
      | some row => .renewSaving now place n row rows
      | none => .renewRow now rows))
  | .renewSaving now place n row rows =>
    some ((s.commit (s.store.renewConsent n row)
      (.renewed place n ((s.store.notices[place]?).bind (·.bounce_type)))).setCall k
      (.renewMarking now place rows))
  | .renewMarking now place rows =>
    some ((s.commit (s.store.markRenewed place now) .other).setCall k (.renewRow now rows))
  | .planning accountId now =>
    some (s.setCall k (match (s.store.settings accountId).filter (·.enabled) with
      | some v => .planContacts accountId v.lead_days now
      | none => .ended))
  | .planContacts accountId leadDays now =>
    some (s.setCall k (.planConsents accountId leadDays now (s.store.subscribedContacts accountId)))
  | .planConsents accountId leadDays now contacts =>
    some (s.setCall k (.planCycles accountId now
      (s.store.dueNotices accountId contacts leadDays now)))
  | .planCycles accountId now due =>
    some (s.setCall k (.planInserting accountId now (due.filter fun d => !s.store.hasCycle d)))
  | .planInserting _ _ [] => some (s.setCall k .ended)
  | .planInserting accountId now (d :: due) =>
    match s.store.insertNotice accountId d token now s.clock with
    | some t => some ((s.commit t .other).setCall k (.planInserting accountId now due))
    | none =>
      -- Another server has inserted it before; anything else throws.
      some (s.setCall k (if s.store.hasNotice d then .planInserting accountId now due else .ended))
  | .queue p phase => s.queueNext w k p phase
  | .ended => none

/-- A pass learns by what channel a notice goes, or that there is none. -/
def picked (s : ConsentState) (k : Nat) (pick : SenderPick) : ConsentCall → Option ConsentState
  | .queue p (.sending job (.sender setting)) =>
    some (s.setCall k (.queue p (.sending job (noticeSenderGate job.n job.start setting pick))))
  | _ => none

/-- The provider has answered. -/
def returned (s : ConsentState) (k : Nat) (outcome : EmailOutcome) :
    ConsentCall → Option ConsentState
  | .queue p (.sending job (.calling setting)) =>
    some { s.setCall k (.queue p (.sending job (.finishing
        (noticeOutcome job.n job.start (p.clock s.clock) setting outcome)))) with
      sends := match outcome with
        | .sent _ => { place := job.place, policy := setting.on_no_response, clock := s.clock } ::
            s.sends
        | _ => s.sends }
  | _ => none

/-- A statement throws. On the way to the provider this is caught, and a result that cannot be
    recorded is let go. -/
def throws (s : ConsentState) (k : Nat) (error : String) : ConsentCall → ConsentState
  | .queue p (.sending job stage) =>
    s.setCall k (.queue p (match stage with
      | .finishing f => if f.used.isSome then .claiming job.due else .sending job (.caught error)
      | .caught _ => .claiming job.due
      | .calling setting => .sending job (.calling setting)
      | _ => .sending job (.caught error)))
  | _ => s.setCall k .ended

end ConsentState

/-- The calls that begin. -/
inductive ConsentRequest where
  | importEntry (e : ConsentStore.ImportEntry)
  | migrateLegacy (accountId brandId : String) (ids : List Nat) (tokens : Nat → String)
  | unsubscribeByToken (token source : String)
  | markUnsubscribed (id : Nat) (accountId brandId : String)
  | suppressContact (contactId : Nat) (status : ContactStatus) (source brandId : String)
  | erase (id : Nat) (accountId : String)
  | keep (token : String)
  | renewDue
  | planAccount (accountId : String)
  /-- `lag` after the time it is given. -/
  | processQueue (lag : Nat)

/-- The first phase of a call; none if it is refused at once. -/
def ConsentRequest.call (s : ConsentState) : ConsentRequest → Option ConsentCall
  | importEntry e =>
    if s.store.hasBrand e.brand_id e.account_id ∧ e.evidence.consent_renewed_at = none then
      some (.importing e) else none
  | migrateLegacy accountId brandId ids tokens =>
    if s.store.hasBrand brandId accountId then some (.migrating accountId brandId ids.dedup tokens)
    else none
  | unsubscribeByToken token source => some (.byToken token source)
  | markUnsubscribed id accountId brandId => some (.marking id accountId brandId)
  | suppressContact contactId status source brandId =>
    if status = .bounced ∨ status = .complained ∨ status = .unsubscribed then
      some (.suppressing contactId status source brandId) else none
  | erase id accountId => some (.erasing id accountId)
  | keep token => some (.keeping token s.clock)
  | renewDue => some (.renewing s.clock)
  | planAccount accountId => some (.planning accountId s.clock)
  | processQueue lag => some (.queue { now := s.clock - lag, started := s.clock } .finding)

inductive ConsentAction where
  | tick (elapsed : Nat)
  | createBrand (id accountId : String)
  | saveSettings (accountId : String) (v : NoticeSetting)
  /-- The event of a provider that a notice has bounced. -/
  | bounce (place : Nat) (type : BounceType)
  | retryFailed (accountId : String)
  | request (r : ConsentRequest)
  | next (k : Nat) (token : String)
  | picked (k : Nat) (pick : SenderPick)
  | returned (k : Nat) (outcome : EmailOutcome)
  | throws (k : Nat) (error : String)
  /-- The server of a call dies. -/
  | stop (k : Nat)

/-- One step, if there is one. -/
def ConsentAction.run (w : ConsentWorld) (s : ConsentState) : ConsentAction → Option ConsentState
  | tick elapsed => some { s with clock := s.clock + elapsed }
  | createBrand id accountId =>
    some (s.commit { s.store with brands := s.store.brands ++ [(id, accountId)] } .other)
  | saveSettings accountId v =>
    if minLeadDays ≤ v.lead_days ∧ v.lead_days ≤ maxLeadDays then
      some (s.commit { s.store with
        settings := Function.update s.store.settings accountId (some v) } .other)
    else none
  | bounce place type =>
    some (s.commit (s.store.modifyNotice place (·.bounced type s.clock)) .other)
  | retryFailed accountId => some (s.commit (s.store.retryFailed accountId s.clock) .other)
  | request r => (r.call s).map fun c => { s with calls := s.calls ++ [c] }
  | next k token => (s.calls[k]?).bind (s.callNext w k token)
  | picked k pick => (s.calls[k]?).bind (s.picked k pick)
  | returned k outcome => (s.calls[k]?).bind (s.returned k outcome)
  | throws k error => (s.calls[k]?).map (s.throws k error)
  | stop k => (s.calls[k]?).map fun _ => s.setCall k .ended

/-- Any number of calls, from contacts and consents for which `start` holds and no notices. -/
def consentSystem (w : ConsentWorld) (start : ConsentStore → Prop) :
    Transition ConsentState ConsentAction where
  init s := start s.store ∧ s.store.notices = [] ∧ s.calls = [] ∧ s.sends = [] ∧
    s.moves = deadlineMoves {} s.store .migrated
  step s a s' := a.run w s = some s'

end WorkflowBoard.Consents
