import WorkflowBoard.ForStd.Order
import WorkflowBoard.Spec.PeriodsExtended

/-!
# Renewing until nothing is left

`renewDue` takes a page of 500 notices, by their due date, and leaves those it cannot renew where
they are. Repeated until it renews nothing, it leaves none that it could renew just if no 500
of the others stand before one.
-/

namespace WorkflowBoard.Consents

open Email (consentDeadline consentMaxAgeMs)

namespace ConsentStore

/-! ## Notices that can be renewed -/

/-- The query finds the notice, its contact can be mailed, and its consent is of its cycle. -/
def isEligible (t : ConsentStore) (now : Date) (i : Nat) : Bool :=
  (t.notices[i]?).any fun n => isRenewable now n && t.isMailable n.contact_id n.account_id &&
    (t.consentToRenew n).isSome

def sameConsent (t : ConsentStore) (i j : Nat) : Bool :=
  (t.notices[i]?).map (·.consent_id) = (t.notices[j]?).map (·.consent_id)

/-- What the query puts before a notice. -/
def before (t : ConsentStore) (now : Date) (i : Nat) : List Nat := upTo (t.renewable now) i

/-- The first notice of its consent that can be renewed. -/
def isAlive (t : ConsentStore) (now : Date) (i : Nat) : Bool :=
  t.isEligible now i && (t.before now i).all fun j => !(t.isEligible now j && t.sameConsent j i)

/-- Fewer than a page of others stand before each notice that is the first of its consent. -/
def PageHolds (t : ConsentStore) (now : Date) : Prop :=
  ∀ i ∈ t.renewable now, t.isAlive now i = true →
    ((t.before now i).filter fun j => !t.isAlive now j).length < renewPageSize

variable {t t' : ConsentStore} {now : Date} {i j r : Nat} {n : Notice}

theorem mem_renewable :
    i ∈ t.renewable now ↔ ∃ n, t.notices[i]? = some n ∧ isRenewable now n = true := by
  unfold renewable
  rw [List.mem_insertionSort, List.mem_filter, List.mem_range, Option.any_eq_true]
  constructor
  · exact fun h => h.2
  · rintro ⟨n, hn, hok⟩
    exact ⟨(lt_of_getElem? hn), n, hn, hok⟩

theorem nodup_renewable (t : ConsentStore) (now : Date) : (t.renewable now).Nodup :=
  (List.perm_insertionSort _ _).nodup_iff.mpr (List.nodup_range.filter _)

theorem mem_renewable_of_eligible (h : t.isEligible now i = true) : i ∈ t.renewable now := by
  obtain ⟨n, hn, hok⟩ := (Option.any_eq_true _ _).mp h
  rw [Bool.and_eq_true, Bool.and_eq_true] at hok
  exact mem_renewable.mpr ⟨n, hn, hok.1.1⟩

theorem sameConsent_comm : t.sameConsent i j = t.sameConsent j i := by
  unfold sameConsent
  rw [decide_eq_decide]
  exact eq_comm

theorem sameConsent_trans (h : t.sameConsent i j = true) (h' : t.sameConsent j r = true) :
    t.sameConsent i r = true := by
  unfold sameConsent at *
  rw [decide_eq_true_eq] at *
  exact h.trans h'

theorem pageHolds_of_length (h : (t.renewable now).length ≤ renewPageSize) : PageHolds t now := by
  intro i hi _
  have hle := List.length_filter_le (fun j => !t.isAlive now j) (t.before now i)
  have hlt : (t.before now i).length < (t.renewable now).length := length_upTo_lt hi
  omega

/-! ## Renewing the first one -/

/-- The first notice of all that can be renewed goes, with less than a page before it. The others
    that are the first of their consent stay so, and so do those that are not. -/
theorem pageHolds_renew (hC : t'.renewable now = (t.renewable now).filter (· ≠ r))
    (heligible : ∀ i, t'.isEligible now i = (t.isEligible now i && !t.sameConsent i r))
    (hsame : ∀ i j, t'.sameConsent i j = t.sameConsent i j) (hr : t.isEligible now r = true)
    (hfirst : ∀ i ∈ t.before now r, t.isEligible now i = false)
    (hshort : (t.before now r).length < renewPageSize) :
    PageHolds t' now ↔ PageHolds t now := by
  have hmem := mem_renewable_of_eligible hr
  have hbefore : ∀ i, i ≠ r → t'.before now i = (t.before now i).filter (· ≠ r) := by
    intro i hi
    unfold before
    rw [hC, upTo_filter hi]
  have halive_r : t.isAlive now r = true := by
    unfold isAlive
    rw [hr, Bool.true_and, List.all_eq_true]
    intro j hj
    rw [hfirst j hj]
    rfl
  have halive : ∀ i ∈ t.renewable now, i ≠ r → t'.isAlive now i = t.isAlive now i := by
    intro i hi hir
    rw [Bool.eq_iff_iff]
    unfold isAlive
    rw [hbefore i hir]
    simp only [Bool.and_eq_true, List.all_eq_true, heligible, hsame, List.mem_filter,
      decide_eq_true_eq, Bool.not_eq_true', Bool.and_eq_false_iff, Bool.not_eq_false']
    constructor
    · rintro ⟨⟨hi, hother⟩, hall⟩
      refine ⟨hi, fun j hj => ?_⟩
      by_cases hjr : j = r
      · rw [hjr, sameConsent_comm]
        exact .inr hother
      · rcases hall j ⟨hj, hjr⟩ with (h | h) | h
        · exact .inl h
        · -- Of the same consent as `r`, and so not as `i`.
          refine .inr (Bool.eq_false_iff.mpr fun hij => ?_)
          rw [sameConsent_comm] at hij
          rw [sameConsent_trans hij h] at hother
          cases hother
        · exact .inr h
    · rintro ⟨hi', hall⟩
      have hother : t.sameConsent i r = false := by
        refine Bool.eq_false_iff.mpr fun hir' => ?_
        rcases mem_upTo_or hi hir with hbefore' | hafter
        · rw [hfirst i hbefore'] at hi'
          cases hi'
        · rcases hall r hafter with h | h
          · rw [hr] at h
            cases h
          · rw [sameConsent_comm, hir'] at h
            cases h
      refine ⟨⟨hi', hother⟩, fun j hj => ?_⟩
      rcases hall j hj.1 with h | h
      · exact .inl (.inl h)
      · exact .inr h
  have hcount : ∀ i, i ≠ r → ((t'.before now i).filter fun j => !t'.isAlive now j) =
      (t.before now i).filter fun j => !t.isAlive now j := by
    intro i hi
    rw [hbefore i hi, List.filter_filter]
    refine List.filter_congr fun j hj => ?_
    have hj : j ∈ t.renewable now := (List.takeWhile_sublist _).subset hj
    by_cases hjr : j = r
    · rw [hjr, halive_r]
      simp
    · rw [halive j hj hjr]
      simp [hjr]
  constructor
  · intro hholds i hi hialive
    by_cases hir : i = r
    · rw [hir]
      exact lt_of_le_of_lt (List.length_filter_le _ _) hshort
    · rw [← hcount i hir]
      refine hholds i ?_ ?_
      · rw [hC]
        exact List.mem_filter.mpr ⟨hi, decide_eq_true hir⟩
      · rw [halive i hi hir]
        exact hialive
  · intro hholds i hi hialive
    rw [hC] at hi
    obtain ⟨hi, hir⟩ := List.mem_filter.mp hi
    have hir := of_decide_eq_true hir
    rw [hcount i hir]
    rw [halive i hi hir] at hialive
    exact hholds i hi hialive

/-! ## A row -/

/-- The tables after the notice at `r` has renewed its consent. -/
def renewal (t : ConsentStore) (now : Date) (r : Nat) (n : Notice) : ConsentStore :=
  { t with
    consents := t.consents.modify n.consent_id (·.renewed n.due_at)
    notices := t.notices.modify r (·.renewedAt now) }

/-- With nothing else going on, the consent that was read is still there. -/
theorem mayRenew_of_read {k : ConsentRow} (hmail : t.isMailable n.contact_id n.account_id = true)
    (hk : t.consentToRenew n = some k) : t.mayRenew n k = true := by
  obtain ⟨hk, -⟩ := Option.filter_eq_some_iff.mp hk
  unfold consentForNotice at hk
  split at hk
  · obtain ⟨hk, -, -, -, hst⟩ := noticeConsent_eq_some hk
    obtain ⟨c, hc, hok⟩ := (Option.any_eq_true _ _).mp hmail
    simp only [Bool.and_eq_true, decide_eq_true_eq] at hok
    have hemail : c.email.isSome := by
      obtain ⟨e, he, -⟩ := (Option.any_eq_true _ _).mp hok.2
      rw [he]
      rfl
    simp [mayRenew, hk, hc, hst, hok.1.1, hok.1.2, hemail]
  · cases hk

theorem renewRow_of_eligible (hmail : t.isMailable n.contact_id n.account_id = true)
    (hk : (t.consentToRenew n).isSome) : t.renewRow now r n = (t.renewal now r n, true) := by
  obtain ⟨k, hk⟩ := Option.isSome_iff_exists.mp hk
  have hmay := mayRenew_of_read hmail hk
  unfold renewRow
  rw [if_pos hmail, hk]
  dsimp only
  unfold renewConsent
  rw [if_pos hmay, hmay]
  rfl

theorem renewRow_of_not (h : (t.isMailable n.contact_id n.account_id &&
    (t.consentToRenew n).isSome) = false) : t.renewRow now r n = (t, false) := by
  unfold renewRow
  split
  · next hmail =>
    rw [hmail, Bool.true_and, Option.isSome_eq_false_iff, Option.isNone_iff_eq_none] at h
    rw [h]
  · rfl

theorem notices_renewal_self (hn : t.notices[r]? = some n) :
    (t.renewal now r n).notices[r]? = some (n.renewedAt now) := getElem?_modify_self hn

theorem notices_renewal_other (hi : i ≠ r) : (t.renewal now r n).notices[i]? = t.notices[i]? :=
  getElem?_modify_other (Ne.symm hi)

theorem renewedAt_not_renewable : isRenewable now (n.renewedAt now) = false := by
  simp [isRenewable, Notice.renewedAt]

/-- The notice that was renewed is no longer found. -/
theorem renewable_renewal (hn : t.notices[r]? = some n) :
    (t.renewal now r n).renewable now = (t.renewable now).filter (· ≠ r) := by
  have hdue : ∀ i, (t.renewal now r n).noticeDue i = t.noticeDue i := by
    intro i
    unfold noticeDue
    by_cases hi : i = r
    · rw [hi, notices_renewal_self hn, hn]
      rfl
    · rw [notices_renewal_other hi]
  have hlength : (t.renewal now r n).notices.length = t.notices.length := List.length_modify ..
  have hfound : ∀ i, ((t.renewal now r n).notices[i]?).any (isRenewable now) =
      (decide (i ≠ r) && (t.notices[i]?).any (isRenewable now)) := by
    intro i
    by_cases hi : i = r
    · rw [hi, notices_renewal_self hn, Option.any_some, renewedAt_not_renewable]
      simp
    · rw [notices_renewal_other hi]
      simp [hi]
  have : IsTrans Nat fun i j => t.noticeDue i ≤ t.noticeDue j := ⟨fun _ _ _ => le_trans⟩
  have : Std.Total fun i j => t.noticeDue i ≤ t.noticeDue j := ⟨fun _ _ => le_total _ _⟩
  unfold renewable
  simp only [hdue, hlength, hfound]
  rw [filter_insertionSort, List.filter_filter]

theorem sameConsent_renewal (hn : t.notices[r]? = some n) (i j : Nat) :
    (t.renewal now r n).sameConsent i j = t.sameConsent i j := by
  have hid : ∀ i : Nat, ((t.renewal now r n).notices[i]?).map Notice.consent_id =
      (t.notices[i]?).map Notice.consent_id := by
    intro i
    by_cases hi : i = r
    · rw [hi, notices_renewal_self hn, hn]
      rfl
    · rw [notices_renewal_other hi]
  unfold sameConsent
  rw [hid i, hid j]

theorem le_deadline_renewed (due : Date) (k : ConsentRow) :
    due + consentMaxAgeMs ≤ (k.renewed due).deadline := by
  unfold ConsentRow.deadline consentDeadline Email.consentAnchor ConsentRow.renewed
  dsimp only
  split
  · exact le_rfl
  · next hlt => exact Int.add_le_add_right (Int.not_lt.mp hlt) _

/-- A renewed consent is of no cycle whose notice could renew it now. -/
theorem not_cycle_renewed {m : Notice} (hn : isRenewable now n = true)
    (hm : isRenewable now m = true) (k : ConsentRow) :
    sameConsentCycle (k.renewed n.due_at).deadline m.due_at = false := by
  have hlate := le_deadline_renewed n.due_at k
  simp only [isRenewable, Bool.and_eq_true, decide_eq_true_eq] at hn hm
  have hnlow := hn.2
  have hmhigh := hm.1.2
  simp only [sameConsentCycle, Bool.and_eq_false_iff, decide_eq_false_iff_not]
  left
  unfold consentMaxAgeMs at hlate
  unfold renewLookbackMs dayMs at hnlow
  unfold renewAheadMs at hmhigh
  unfold dayMs
  unfold Date at *
  omega

theorem consents_renewal_other {c : Nat} (hc : c ≠ n.consent_id) :
    (t.renewal now r n).consents[c]? = t.consents[c]? := getElem?_modify_other (Ne.symm hc)

/-- Who can be renewed after it: those of other consents. -/
theorem isEligible_renewal (hn : t.notices[r]? = some n) (hok : isRenewable now n = true)
    (i : Nat) :
    (t.renewal now r n).isEligible now i = (t.isEligible now i && !t.sameConsent i r) := by
  unfold isEligible
  by_cases hi : i = r
  · rw [hi, notices_renewal_self hn, Option.any_some, renewedAt_not_renewable]
    simp [sameConsent]
  rw [notices_renewal_other hi]
  cases hm : t.notices[i]? with
  | none => rfl
  | some m =>
    rw [Option.any_some, Option.any_some]
    have hsame : t.sameConsent i r = decide (m.consent_id = n.consent_id) := by
      unfold sameConsent
      rw [hm, hn]
      simp
    rw [hsame]
    by_cases hid : m.consent_id = n.consent_id
    · rw [decide_eq_true hid, Bool.not_true, Bool.and_false]
      by_cases hmok : isRenewable now m = true
      · have hnone : (t.renewal now r n).consentToRenew m = none := by
          unfold consentToRenew
          rw [Option.filter_eq_none_iff]
          intro k hk
          unfold consentForNotice at hk
          split at hk
          · obtain ⟨hk, -⟩ := noticeConsent_eq_some hk
            rw [hid] at hk
            rcases getElem?_modify_cases hk with ⟨-, k₀, -, rfl⟩ | ⟨hne, -⟩
            · exact Bool.eq_false_iff.mp (not_cycle_renewed hok hmok k₀)
            · exact absurd rfl hne
          · cases hk
        rw [hnone, Option.isSome_none, Bool.and_false]
      · rw [Bool.eq_false_iff.mpr hmok]
        rfl
    · have hconsent : (t.renewal now r n).consentToRenew m = t.consentToRenew m := by
        unfold consentToRenew consentForNotice noticeConsent
        rw [consents_renewal_other hid]
        rfl
      rw [hconsent, decide_eq_false hid, Bool.not_false, Bool.and_true]
      rfl

/-! ## A page -/

/-- A page, row by row. `done` is what the query has put before the rows: it cannot be renewed, and
    with the rows it fits a page. -/
theorem renewRows_spec (done rest : List Nat) (rows : List (Nat × Notice))
    (hC : t.renewable now = done ++ (rows.map Prod.fst ++ rest))
    (hdone : ∀ i ∈ done, t.isEligible now i = false)
    (hrows : ∀ x ∈ rows, t.notices[x.1]? = some x.2)
    (hlen : done.length + rows.length ≤ renewPageSize) :
    (PageHolds (renewRows now t rows).1 now ↔ PageHolds t now) ∧
      ((renewRows now t rows).1.renewable now).length + (renewRows now t rows).2 =
        (t.renewable now).length ∧
      ((renewRows now t rows).2 = 0 → (renewRows now t rows).1 = t ∧
        ∀ i ∈ done ++ rows.map Prod.fst, t.isEligible now i = false) := by
  induction rows generalizing t done with
  | nil => exact ⟨.rfl, rfl, fun _ => ⟨rfl, by simpa using hdone⟩⟩
  | cons x rows ih =>
    obtain ⟨r, n⟩ := x
    have hn : t.notices[r]? = some n := hrows (r, n) List.mem_cons_self
    have hCr : t.renewable now = done ++ r :: (rows.map Prod.fst ++ rest) := hC
    have hmem : r ∈ t.renewable now := by
      rw [hCr]
      exact List.mem_append_right _ List.mem_cons_self
    have hok : isRenewable now n = true := by
      obtain ⟨n', hn', hok⟩ := mem_renewable.mp hmem
      cases hn.symm.trans hn'
      exact hok
    have hnodup := nodup_renewable t now
    rw [hCr, List.nodup_append] at hnodup
    obtain ⟨-, htail, hdisjoint⟩ := hnodup
    have hnotdone : r ∉ done := fun hr => hdisjoint r hr r List.mem_cons_self rfl
    have hnottail : r ∉ rows.map Prod.fst ++ rest := (List.nodup_cons.mp htail).1
    have heligible : t.isEligible now r =
        (t.isMailable n.contact_id n.account_id && (t.consentToRenew n).isSome) := by
      unfold isEligible
      rw [hn, Option.any_some, hok, Bool.true_and]
    rw [List.length_cons] at hlen
    unfold renewRows
    cases hgood : t.isMailable n.contact_id n.account_id && (t.consentToRenew n).isSome with
    | true =>
      rw [hgood] at heligible
      obtain ⟨hmail, hk⟩ := Bool.and_eq_true_iff.mp hgood
      rw [renewRow_of_eligible hmail hk]
      have hC' : (t.renewal now r n).renewable now = done ++ (rows.map Prod.fst ++ rest) := by
        rw [renewable_renewal hn, hCr, List.filter_append, List.filter_cons_of_neg (by simp)]
        congr 1
        · exact List.filter_eq_self.mpr fun i hi => decide_eq_true fun hir => hnotdone (hir ▸ hi)
        · exact List.filter_eq_self.mpr fun i hi => decide_eq_true fun hir => hnottail (hir ▸ hi)
      obtain ⟨hholds, hlength, -⟩ := ih (t := t.renewal now r n) done hC'
        (fun i hi => by rw [isEligible_renewal hn hok, hdone i hi, Bool.false_and])
        (fun x hx => by
          have hx' : x.1 ≠ r := fun hxr =>
            hnottail (List.mem_append_left _ (hxr ▸ List.mem_map_of_mem hx))
          rw [notices_renewal_other hx']
          exact hrows x (List.mem_cons_of_mem _ hx))
        (by omega)
      have hbefore : t.before now r = done := by
        unfold before
        rw [hCr, upTo_append_cons hnotdone]
      refine ⟨hholds.trans (pageHolds_renew (renewable_renewal hn) (isEligible_renewal hn hok)
        (sameConsent_renewal hn) heligible ?_ ?_), ?_, fun hzero => ?_⟩
      · rw [hbefore]
        exact hdone
      · rw [hbefore]
        omega
      · dsimp only
        rw [if_pos rfl, ← Nat.add_assoc, hlength, hC', hCr]
        simp only [List.length_append, List.length_cons]
        omega
      · dsimp only at hzero
        rw [if_pos rfl] at hzero
        omega
    | false =>
      rw [hgood] at heligible
      rw [renewRow_of_not hgood]
      obtain ⟨hholds, hlength, hnone⟩ := ih (t := t) (done ++ [r])
        (by rw [hCr, List.append_assoc]; rfl)
        (fun i hi => by
          rcases List.mem_append.mp hi with hi | hi
          · exact hdone i hi
          · rw [List.mem_singleton.mp hi]
            exact heligible)
        (fun x hx => hrows x (List.mem_cons_of_mem _ hx))
        (by rw [List.length_append, List.length_singleton]; omega)
      refine ⟨hholds, hlength, fun hzero => ?_⟩
      obtain ⟨hsame, hall⟩ := hnone hzero
      refine ⟨hsame, fun i hi => hall i ?_⟩
      rw [List.append_assoc]
      exact hi

theorem renewPage_places (t : ConsentStore) (now : Date) :
    (t.renewPage now).map Prod.fst = (t.renewable now).take renewPageSize := by
  have hall : ∀ i ∈ (t.renewable now).take renewPageSize, ∃ n, t.notices[i]? = some n := by
    intro i hi
    obtain ⟨n, hn, -⟩ := mem_renewable.mp (List.mem_of_mem_take hi)
    exact ⟨n, hn⟩
  unfold renewPage
  generalize (t.renewable now).take renewPageSize = page at hall ⊢
  induction page with
  | nil => rfl
  | cons i page ih =>
    obtain ⟨⟨n, hn⟩, hrest⟩ := List.forall_mem_cons.mp hall
    rw [List.filterMap_cons_some (by rw [hn]; rfl), List.map_cons, ih hrest]

theorem renewPage_rows {x : Nat × Notice} (hx : x ∈ t.renewPage now) :
    t.notices[x.1]? = some x.2 := by
  obtain ⟨i, -, hx⟩ := List.mem_filterMap.mp hx
  obtain ⟨n, hn, rfl⟩ := Option.map_eq_some_iff.mp hx
  exact hn

theorem renewDue_spec (t : ConsentStore) (now : Date) :
    (PageHolds (t.renewDue now).1 now ↔ PageHolds t now) ∧
      ((t.renewDue now).1.renewable now).length + (t.renewDue now).2 = (t.renewable now).length ∧
      ((t.renewDue now).2 = 0 → ∀ i ∈ (t.renewable now).take renewPageSize,
        t.isEligible now i = false) := by
  have hplaces := renewPage_places t now
  have hlength : (t.renewPage now).length ≤ renewPageSize := by
    rw [← List.length_map (f := Prod.fst), hplaces]
    exact List.length_take_le ..
  obtain ⟨hholds, hleft, hnone⟩ := renewRows_spec (t := t) []
    ((t.renewable now).drop renewPageSize) (t.renewPage now)
    (by rw [hplaces, List.take_append_drop]; rfl) (fun i hi => nomatch hi)
    (fun x hx => renewPage_rows hx) (by simpa using hlength)
  refine ⟨hholds, hleft, fun hzero i hi => (hnone hzero).2 i ?_⟩
  rw [List.nil_append, hplaces]
  exact hi

/-! ## Any number of pages -/

/-- Where a page renews nothing, nothing is left just if the page holds. -/
theorem none_left_iff (hzero : (t.renewDue now).2 = 0) :
    (∀ i, t.isEligible now i = false) ↔ PageHolds t now := by
  constructor
  · intro hnone i _ halive
    unfold isAlive at halive
    rw [hnone i] at halive
    cases halive
  · intro hholds i
    by_contra hne
    have hi : t.isEligible now i = true := Bool.eq_true_of_not_eq_false hne
    -- The first of all that can be renewed has only others before it, and so is on the page.
    obtain ⟨e, hfind⟩ : ∃ e, (t.renewable now).find? (t.isEligible now) = some e := by
      rw [← Option.isSome_iff_exists, List.find?_isSome]
      exact ⟨i, mem_renewable_of_eligible hi, hi⟩
    obtain ⟨he, pre, post, hC, hpre⟩ := List.find?_eq_some_iff_append.mp hfind
    have hnodup := nodup_renewable t now
    rw [hC, List.nodup_append] at hnodup
    have hbefore : t.before now e = pre := by
      unfold before
      rw [hC]
      exact upTo_append_cons fun hmem => hnodup.2.2 e hmem e List.mem_cons_self rfl
    have hdead : ∀ j ∈ pre, t.isEligible now j = false := fun j hj => by simpa using hpre j hj
    have halive : t.isAlive now e = true := by
      unfold isAlive
      rw [he, Bool.true_and, hbefore, List.all_eq_true]
      intro j hj
      rw [hdead j hj]
      rfl
    have hshort := hholds e (mem_renewable_of_eligible he) halive
    rw [hbefore, List.filter_eq_self.mpr] at hshort
    · have hpage : e ∈ (t.renewable now).take renewPageSize := by
        rw [hC, List.take_append, List.mem_append]
        right
        obtain ⟨m, hm⟩ : ∃ m, renewPageSize - pre.length = m + 1 :=
          ⟨renewPageSize - pre.length - 1, by omega⟩
        rw [hm, List.take_succ_cons]
        exact List.mem_cons_self
      rw [(renewDue_spec t now).2.2 hzero e hpage] at he
      cases he
    · intro j hj
      unfold isAlive
      rw [hdead j hj]
      rfl

/-- The tables after a page. -/
def renewStep (now : Date) (t : ConsentStore) : ConsentStore := (t.renewDue now).1

theorem pageHolds_iterate (t : ConsentStore) (now : Date) (m : Nat) :
    PageHolds ((renewStep now)^[m] t) now ↔ PageHolds t now := by
  induction m generalizing t with
  | zero => exact .rfl
  | succ m ih =>
    rw [Function.iterate_succ_apply]
    exact (ih _).trans (renewDue_spec t now).1

/-- It comes to an end: each page that renews something leaves fewer notices to be found. -/
theorem exists_renewed (t : ConsentStore) (now : Date) :
    ∃ m, (((renewStep now)^[m] t).renewDue now).2 = 0 := by
  induction hlen : (t.renewable now).length using Nat.strongRecOn generalizing t with
  | ind len ih =>
    by_cases hzero : (t.renewDue now).2 = 0
    · exact ⟨0, hzero⟩
    · have hlt : ((renewStep now t).renewable now).length < len := by
        have := (renewDue_spec t now).2.1
        unfold renewStep
        omega
      obtain ⟨m, hm⟩ := ih _ hlt (renewStep now t) rfl
      exact ⟨m + 1, hm⟩

/-- Repeated until it renews nothing, `renewDue` leaves nothing just if its page holds. -/
theorem renewDue_leaves_none {m : Nat} (hzero : (((renewStep now)^[m] t).renewDue now).2 = 0) :
    (∀ i, ((renewStep now)^[m] t).isEligible now i = false) ↔ PageHolds t now :=
  (none_left_iff hzero).trans (pageHolds_iterate t now m)

end ConsentStore

open ConsentStore ConsentState

/-! ## The call of `renewDue` -/

variable {w : ConsentWorld} {start : ConsentStore → Prop} {s s' : ConsentState} {k : Nat}

theorem calls_setCall {c : ConsentCall} (hk : s.calls[k]? = some c) (c' : ConsentCall) :
    (s.setCall k c').calls[k]? = some c' :=
  getElem?_set_self hk

/-- The statement of a call is a step of the server. -/
theorem step_next (w : ConsentWorld) (start : ConsentStore → Prop) {c : ConsentCall}
    (hk : s.calls[k]? = some c) (hnext : s.callNext w k "" c = some s') :
    (consentSystem w start).step s (.next k "") s' := by
  unfold consentSystem ConsentAction.run
  dsimp only
  rw [hk, Option.bind_some, hnext]

variable {rows : List (Nat × Notice)}

/-- The statements of a call for one row come to `renewRow`. -/
theorem renewRow_path (w : ConsentWorld) (start : ConsentStore → Prop) {now : Date} {place : Nat}
    {n : Notice} (hk : s.calls[k]? = some (.renewRow now ((place, n) :: rows))) :
    ∃ m t, (consentSystem w start).Path s (List.replicate m (.next k "")) t ∧
      t.store = (s.store.renewRow now place n).1 ∧ t.calls[k]? = some (.renewRow now rows) := by
  have hstep := step_next w start hk rfl
  unfold ConsentStore.renewRow
  by_cases hmail : s.store.isMailable n.contact_id n.account_id = true
  · rw [if_pos hmail] at hstep ⊢
    have hk₁ := calls_setCall hk (.renewReading now place n rows)
    have hstep₁ := step_next w start hk₁ rfl
    cases hrow : s.store.consentToRenew n with
    | none =>
      have hrow' : (s.setCall k (.renewReading now place n rows)).store.consentToRenew n = none :=
        hrow
      rw [hrow'] at hstep₁
      exact ⟨2, _, .snoc (.snoc (.nil s) hstep) hstep₁, rfl, calls_setCall hk₁ _⟩
    | some read =>
      have hrow' : (s.setCall k (.renewReading now place n rows)).store.consentToRenew n =
        some read := hrow
      rw [hrow'] at hstep₁
      have hk₂ := calls_setCall hk₁ (.renewSaving now place n read rows)
      have hstep₂ := step_next w start hk₂ rfl
      have hk₃ := calls_setCall (s := ((s.setCall k (.renewReading now place n rows)).setCall k
        (.renewSaving now place n read rows)).commit (s.store.renewConsent n read)
          (.renewed place n ((s.store.notices[place]?).bind (·.bounce_type)))) hk₂
        (.renewMarking now place rows)
      have hstep₃ := step_next w start hk₃ rfl
      exact ⟨4, _, .snoc (.snoc (.snoc (.snoc (.nil s) hstep) hstep₁) hstep₂) hstep₃, rfl,
        calls_setCall (s := (ConsentState.setCall _ k (.renewMarking now place rows)).commit _ _)
          hk₃ _⟩
  · rw [if_neg hmail] at hstep ⊢
    exact ⟨1, _, .snoc (.nil s) hstep, rfl, calls_setCall hk _⟩

/-- The statements of a call, and nothing else, come to `renewRows` and end the call. -/
theorem renewRows_path {now : Date} (hk : s.calls[k]? = some (.renewRow now rows)) :
    ∃ m t, (consentSystem w start).Path s (List.replicate m (.next k "")) t ∧
      t.store = (renewRows now s.store rows).1 ∧ t.calls[k]? = some .ended := by
  induction rows generalizing s with
  | nil =>
    have hstep := step_next w start hk rfl
    exact ⟨1, _, .snoc (.nil s) hstep, rfl, calls_setCall hk _⟩
  | cons row rows ih =>
    obtain ⟨m, t, hpath, hstore, hk'⟩ := renewRow_path w start hk
    obtain ⟨m', u, hpath', hstore', hended⟩ := ih hk'
    refine ⟨m + m', u, ?_, ?_, hended⟩
    · rw [← List.replicate_append_replicate]
      exact hpath.append hpath'
    · rw [hstore', hstore]
      rfl

/-! ## A notice that bounces while it is renewed -/

def dayMsNat : Nat := 86400000

/-- Ann has given a consent, for a brand that sends notices 30 days ahead. -/
def annStore : ConsentStore where
  contacts := [{ consent_at := 0, consent_method := "form", consent_source := "site"
                 account_id := "a", email := some "ann@example.com", email_hash := "h"
                 legacy_consent_migrated := true, unsubscribe_token := "t1" }]
  consents := [{ consent_at := 0, consent_method := "form", consent_source := "site"
                 account_id := "a", contact_id := 0, brand_id := "b", unsubscribe_token := "t2" }]
  brands := [("b", "a")]
  settings := fun a => if a = "a" then
    some { enabled := true, lead_days := 30, on_no_response := .keep, version := 1 } else none

def annStart : ConsentState where
  clock := 0
  store := annStore
  moves := deadlineMoves {} annStore .migrated

/-- Her notice is planned and sent, and its time comes. -/
def annNotified : List ConsentAction :=
  .tick (709 * dayMsNat) :: .request (.planAccount "a") :: List.replicate 6 (.next 0 "n1") ++
    .request (.processQueue 0) :: List.replicate 8 (.next 1 "") ++
    [.picked 1 .picked, .returned 1 (.sent "m1"), .next 1 "", .next 1 "",
      .tick (20 * dayMsNat), .request .renewDue, .next 2 "", .next 2 "", .next 2 ""]

/-- The consents that were renewed, with the bounce of the notice. -/
def renewals (s : ConsentState) : List (Option BounceType) :=
  s.moves.filterMap fun m => match m.cause with
    | .renewed _ _ bounce => some bounce
    | _ => none

theorem annStart_init : (consentSystem plainWorld SettingsInRange).init annStart := by
  refine ⟨fun accountId v hv => ?_, rfl, rfl, rfl, rfl⟩
  have hv : (if accountId = "a" then some _ else none) = some v := hv
  split at hv
  · cases hv
    decide
  · cases hv

theorem exists_ann_run (C : ConsentState → ConsentAction → Bool) (actions : List ConsentAction)
    (q : ConsentState → Bool)
    (h : (Transition.runChecked (ConsentAction.run plainWorld) C annStart actions).any q = true) :
    ∃ s, ((consentSystem plainWorld SettingsInRange).restrict
        fun s a _ => C s a = true).Reachable s ∧
      q s = true :=
  Transition.exists_reachable_checked (M := consentSystem plainWorld SettingsInRange)
    (fun _ _ _ h => h) annStart_init actions q h

/-! ## A page of notices that cannot be renewed -/

def deadlineOfAnn : Date := consentMaxAgeMs

def givenAt0 : Evidence where
  consent_at := 0
  consent_method := "form"
  consent_source := "site"

/-- One of those who have withdrawn after their notice was sent. -/
def lostContact (i : Nat) : ContactRow :=
  { givenAt0 with
    account_id := "a", email := some (toString i), email_hash := toString i, status := .unsubscribed
    unsubscribe_token := toString i }

def sentNotice (i : Nat) (due : Date) : Notice where
  account_id := "a"
  contact_id := i
  brand_id := "b"
  consent_id := i
  due_at := due
  status := .sent
  policy := some .keep
  next_attempt_at := 0
  token := toString i
  updated_at := 0

/-- Ann's notice is due behind those of 500 who have withdrawn. -/
def crowdedStore : ConsentStore where
  contacts := (List.range 500).map lostContact ++ annStore.contacts
  consents := (List.range 500).map (fun i =>
      { givenAt0 with
        account_id := "a", contact_id := i, brand_id := "b", unsubscribe_token := toString i }) ++
    [{ givenAt0 with
       account_id := "a", contact_id := 500, brand_id := "b", unsubscribe_token := "t2" }]
  notices := (List.range 500).map (fun i => sentNotice i (deadlineOfAnn - 1)) ++
    [sentNotice 500 deadlineOfAnn]
  brands := [("b", "a")]

theorem crowded_notice {i : Nat} (hi : i < 500) :
    crowdedStore.notices[i]? = some (sentNotice i (deadlineOfAnn - 1)) := by
  unfold crowdedStore
  rw [List.getElem?_append_left (by simpa using hi), List.getElem?_map, List.getElem?_range hi]
  rfl

theorem crowded_last : crowdedStore.notices[500]? = some (sentNotice 500 deadlineOfAnn) := by
  decide +kernel

theorem crowded_lost {i : Nat} (hi : i < 500) (now : Date) :
    crowdedStore.isEligible now i = false := by
  have hcontact : crowdedStore.contacts[i]? = some (lostContact i) := by
    unfold crowdedStore
    rw [List.getElem?_append_left (by simpa using hi), List.getElem?_map, List.getElem?_range hi]
    rfl
  have hmail : crowdedStore.isMailable i "a" = false := by
    unfold isMailable
    rw [hcontact]
    rfl
  unfold isEligible
  rw [crowded_notice hi, Option.any_some]
  unfold sentNotice
  dsimp only
  rw [hmail, Bool.and_false, Bool.false_and]

theorem crowded_renewable : crowdedStore.renewable deadlineOfAnn = List.range 501 := by
  have hdue : ∀ i, i < 500 → crowdedStore.noticeDue i = deadlineOfAnn - 1 := by
    intro i hi
    unfold noticeDue
    rw [crowded_notice hi]
    rfl
  have hlast : crowdedStore.noticeDue 500 = deadlineOfAnn := by
    unfold noticeDue
    rw [crowded_last]
    rfl
  have hfound : (List.range crowdedStore.notices.length).filter
      (fun i => (crowdedStore.notices[i]?).any (isRenewable deadlineOfAnn)) = List.range 501 := by
    have hlength : crowdedStore.notices.length = 501 := by
      unfold crowdedStore
      rw [List.length_append, List.length_map, List.length_range]
      rfl
    rw [hlength, List.filter_eq_self]
    intro i hi
    have hi := List.mem_range.mp hi
    by_cases hlt : i < 500
    · rw [crowded_notice hlt]
      rfl
    · rw [show i = 500 by omega, crowded_last]
      rfl
  unfold renewable
  rw [hfound]
  refine List.Pairwise.insertionSort_eq ?_
  rw [List.range_succ, List.pairwise_append]
  refine ⟨?_, List.pairwise_singleton _ _, fun i hi j hj => ?_⟩
  · refine List.Pairwise.imp_of_mem (fun {i j} hi hj _ => ?_) (List.pairwise_lt_range (n := 500))
    rw [hdue i (List.mem_range.mp hi), hdue j (List.mem_range.mp hj)]
  · rw [List.mem_singleton.mp hj, hdue i (List.mem_range.mp hi), hlast]
    unfold Date
    omega

theorem crowded_not_holds : ¬PageHolds crowdedStore deadlineOfAnn := by
  intro hholds
  have hbefore : crowdedStore.before deadlineOfAnn 500 = List.range 500 := by
    unfold before
    rw [crowded_renewable, List.range_succ]
    exact upTo_append_cons fun h => absurd (List.mem_range.mp h) (by decide)
  have halive : crowdedStore.isAlive deadlineOfAnn 500 = true := by
    unfold isAlive
    rw [hbefore, Bool.and_eq_true, List.all_eq_true]
    refine ⟨by decide +kernel, fun j hj => ?_⟩
    rw [crowded_lost (List.mem_range.mp hj)]
    rfl
  have hmem : 500 ∈ crowdedStore.renewable deadlineOfAnn := by
    rw [crowded_renewable]
    exact List.mem_range.mpr (by decide)
  have hshort := hholds 500 hmem halive
  rw [hbefore, List.filter_eq_self.mpr] at hshort
  · rw [List.length_range] at hshort
    exact absurd hshort (by decide)
  · intro j hj
    unfold isAlive
    rw [crowded_lost (List.mem_range.mp hj)]
    rfl

/-! ## Both together -/

/-- Along every run of steps by right, deadlines are moved by right; and repeating `renewDue` until
    it renews nothing comes to an end and leaves nothing it could renew just if its page holds. -/
theorem periods_extended (w : ConsentWorld) :
    (∀ s, ((consentSystem w SettingsInRange).restrict fun s a _ => byRight s a = true).Reachable s →
      ExtendedByRight s) ∧
    ∀ (t : ConsentStore) (now : Date),
      (∃ m, (((renewStep now)^[m] t).renewDue now).2 = 0) ∧
      ∀ m, (((renewStep now)^[m] t).renewDue now).2 = 0 →
        ((∀ i, ((renewStep now)^[m] t).isEligible now i = false) ↔ PageHolds t now) :=
  ⟨fun _ hs => extended_of_byRight hs,
    fun t now => ⟨exists_renewed t now, fun _ hzero => renewDue_leaves_none hzero⟩⟩

/-- Ann's consent is renewed when its time comes; and with her notice alone none is left. -/
theorem periods_extended_small :
    (∃ s, renewals s = [none] ∧ ExtendedByRight s) ∧
    ∃ m, ∀ i, ((renewStep deadlineOfAnn)^[m]
      { annStore with notices := [sentNotice 0 deadlineOfAnn] }).isEligible deadlineOfAnn i =
        false := by
  obtain ⟨hruns, hpages⟩ := periods_extended plainWorld
  obtain ⟨s, hs, hrenewed⟩ := exists_ann_run byRight (annNotified ++ [.next 2 ""])
    (fun s => renewals s = [none]) (by decide +kernel)
  obtain ⟨⟨m, hm⟩, hall⟩ :=
    hpages { annStore with notices := [sentNotice 0 deadlineOfAnn] } deadlineOfAnn
  exact ⟨⟨s, of_decide_eq_true hrenewed, hruns s hs⟩, m,
    (hall m hm).mpr (pageHolds_of_length (by decide +kernel))⟩

/-- A bounce that comes between the page and the update renews all the same, and 500 notices that
    cannot be renewed keep `renewDue` from the one behind them. -/
theorem renewed_though_bounced :
    (¬∀ s, ((consentSystem plainWorld SettingsInRange).restrict
        fun s a _ => (noImport a && timely s a) = true).Reachable s → ExtendedByRight s) ∧
    ¬∀ (t : ConsentStore) (now : Date) (m : Nat),
      (((renewStep now)^[m] t).renewDue now).2 = 0 →
        ∀ i, ((renewStep now)^[m] t).isEligible now i = false := by
  refine ⟨fun hall => ?_, fun hall => ?_⟩
  · obtain ⟨s, hs, hrenewed⟩ := exists_ann_run (fun s a => noImport a && timely s a)
      (annNotified ++ [.bounce 0 .soft, .next 2 ""]) (fun s => renewals s = [some .soft])
      (by decide +kernel)
    have hmem : some .soft ∈ renewals s := by
      rw [of_decide_eq_true hrenewed]
      exact List.mem_singleton.mpr rfl
    obtain ⟨m, hm, hcause⟩ := List.mem_filterMap.mp hmem
    have hlawful := (hall s hs).lawful m hm
    unfold Lawful at hlawful
    split at hcause
    · next place n bounce hm =>
      cases hcause
      rw [hm] at hlawful
      obtain ⟨-, -, -, -, -, -, -, -, hnone⟩ := hlawful
      cases hnone
    · cases hcause
  · obtain ⟨m, hm⟩ := exists_renewed crowdedStore deadlineOfAnn
    exact crowded_not_holds ((renewDue_leaves_none hm).mp (hall crowdedStore deadlineOfAnn m hm))

/-- A page of two notices of contacts who have withdrawn, and Ann's between them, which is
    renewed. -/
theorem renewRows_path_ann :
    (crowdedStore.renewRow deadlineOfAnn 500 (sentNotice 500 deadlineOfAnn)).2 = true ∧
    ∃ m t, (consentSystem plainWorld SettingsInRange).Path { annStart with
        store := crowdedStore
        calls := [.renewRow deadlineOfAnn [(0, sentNotice 0 (deadlineOfAnn - 1)),
          (500, sentNotice 500 deadlineOfAnn), (1, sentNotice 1 (deadlineOfAnn - 1))]] }
        (List.replicate m (.next 0 "")) t ∧
      t.store = (renewRows deadlineOfAnn crowdedStore [(0, sentNotice 0 (deadlineOfAnn - 1)),
        (500, sentNotice 500 deadlineOfAnn), (1, sentNotice 1 (deadlineOfAnn - 1))]).1 ∧
      t.calls[0]? = some .ended :=
  ⟨by decide +kernel, renewRows_path rfl⟩

end WorkflowBoard.Consents
