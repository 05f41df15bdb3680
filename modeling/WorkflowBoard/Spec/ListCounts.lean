import WorkflowBoard.ForStd.List
import WorkflowBoard.Native.ListHolds

/-!
# The counts of a list

Which times count the same mails, what a change of one row does to the counts, and the reasons to
hold a list as inequalities.
-/

namespace WorkflowBoard.MailEvents

open Email (SendStatus)
open Consents (BounceType)

/-! ## Windows -/

/-- From `start` on, the two times count the same mails. -/
def SameWindow (start since since' : Date) : Prop := ∀ t, start ≤ t → (since ≤ t ↔ since' ≤ t)

theorem SameWindow.refl (start since : Date) : SameWindow start since since := fun _ _ => Iff.rfl

theorem SameWindow.trans {start a b c : Date} (h : SameWindow start a b)
    (h' : SameWindow start b c) : SameWindow start a c := fun t ht => (h t ht).trans (h' t ht)

theorem countedSince_le_iff {start now t : Date} (hnow : now ≤ start + complaintWindowMs)
    (ht : start ≤ t) (released : Option Date) :
    countedSince released now ≤ t ↔ ∀ r, released = some r → r ≤ t := by
  cases released with
  | none =>
    simp only [countedSince, reduceCtorEq, false_implies, implies_true, iff_true]
    unfold Date at *
    omega
  | some r =>
    simp only [countedSince, Option.some.injEq, forall_eq']
    split
    next => exact Iff.rfl
    next hr =>
      unfold Date at *
      omega

theorem countedSince_sameWindow {start now now' : Date} (h : now ≤ start + complaintWindowMs)
    (h' : now' ≤ start + complaintWindowMs) (released : Option Date) :
    SameWindow start (countedSince released now) (countedSince released now') := fun _ ht =>
  (countedSince_le_iff h ht released).trans (countedSince_le_iff h' ht released).symm

/-! ## Counts -/

section Stats

variable {sends : List SendRow} {channels : List ChannelRow} {accountId listName : String}
  {since : Date} {i : Nat} {r r' : SendRow}

/-- All mails were sent in the window. -/
def SentFrom (start : Date) (sends : List SendRow) : Prop :=
  ∀ r ∈ sends, r.status = .sent → ∀ t, r.sent_at = some t → start ≤ t

theorem countedIn_sameWindow {start since' : Date} (hw : SameWindow start since since')
    (hr : r.status = .sent → ∀ t, r.sent_at = some t → start ≤ t) :
    r.countedIn channels accountId listName since =
      r.countedIn channels accountId listName since' := by
  unfold SendRow.countedIn
  by_cases hs : r.status = .sent
  · congr 1
    cases hat : r.sent_at with
    | none => rfl
    | some t =>
      simp only [Option.any_some]
      exact decide_eq_decide.mpr (hw t (hr hs t hat))
  · simp [hs]

theorem listStats_sameWindow {start since' : Date} (hs : SentFrom start sends)
    (hw : SameWindow start since since') :
    listStats sends channels accountId listName since =
      listStats sends channels accountId listName since' := by
  have hc : ∀ r ∈ sends, r.countedIn channels accountId listName since =
      r.countedIn channels accountId listName since' := fun r hr =>
    countedIn_sameWindow hw (hs r hr)
  unfold listStats countSent countBounced countComplained countHardBounced
  congr 1
  all_goals exact List.countP_congr fun r hr => by rw [hc r hr]

theorem countedIn_eq_false_of_status (h : r.status ≠ .sent) :
    r.countedIn channels accountId listName since = false := by
  simp [SendRow.countedIn, h]

/-- A row that is not counted may become another such row. -/
theorem listStats_set_uncounted (hi : sends[i]? = some r)
    (hr : r.countedIn channels accountId listName since = false)
    (hr' : r'.countedIn channels accountId listName since = false) :
    listStats (sends.set i r') channels accountId listName since =
      listStats sends channels accountId listName since := by
  have hcount : ∀ p : SendRow → Bool, p r = false → p r' = false →
      (sends.set i r').countP p = sends.countP p := fun p hp hp' => by
    have := countP_set_add (b := r') hi p
    rw [hp, hp'] at this
    simpa using this
  unfold listStats countSent countBounced countComplained countHardBounced
  rw [hcount _ hr hr', hcount _ (by simp [hr]) (by simp [hr']), hcount _ (by simp [hr])
    (by simp [hr']), hcount _ (by simp [hr]) (by simp [hr'])]

/-- Nothing has come back on the mail yet. -/
def SendRow.unmarked (r : SendRow) : Bool :=
  r.bounced_at = none && r.complained_at = none && r.bounce_type ≠ some .hard

variable (channels accountId listName since) in
/-- A mail without a bounce or a complaint only adds to the mails sent. -/
theorem listStats_set_unmarked (hi : sends[i]? = some r)
    (hr : r.countedIn channels accountId listName since = false) (hr' : r'.unmarked = true) :
    ∃ n, listStats (sends.set i r') channels accountId listName since =
      { listStats sends channels accountId listName since with
        sent := (listStats sends channels accountId listName since).sent + n } := by
  simp only [SendRow.unmarked, Bool.and_eq_true, decide_eq_true_eq] at hr'
  have hcount : ∀ p : SendRow → Bool, p r = false → p r' = false →
      (sends.set i r').countP p = sends.countP p := fun p hp hp' => by
    have := countP_set_add (b := r') hi p
    rw [hp, hp'] at this
    simpa using this
  have hsent := countP_set_add (b := r') hi (·.countedIn channels accountId listName since)
  rw [hr] at hsent
  refine ⟨if r'.countedIn channels accountId listName since = true then 1 else 0, ?_⟩
  simp only [listStats, ListMailStats.mk.injEq]
  refine ⟨by simpa [countSent] using hsent, ?_, ?_, ?_⟩
  · exact hcount _ (by simp [hr]) (by simp [hr'.1.1])
  · exact hcount _ (by simp [hr]) (by simp [hr'.1.2])
  · exact hcount _ (by simp [hr]) (by simp [hr'.2])

theorem listStats_append_uncounted (hr : r.countedIn channels accountId listName since = false) :
    listStats (sends ++ [r]) channels accountId listName since =
      listStats sends channels accountId listName since := by
  unfold listStats countSent countBounced countComplained countHardBounced
  simp [List.countP_append, hr]

theorem complained_le_sent :
    (listStats sends channels accountId listName since).complained ≤
      (listStats sends channels accountId listName since).sent :=
  List.countP_mono_left fun _ _ h => (Bool.and_eq_true_iff.mp h).1

theorem hard_bounced_le_sent :
    (listStats sends channels accountId listName since).hard_bounced ≤
      (listStats sends channels accountId listName since).sent :=
  List.countP_mono_left fun _ _ h => (Bool.and_eq_true_iff.mp h).1

end Stats

variable {c : ListMailStats}

theorem complaintRateReached_iff (hmin : complaintHoldMin ≤ c.complained) :
    c.complaintRateReached = true ↔ 3 * c.delivered ≤ 1000 * c.complained := by
  unfold complaintHoldMin at hmin
  unfold ListMailStats.complaintRateReached
  split
  next hd =>
    rw [hd]
    exact ⟨fun _ => by omega, fun _ => decide_eq_true (by omega)⟩
  next => exact decide_eq_true_iff

theorem hardBounceRateReached_iff :
    c.hardBounceRateReached = true ↔ 0 < c.sent ∧ c.sent ≤ 20 * c.hard_bounced := by
  simp [ListMailStats.hardBounceRateReached]

theorem listHoldReason_isSome_iff : (listHoldReason c).isSome = true ↔
      (2 ≤ c.complained ∧ 3 * (c.sent - c.bounced) ≤ 1000 * c.complained) ∨
        (2 ≤ c.hard_bounced ∧ 0 < c.sent ∧ c.sent ≤ 20 * c.hard_bounced) := by
  unfold listHoldReason
  split
  next h => exact ⟨fun _ => .inl ⟨h.1, (complaintRateReached_iff h.1).mp h.2⟩, fun _ => rfl⟩
  next hc =>
    split
    next h => exact ⟨fun _ => .inr ⟨h.1, hardBounceRateReached_iff.mp h.2⟩, fun _ => rfl⟩
    next hb =>
      refine ⟨nofun, fun h => ?_⟩
      rcases h with h | h
      · exact absurd ⟨h.1, (complaintRateReached_iff h.1).mpr h.2⟩ hc
      · exact absurd ⟨h.1, hardBounceRateReached_iff.mpr h.2⟩ hb

/-- Counts with fewer mails sent, but otherwise the same, meet a reason as well. -/
theorem listHoldReason_mono {c c' : ListMailStats} (h : (listHoldReason c).isSome = true)
    (hsent : c'.sent ≤ c.sent) (hpos : 0 < c'.sent) (hbounced : c'.bounced = c.bounced)
    (hcomplained : c'.complained = c.complained) (hhard : c'.hard_bounced = c.hard_bounced) :
    (listHoldReason c').isSome = true := by
  rw [listHoldReason_isSome_iff] at h ⊢
  omega

end WorkflowBoard.MailEvents
