import WorkflowBoard.ForStd.List
import WorkflowBoard.Native.RestartResume

/-!
# Interrupted work is kept until it is delivered

What a write adds is in the file until a delivery that contains it is answered, or until its own
time is up. This holds in every run in which a delivery is answered before other work is written,
and a record is delivered before the time of its first write is up. `answer` removes the file
whatever it holds by then, and a merged record keeps the time of its first write: without the
conditions work is lost.
-/

namespace WorkflowBoard

/-! ## `slice` -/

theorem sliceText_go_go (n : Nat) (cs : List Char) :
    sliceText.go n (sliceText.go n cs) = sliceText.go n cs := by
  induction cs generalizing n with
  | nil => rfl
  | cons c cs ih =>
    by_cases hc : utf16Width c ≤ n
    · simp [sliceText.go, hc, ih]
    · simp [sliceText.go, hc]

@[simp] theorem sliceText_sliceText (n : Nat) (s : String) :
    sliceText n (sliceText n s) = sliceText n s := by
  simp [sliceText, sliceText_go_go]

theorem utf16Width_le (c : Char) : utf16Width c ≤ 2 := by
  unfold utf16Width
  split <;> omega

theorem sliceText_ne_empty {n : Nat} (hn : 2 ≤ n) {s : String} (hs : s ≠ "") :
    sliceText n s ≠ "" := by
  intro h
  cases hcs : s.toList with
  | nil => exact hs (String.toList_eq_nil_iff.mp hcs)
  | cons c cs =>
    have hc : utf16Width c ≤ n := (utf16Width_le c).trans hn
    simp [sliceText, hcs, sliceText.go, hc] at h

theorem ne_empty_of_sliceText {n : Nat} {s : String} (h : sliceText n s ≠ "") : s ≠ "" := by
  rintro rfl
  exact h rfl

namespace AgentManager

/-! ## Reading what was written -/

section UniqueBy

variable {α : Type*} {key : α → String} {k : String} {l : List α} {a : α}

theorem uniqueBy_cases (acc : List α) :
    (∀ a ∈ l.foldl (fun seen item =>
        if seen.any fun other => key other = key item then seen else seen ++ [item]) acc,
      a ∈ acc ∨ a ∈ l) ∧
    ∀ k, (k ∈ acc.map key ∨ k ∈ l.map key) → k ∈ (l.foldl (fun seen item =>
        if seen.any fun other => key other = key item then seen
        else seen ++ [item]) acc).map key := by
  induction l generalizing acc with
  | nil => simp
  | cons x l ih =>
    simp only [List.foldl_cons]
    split
    · rename_i hseen
      obtain ⟨hsub, hkeys⟩ := ih acc
      refine ⟨fun a ha => (hsub a ha).imp_right (List.mem_cons_of_mem _), fun k hk => ?_⟩
      obtain ⟨other, hother, hsame⟩ := List.any_eq_true.mp hseen
      simp only [decide_eq_true_eq] at hsame
      obtain hk | hk := hk
      · exact hkeys k (.inl hk)
      · obtain rfl | hk := List.mem_cons.mp hk
        · exact hkeys _ (.inl (hsame ▸ List.mem_map_of_mem hother))
        · exact hkeys k (.inr hk)
    · obtain ⟨hsub, hkeys⟩ := ih (acc ++ [x])
      refine ⟨fun a ha => ?_, fun k hk => hkeys k ?_⟩
      · have := hsub a ha
        simp only [List.mem_append, List.mem_cons] at this ⊢
        tauto
      · simp only [List.map_append, List.map_cons, List.map_nil, List.mem_append,
          List.mem_cons] at hk ⊢
        tauto

theorem mem_of_mem_uniqueBy (h : a ∈ uniqueBy key l) : a ∈ l :=
  ((uniqueBy_cases []).1 a h).resolve_left (by simp)

theorem mem_map_uniqueBy (h : k ∈ l.map key) : k ∈ (uniqueBy key l).map key :=
  (uniqueBy_cases []).2 k (.inr h)

end UniqueBy

/-- The reader keeps the session under its key. -/
def InterruptedAgentSession.IsKept (s : InterruptedAgentSession) : Prop :=
  s.isRead = true ∧ s.clean.key = s.key

/-- The reader keeps the ticket under its key. -/
def InterruptedTicket.IsKept (t : InterruptedTicket) : Prop :=
  t.isRead = true ∧ t.clean.key = t.key

structure RestartResumeRecord.IsKept (r : RestartResumeRecord) : Prop where
  sessions : ∀ s ∈ r.sessions, s.IsKept
  tickets : ∀ t ∈ r.tickets, t.IsKept

theorem InterruptedAgentSession.isKept_clean {s : InterruptedAgentSession} (h : s.isRead = true) :
    s.clean.IsKept := by
  obtain ⟨hcli, hid⟩ := Bool.and_eq_true_iff.mp h
  replace hcli := sliceText_ne_empty (n := 64) (by omega)
    (ne_empty_of_sliceText (of_decide_eq_true hcli))
  replace hid := sliceText_ne_empty (n := 256) (by omega)
    (ne_empty_of_sliceText (of_decide_eq_true hid))
  constructor
  · simp [isRead, clean, str, sliceText_ne_empty, hcli, hid]
  · simp [key, clean, str]

theorem InterruptedTicket.isKept_clean {t : InterruptedTicket} (h : t.isRead = true) :
    t.clean.IsKept := by
  have hid := sliceText_ne_empty (n := 64) (by omega)
    (ne_empty_of_sliceText (of_decide_eq_true h))
  constructor
  · simp [isRead, clean, str, sliceText_ne_empty, hid]
  · simp [key, clean, str]

theorem RestartResumeRecord.isKept_clean (r : RestartResumeRecord) : r.clean.IsKept := by
  constructor
  · intro s hs
    obtain ⟨s', hs', rfl⟩ := List.mem_map.mp hs
    exact InterruptedAgentSession.isKept_clean (List.mem_filter.mp hs').2
  · intro t ht
    obtain ⟨t', ht', rfl⟩ := List.mem_map.mp ht
    exact InterruptedTicket.isKept_clean (List.mem_filter.mp ht').2

theorem RestartResumeRecord.mem_items {r : RestartResumeRecord} {k : ResumeItem} :
    k ∈ r.items ↔ (∃ s ∈ r.sessions, k = .session s.key) ∨ ∃ t ∈ r.tickets, k = .ticket t.key := by
  simp [items, eq_comm]

theorem RestartResumeRecord.IsKept.mem_clean {r : RestartResumeRecord} (h : r.IsKept)
    {k : ResumeItem} (hk : k ∈ r.items) : k ∈ r.clean.items := by
  rw [mem_items] at hk ⊢
  obtain ⟨s, hs, rfl⟩ | ⟨t, ht, rfl⟩ := hk
  · obtain ⟨hread, hkey⟩ := h.sessions s hs
    exact .inl ⟨s.clean, List.mem_map_of_mem (List.mem_filter.mpr ⟨hs, hread⟩), by rw [hkey]⟩
  · obtain ⟨hread, hkey⟩ := h.tickets t ht
    exact .inr ⟨t.clean, List.mem_map_of_mem (List.mem_filter.mpr ⟨ht, hread⟩), by rw [hkey]⟩

/-! ## What one write does -/

section Write

variable {record raw : RestartResumeRecord} {file : Option RestartResumeRecord} {now : Date}
  {k : ResumeItem}

/-- The record that a write merges into a pending one. -/
def RestartResumeRecord.mergedWith (pending record : RestartResumeRecord) : RestartResumeRecord :=
  { pending with
    sessions := uniqueBy (·.key) (pending.sessions ++ record.sessions)
    tickets := uniqueBy (·.key) (pending.tickets ++ record.tickets) }

variable {pending : RestartResumeRecord}

theorem RestartResumeRecord.mem_items_mergedWith
    (h : k ∈ pending.items ∨ k ∈ record.items) : k ∈ (pending.mergedWith record).items := by
  have hall : k ∈ (pending.sessions ++ record.sessions).map (.session ·.key) ∨
      k ∈ (pending.tickets ++ record.tickets).map (.ticket ·.key) := by
    simp only [items, List.map_append, List.mem_append] at h ⊢
    tauto
  unfold items
  rw [List.mem_append]
  obtain hall | hall := hall
  · obtain ⟨s, hs, rfl⟩ := List.mem_map.mp hall
    obtain ⟨s', hs', hkey⟩ := List.mem_map.mp (mem_map_uniqueBy (List.mem_map_of_mem hs))
    exact .inl (List.mem_map.mpr ⟨s', hs', by rw [hkey]⟩)
  · obtain ⟨t, ht, rfl⟩ := List.mem_map.mp hall
    obtain ⟨t', ht', hkey⟩ := List.mem_map.mp (mem_map_uniqueBy (List.mem_map_of_mem ht))
    exact .inr (List.mem_map.mpr ⟨t', ht', by rw [hkey]⟩)

theorem RestartResumeRecord.IsKept.mergedWith
    (hpending : pending.IsKept) (hrecord : record.IsKept) :
    (pending.mergedWith record).IsKept := by
  constructor
  · intro s hs
    obtain hs | hs := List.mem_append.mp (mem_of_mem_uniqueBy hs)
    · exact hpending.sessions s hs
    · exact hrecord.sessions s hs
  · intro t ht
    obtain ht | ht := List.mem_append.mp (mem_of_mem_uniqueBy ht)
    · exact hpending.tickets t ht
    · exact hrecord.tickets t ht

theorem RestartResumeRecord.items_eq_nil :
    record.items = [] ↔ record.sessions = [] ∧ record.tickets = [] := by
  simp [items]

/-- With no live record in the file, the record is saved as it is; an empty one is not. -/
theorem writeRestartResume_fresh (h : (readRestartResume file now).1 = none) :
    writeRestartResume record file now = if record.items = [] then none else some record := by
  have hfile : (readRestartResume file now).2 = none := by
    unfold readRestartResume at h ⊢
    split
    · rfl
    · split
      · rfl
      · rename_i hlive
        simp [hlive] at h
  unfold writeRestartResume
  simp only [h, hfile, RestartResumeRecord.items_eq_nil]

/-- With a live record in the file, the two are merged under the time of the first. -/
theorem writeRestartResume_merge (record : RestartResumeRecord)
    (hlive : now ≤ raw.savedAt + restartResumeTtlMs) :
    writeRestartResume record (some raw) now = some (raw.clean.mergedWith record) ∨
      (raw.clean.mergedWith record).items = [] ∧
        writeRestartResume record (some raw) now = some raw := by
  have hread : readRestartResume (some raw) now = (some raw.clean, some raw) := by
    have harith : ∀ now saved ttl : Int, now ≤ saved + ttl → ¬ttl < now - saved := by omega
    unfold readRestartResume
    exact if_neg (harith _ _ _ hlive)
  have hwrite : writeRestartResume record (some raw) now =
      if (raw.clean.mergedWith record).items = [] then some raw
      else some (raw.clean.mergedWith record) := by
    unfold writeRestartResume
    simp only [hread, RestartResumeRecord.items_eq_nil]
    rfl
  rw [hwrite]
  split
  · rename_i hnil
    exact .inr ⟨hnil, rfl⟩
  · exact .inl rfl

end Write

/-! ## The events of a run -/

/-- The item was written at `t`, and no delivery that contained it has been answered since. -/
def Unsettled (events : List ResumeEvent) (k : ResumeItem) (t : Date) : Prop :=
  ∃ pre r post, events = pre ++ .wrote r t :: post ∧ k ∈ r.items ∧
    ∀ r', (.handed r' ∈ post ∨ .refused r' ∈ post) → k ∉ r'.items

/-- Every item that was written is handed over or refused later on, or still read up to its
    `TTL`. -/
def ResumeState.NothingLost (s : ResumeState) : Prop :=
  ∀ pre r t post k, s.events = pre ++ .wrote r t :: post → k ∈ r.items →
    s.now ≤ t + restartResumeTtlMs →
    (∃ r', (.handed r' ∈ post ∨ .refused r' ∈ post) ∧ k ∈ r'.items) ∨
      ∃ r', (readRestartResume s.file s.now).1 = some r' ∧ k ∈ r'.items

section Events

variable {events : List ResumeEvent} {e : ResumeEvent} {k : ResumeItem} {t : Date}

/-- One more event settles the item, or leaves it, or is its write. -/
theorem Unsettled.append (h : Unsettled (events ++ [e]) k t) :
    (Unsettled events k t ∧ ∀ r, (e = .handed r ∨ e = .refused r) → k ∉ r.items) ∨
      ∃ r, e = .wrote r t ∧ k ∈ r.items := by
  obtain ⟨pre, r, post, heq, hk, hpost⟩ := h
  obtain hnil | ⟨post', e', rfl⟩ := List.eq_nil_or_concat' post
  · subst hnil
    obtain ⟨-, he⟩ := List.append_inj' heq rfl
    exact .inr ⟨r, by simpa using he, hk⟩
  · have hsplit : events ++ [e] = (pre ++ .wrote r t :: post') ++ [e'] := by simpa using heq
    obtain ⟨hevents, he⟩ := List.append_inj' hsplit rfl
    obtain rfl : e = e' := by simpa using he
    refine .inl ⟨⟨pre, r, post', hevents, hk, fun r' hr' => ?_⟩, fun r' hr' => ?_⟩
    · exact hpost r' (hr'.imp (List.mem_append_left _) (List.mem_append_left _))
    · refine hpost r' (hr'.imp ?_ ?_) <;> rintro rfl <;> simp

end Events

/-! ## One step -/

/-- The condition on a step. Written items survive the reader; the clock does not pass the time of
    the stored record while it is within the time of work merged into it; and what has been
    written since a record was read is in the record too when its delivery is answered for good. -/
def ResumeAction.Keeps (s : ResumeState) : ResumeAction → Prop
  | .tick now => ∀ r ∈ s.file, r.savedAt + restartResumeTtlMs < now →
    s.mergedAt + restartResumeTtlMs < now
  | .write _ _ sessions tickets => (∀ x ∈ sessions, x.IsKept) ∧ ∀ x ∈ tickets, x.IsKept
  | .answer i status => ∀ d ∈ s.sends[i]?, postRestartResume status ≠ .retry →
    ∀ k ∈ d.since, k ∈ d.record.items
  | _ => True

instance (s : InterruptedAgentSession) : Decidable s.IsKept :=
  inferInstanceAs (Decidable (_ ∧ _))

instance (t : InterruptedTicket) : Decidable t.IsKept :=
  inferInstanceAs (Decidable (_ ∧ _))

instance (s : ResumeState) (a : ResumeAction) : Decidable (a.Keeps s) :=
  match a with
  | .tick now => inferInstanceAs (Decidable (∀ r ∈ s.file,
      (r.savedAt + restartResumeTtlMs : Int) < now → (s.mergedAt + restartResumeTtlMs : Int) < now))
  | .write _ _ sessions tickets =>
    inferInstanceAs (Decidable ((∀ x ∈ sessions, x.IsKept) ∧ ∀ x ∈ tickets, x.IsKept))
  | .answer i status => inferInstanceAs (Decidable (∀ d ∈ s.sends[i]?,
      postRestartResume status ≠ .retry → ∀ k ∈ d.since, k ∈ d.record.items))
  | .read | .deliver _ | .restart => .isTrue trivial

structure ResumeInv (s : ResumeState) : Prop where
  past : ∀ k t, Unsettled s.events k t → t ≤ s.now
  kept : ∀ r, s.file = some r → r.IsKept
  live : ∀ r, s.file = some r → s.now ≤ r.savedAt + restartResumeTtlMs ∨
    s.mergedAt + restartResumeTtlMs < s.now
  stored : ∀ k t, Unsettled s.events k t → s.now ≤ t + restartResumeTtlMs →
    t ≤ s.mergedAt ∧ ∃ r, s.file = some r ∧ k ∈ r.items
  covered : ∀ d ∈ s.held ++ s.sends, ∀ k t, Unsettled s.events k t →
    s.now ≤ t + restartResumeTtlMs → k ∈ d.record.items ∨ k ∈ d.since

section Steps

variable {s s' : ResumeState} {k : ResumeItem} {t : Date} {record : RestartResumeRecord}

theorem readRestartResume_live {raw : RestartResumeRecord} {now : Date}
    (hlive : now ≤ raw.savedAt + restartResumeTtlMs) :
    readRestartResume (some raw) now = (some raw.clean, some raw) := by
  have harith : ∀ now saved ttl : Int, now ≤ saved + ttl → ¬ttl < now - saved := by omega
  unfold readRestartResume
  exact if_neg (harith _ _ _ hlive)

section

variable (h : ResumeInv s)
include h

/-- An item whose time is not up is in the file, and the record in the file is not expired. -/
theorem ResumeInv.stored_live (hopen : Unsettled s.events k t)
    (htime : s.now ≤ t + restartResumeTtlMs) :
    ∃ r, s.file = some r ∧ s.now ≤ r.savedAt + restartResumeTtlMs ∧ k ∈ r.clean.items := by
  obtain ⟨hmerged, r, hfile, hk⟩ := h.stored k t hopen htime
  obtain hlive | hold := h.live r hfile
  · exact ⟨r, hfile, hlive, (h.kept r hfile).mem_clean hk⟩
  · have harith : ∀ now t merged ttl : Int, now ≤ t + ttl → t ≤ merged → merged + ttl < now →
        False := by omega
    exact (harith _ _ _ _ htime hmerged hold).elim

theorem ResumeInv.nothingLost : s.NothingLost := by
  intro pre r t post k hevents hk htime
  by_cases hsettled : ∃ r', (.handed r' ∈ post ∨ .refused r' ∈ post) ∧ k ∈ r'.items
  · exact .inl hsettled
  · have hopen : Unsettled s.events k t :=
      ⟨pre, r, post, hevents, hk, fun r' hr' hk' => hsettled ⟨r', hr', hk'⟩⟩
    obtain ⟨r', hfile, hlive, hk'⟩ := h.stored_live hopen htime
    exact .inr ⟨r'.clean, by rw [hfile, readRestartResume_live hlive], hk'⟩

/-- What the file holds after a write: a kept, live record with all the live work. -/
theorem ResumeInv.write_file (hrecord : record.IsKept) (hsaved : record.savedAt = s.now) :
    (∀ r, (s.write record).file = some r → r.IsKept ∧
      s.now ≤ r.savedAt + restartResumeTtlMs) ∧
    ∀ k, k ∈ record.items ∨ (∃ t, Unsettled s.events k t ∧ s.now ≤ t + restartResumeTtlMs) →
      ∃ r, (s.write record).file = some r ∧ k ∈ r.items := by
  have hfresh : s.now ≤ record.savedAt + restartResumeTtlMs := by
    rw [hsaved]
    exact Int.le_add_of_nonneg_right (by decide)
  change (∀ r, writeRestartResume record s.file s.now = some r → _) ∧
    ∀ k, _ → ∃ r, writeRestartResume record s.file s.now = some r ∧ k ∈ r.items
  by_cases hpending : ∃ raw, s.file = some raw ∧ s.now ≤ raw.savedAt + restartResumeTtlMs
  · obtain ⟨raw, hfile, hlive⟩ := hpending
    have hmerged := (RestartResumeRecord.isKept_clean raw).mergedWith hrecord
    have hin : ∀ k, k ∈ record.items ∨
        (∃ t, Unsettled s.events k t ∧ s.now ≤ t + restartResumeTtlMs) →
        k ∈ (raw.clean.mergedWith record).items := by
      rintro k (hk | ⟨t, hopen, htime⟩)
      · exact RestartResumeRecord.mem_items_mergedWith (.inr hk)
      · obtain ⟨raw', hfile', -, hk⟩ := h.stored_live hopen htime
        cases hfile.symm.trans hfile'
        exact RestartResumeRecord.mem_items_mergedWith (.inl hk)
    rw [hfile]
    obtain hw | ⟨hnil, hw⟩ := writeRestartResume_merge record hlive
    · rw [hw]
      refine ⟨fun r hr => ?_, fun k hk => ⟨_, rfl, hin k hk⟩⟩
      cases hr
      exact ⟨hmerged, hlive⟩
    · rw [hw]
      refine ⟨fun r hr => ?_, fun k hk => ?_⟩
      · cases hr
        exact ⟨h.kept _ hfile, hlive⟩
      · have hk' := hin k hk
        rw [hnil] at hk'
        cases hk'
  · -- nothing live is in the file, so all the live work is new
    have hread : (readRestartResume s.file s.now).1 = none := by
      have harith : ∀ now saved ttl : Int, ¬now ≤ saved + ttl → ttl < now - saved := by omega
      unfold readRestartResume
      split
      · rfl
      · rename_i raw hfile
        rw [if_pos (harith _ _ _ fun hlive => hpending ⟨raw, hfile, hlive⟩)]
    rw [writeRestartResume_fresh hread]
    refine ⟨fun r hr => ?_, ?_⟩
    · split at hr
      · cases hr
      · cases hr
        exact ⟨hrecord, hfresh⟩
    · rintro k (hk | ⟨t, hopen, htime⟩)
      · rw [if_neg (List.ne_nil_of_mem hk)]
        exact ⟨record, rfl, hk⟩
      · obtain ⟨r, hfile, hlive, -⟩ := h.stored_live hopen htime
        exact absurd ⟨r, hfile, hlive⟩ hpending

/-- A write adds its own work; every record that was read notes it. -/
theorem ResumeInv.write (hrecord : record.IsKept)
    (hsaved : record.savedAt = s.now) : ResumeInv (s.write record) := by
  obtain ⟨hfile, hin⟩ := h.write_file hrecord hsaved
  have hcases : ∀ k t, Unsettled (s.write record).events k t →
      Unsettled s.events k t ∨ (k ∈ record.items ∧ t = s.now) := by
    intro k t hopen
    obtain ⟨hopen, -⟩ | ⟨r, hr, hk⟩ := hopen.append
    · exact .inl hopen
    · obtain ⟨rfl, rfl⟩ := ResumeEvent.wrote.inj hr
      exact .inr ⟨hk, rfl⟩
  refine ⟨?_, fun r hr => (hfile r hr).1, fun r hr => .inl (hfile r hr).2, ?_, ?_⟩
  · intro k t hopen
    obtain hopen | ⟨-, rfl⟩ := hcases k t hopen
    · exact h.past k t hopen
    · exact Int.le_refl _
  · intro k t hopen htime
    change t ≤ (if record.items = [] then s.mergedAt else s.now) ∧ _
    obtain hopen | ⟨hk, rfl⟩ := hcases k t hopen
    · refine ⟨?_, hin k (.inr ⟨t, hopen, htime⟩)⟩
      split
      · exact (h.stored k t hopen htime).1
      · exact h.past k t hopen
    · rw [if_neg (List.ne_nil_of_mem hk)]
      exact ⟨Int.le_refl _, hin k (.inl hk)⟩
  · intro d hd k t hopen htime
    change d ∈ s.held.map _ ++ s.sends.map _ at hd
    rw [← List.map_append] at hd
    obtain ⟨d', hd', rfl⟩ := List.mem_map.mp hd
    obtain hopen | ⟨hk, -⟩ := hcases k t hopen
    · exact (h.covered d' hd' k t hopen htime).imp_right (List.mem_append_left _)
    · exact .inr (List.mem_append_right _ hk)

/-- Reading removes an expired file only, and what is read has all the live work. -/
theorem ResumeInv.read : ResumeInv s.read := by
  have hevents : s.read.events = s.events := rfl
  have hheld : s.read.held =
      s.held ++ ((readRestartResume s.file s.now).1.map fun record => ⟨record, []⟩).toList := rfl
  have hfile : ∀ r, s.read.file = some r → s.file = some r := by
    intro r hr
    change (readRestartResume s.file s.now).2 = some r at hr
    unfold readRestartResume at hr
    split at hr
    · cases hr
    · rename_i raw hraw
      split at hr
      · cases hr
      · rw [hraw]
        exact hr
  refine ⟨h.past, fun r hr => h.kept r (hfile r hr), fun r hr => h.live r (hfile r hr), ?_, ?_⟩
  · intro k t hopen htime
    obtain ⟨hmerged, r, hr, hk⟩ := h.stored k t hopen htime
    obtain ⟨r', hr', hlive, -⟩ := h.stored_live hopen htime
    cases hr.symm.trans hr'
    refine ⟨hmerged, r, ?_, hk⟩
    show (readRestartResume s.file s.now).2 = some r
    rw [hr, readRestartResume_live hlive]
  · intro d hd k t hopen htime
    change d ∈ s.read.held ++ s.sends at hd
    rw [hheld, List.append_assoc, List.mem_append, List.mem_append] at hd
    obtain hd | hd | hd := hd
    · exact h.covered d (List.mem_append_left _ hd) k t hopen htime
    · obtain ⟨r, hr, hlive, hk⟩ := h.stored_live hopen htime
      rw [hr, readRestartResume_live hlive] at hd
      rw [List.mem_singleton.mp hd]
      exact .inl hk
    · exact h.covered d (List.mem_append_right _ hd) k t hopen htime

/-- An answer for good settles all that its record contains, and that is all there is. -/
theorem ResumeInv.answer {i : Nat} {d : ReadRecord} (hd : s.sends[i]? = some d)
    {status : Option Nat}
    (hsince : postRestartResume status ≠ .retry → ∀ k ∈ d.since, k ∈ d.record.items) :
    ResumeInv (s.answer i d status) := by
  have hsends : ∀ d' ∈ s.held ++ s.sends.eraseIdx i, d' ∈ s.held ++ s.sends := by
    intro d' hd'
    obtain hd' | hd' := List.mem_append.mp hd'
    · exact List.mem_append_left _ hd'
    · exact List.mem_append_right _ (List.mem_of_mem_eraseIdx hd')
  have hsettled : ∀ e, (e = .handed d.record ∨ e = .refused d.record) →
      postRestartResume status ≠ .retry → ResumeInv
        { s with file := none, sends := s.sends.eraseIdx i, events := s.events ++ [e] } := by
    intro e he hstatus
    have hopen : ∀ k t, Unsettled (s.events ++ [e]) k t →
        Unsettled s.events k t ∧ k ∉ d.record.items := by
      intro k t hopen
      obtain ⟨hopen, hnot⟩ | ⟨r, hr, -⟩ := hopen.append
      · exact ⟨hopen, hnot d.record he⟩
      · subst hr
        simp at he
    have hmem : d ∈ s.held ++ s.sends := List.mem_append_right _ (List.mem_of_getElem? hd)
    -- whatever is live is in the record or was written since
    have hnone : ∀ k t, Unsettled (s.events ++ [e]) k t →
        ¬s.now ≤ t + restartResumeTtlMs := by
      intro k t hk htime
      obtain ⟨hk, hnot⟩ := hopen k t hk
      exact hnot ((h.covered d hmem k t hk htime).elim id (hsince hstatus k))
    exact ⟨fun k t hk => h.past k t (hopen k t hk).1, by simp, by simp,
      fun k t hk htime => absurd htime (hnone k t hk),
      fun _ _ k t hk htime => absurd htime (hnone k t hk)⟩
  unfold ResumeState.answer
  cases hstatus : postRestartResume status with
  | retry => exact ⟨h.past, h.kept, h.live, h.stored, fun d' hd' => h.covered d' (hsends d' hd')⟩
  | ok => exact hsettled _ (.inl rfl) (by simp [hstatus])
  | rejected => exact hsettled _ (.inr rfl) (by simp [hstatus])

theorem ResumeInv.act {a : ResumeAction} (hkeeps : a.Keeps s)
    (hs : s.act a = .ok s') : ResumeInv s' := by
  cases a with
  | tick now =>
    simp only [ResumeState.act] at hs
    split at hs
    · cases hs
    · rename_i hclock
      cases hs
      have hle : s.now ≤ now := Int.not_lt.mp hclock
      refine ⟨fun k t hk => Int.le_trans (h.past k t hk) hle, h.kept, ?_,
        fun k t hk htime => h.stored k t hk (Int.le_trans hle htime),
        fun d hd k t hk htime => h.covered d hd k t hk (Int.le_trans hle htime)⟩
      intro r hr
      by_cases hexpired : r.savedAt + restartResumeTtlMs < now
      · exact .inr (hkeeps r hr hexpired)
      · exact .inl (Int.not_lt.mp hexpired)
  | write reason fromVersion sessions tickets =>
    cases hs
    exact h.write ⟨hkeeps.1, hkeeps.2⟩ rfl
  | read =>
    cases hs
    exact h.read
  | deliver i =>
    simp only [ResumeState.act] at hs
    split at hs
    · cases hs
    · rename_i d hd
      cases hs
      refine { h with covered := fun d' hd' => h.covered d' ?_ }
      have hmem := List.mem_of_getElem? hd
      simp only [List.mem_append, List.mem_singleton] at hd' ⊢
      obtain hd' | hd' | rfl := hd'
      · exact .inl hd'
      · exact .inr hd'
      · exact .inl hmem
  | answer i status =>
    simp only [ResumeState.act] at hs
    split at hs
    · cases hs
    · rename_i d hd
      cases hs
      exact h.answer hd (hkeeps d hd)
  | restart =>
    cases hs
    exact { h with covered := by simp }

end

end Steps

/-! ## Whole runs -/

section Runs

variable {s : ResumeState}

/-- The runs whose steps all meet the condition. -/
def keptRuns : Transition ResumeState ResumeAction :=
  resumeSystem.restrict fun s a _ => a.Keeps s

theorem resumeInv_reachable (h : keptRuns.Reachable s) : ResumeInv s := by
  refine h.invariant ?_ fun _ _ _ _ hs hst => hs.act hst.2 hst.1
  rintro s ⟨hfile, hheld, hsends, hevents⟩
  have hnone : ∀ k t, ¬Unsettled s.events k t := by
    rintro k t ⟨pre, r, post, heq, -⟩
    rw [hevents] at heq
    exact List.append_ne_nil_of_right_ne_nil _ (List.cons_ne_nil _ _) heq.symm
  exact ⟨fun k t hk => absurd hk (hnone k t), by simp [hfile], by simp [hfile],
    fun k t hk => absurd hk (hnone k t), by simp [hheld, hsends]⟩

/-- In every state of a run whose steps meet the condition nothing that was written is lost. -/
theorem resume_nothingLost (h : keptRuns.Reachable s) : s.NothingLost :=
  (resumeInv_reachable h).nothingLost

def noResume : ResumeState where
  file := none
  now := 0
  held := []
  sends := []
  mergedAt := 0
  events := []

def ticketWork (id : String) : InterruptedTicket := ⟨id, "assignee", "rt-1"⟩

/-- One ticket is handed over after a restart; another one waits in the file. -/
theorem resume_nothingLost_delivered :
    ∃ s, keptRuns.Reachable s ∧
      s.events = [.wrote ⟨"self_update_restart", 0, "1.0", [], [ticketWork "t1"]⟩ 0,
        .handed ⟨"self_update_restart", 0, "1.0", [], [ticketWork "t1"]⟩,
        .wrote ⟨"manager_restart", 5, "1.1", [], [ticketWork "t2"]⟩ 5] ∧
      s.NothingLost := by
  obtain ⟨s, hreach, hs⟩ := Transition.exists_reachable_guarded (M := keptRuns)
    (C := fun s a => a.Keeps s) (s := noResume) (fun _ _ _ hok h => ⟨h, hok⟩) ⟨rfl, rfl, rfl, rfl⟩
    [.write "self_update_restart" "1.0" [] [ticketWork "t1"], .restart, .read, .deliver 0,
      .tick 5, .answer 0 (some 200), .write "manager_restart" "1.1" [] [ticketWork "t2"]]
    (fun s => s.events = [.wrote ⟨"self_update_restart", 0, "1.0", [], [ticketWork "t1"]⟩ 0,
      .handed ⟨"self_update_restart", 0, "1.0", [], [ticketWork "t1"]⟩,
      .wrote ⟨"manager_restart", 5, "1.1", [], [ticketWork "t2"]⟩ 5]) (by decide +kernel)
  exact ⟨s, hreach, of_decide_eq_true hs, resume_nothingLost hreach⟩

/-- A restart is saved while the delivery of the previous record awaits the server; the answer
    removes the file with the new work in it. -/
theorem not_always_nothingLost : ¬ ∀ s, resumeSystem.Reachable s → s.NothingLost := by
  intro hall
  have hrun : ∀ s a t, ResumeState.act s a = .ok t → resumeSystem.step s a t := fun _ _ _ h => h
  obtain ⟨s, hpath, hs⟩ := Transition.exists_path_of_run hrun noResume
    [.write "self_update_restart" "1.0" [] [ticketWork "t1"], .restart, .read, .deliver 0,
      .tick 5, .write "manager_restart" "1.1" [] [ticketWork "t2"], .answer 0 (some 200)]
    (fun s => s.file = none ∧ s.now = 5 ∧
      s.events = [.wrote ⟨"self_update_restart", 0, "1.0", [], [ticketWork "t1"]⟩ 0,
        .wrote ⟨"manager_restart", 5, "1.1", [], [ticketWork "t2"]⟩ 5,
        .handed ⟨"self_update_restart", 0, "1.0", [], [ticketWork "t1"]⟩]) (by decide +kernel)
  obtain ⟨hfile, hnow, hevents⟩ := of_decide_eq_true hs
  obtain ⟨r, hr, hk⟩ | ⟨r, hr, -⟩ := hall s (.path (.init ⟨rfl, rfl, rfl, rfl⟩) hpath)
    [.wrote ⟨"self_update_restart", 0, "1.0", [], [ticketWork "t1"]⟩ 0] _ _ _
    (.ticket "t2\x00assignee") hevents (by decide) (by rw [hnow]; decide)
  · simp only [List.mem_singleton, ResumeEvent.handed.injEq, reduceCtorEq, or_false] at hr
    subst hr
    exact absurd hk (by decide)
  · rw [hfile] at hr
    cases hr

end Runs

end AgentManager

end WorkflowBoard
