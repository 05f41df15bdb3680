import Mathlib
import WorkflowBoard.ForStd.Grows
import WorkflowBoard.Native.Engagement

/-!
# Engagement is counted once

The connector rows of a post add up to the value stored on it, and that value was returned to the
sweep whose write committed it. Every write of the value raises the revision, so that the copy a
sweep computes a difference from is, where its write wins, what is stored.
-/

namespace WorkflowBoard.Engagement

variable {s s' t : EngagementState} {i k : Nat} {m : Metric} {c c' : Sweep} {p : Copy}

/-! ## What is promised -/

/-- The sum of the post's connector rows of the metric. -/
def total (rows : List MetricRow) (i : Nat) (m : Metric) : Int :=
  ((rows.filter fun r => r.post_id = i && r.metric = m).map (·.value)).sum

structure Counted (s : EngagementState) (i : Nat) : Prop where
  sum : ∀ p, s.posts[i]? = some p → ∀ m, total s.metrics i m = (p.engagement.get m).getD 0
  returned : ∀ p, s.posts[i]? = some p → ∀ m v, p.engagement.get m = some v →
    ∃ k c r, p.writers.get m = some k ∧ s.sweeps[k]? = some c ∧ (i, r) ∈ c.answers ∧
      r.get m = some v

/-- No engagement is recorded of the post, and it has no connector rows. -/
structure Unrecorded (s : EngagementState) (i : Nat) : Prop where
  value : ∀ p, s.posts[i]? = some p → ∀ m, p.engagement.get m = none
  rows : ∀ r ∈ s.metrics, r.post_id ≠ i

/-! ## Differences -/

theorem total_append (rows rows' : List MetricRow) :
    total (rows ++ rows') i m = total rows i m + total rows' i m := by
  simp [total]

theorem total_of_other {rows : List MetricRow} (h : ∀ r ∈ rows, r.post_id ≠ i) :
    total rows i m = 0 := by
  have hnone : (rows.filter fun r => r.post_id = i && r.metric = m) = [] := by
    rw [List.filter_eq_nil_iff]
    intro r hr
    simp [h r hr]
  rw [total, hnone, List.map_nil, List.sum_nil]

@[simp] theorem EngagementValue.get_set (v : EngagementValue) (m m' : Metric) (n : Int) :
    (v.set m n).get m' = if m' = m then some n else v.get m' := by
  cases m <;> cases m' <;> rfl

/-- The rows of the changes for the post at `place`. -/
def changeRows (place : Nat) (changes : List Change) : List MetricRow :=
  changes.map fun x => { post_id := place, metric := x.metric, value := x.delta, note := x.note }

theorem total_changeRows_concat (place : Nat) (changes : List Change) (x : Change) :
    total (changeRows place (changes ++ [x])) place m =
      total (changeRows place changes) place m + if x.metric = m then x.delta else 0 := by
  rw [changeRows, List.map_append, total_append, ← changeRows, List.map_cons, List.map_nil]
  congr 1
  by_cases hm : x.metric = m <;> simp [total, hm]

/-- The changes observed so far are what the value differs by from the one before. -/
def Balanced (before : EngagementValue) (acc : List Change × EngagementValue) : Prop :=
  ∀ place m, total (changeRows place acc.1) place m =
    (acc.2.get m).getD 0 - (before.get m).getD 0

theorem Balanced.observe {platform : String} {before : EngagementValue}
    {acc : List Change × EngagementValue} (h : Balanced before acc) {m : Metric} {next : Option Int}
    (hfirst : acc.2.get m = before.get m) :
    Balanced before (Engagement.observe platform before acc m next) := by
  cases next with
  | none => exact h
  | some n =>
    intro place m'
    have hacc := h place m'
    simp only [Engagement.observe, EngagementValue.get_set]
    by_cases hn : n = (before.get m).getD 0
    · rw [if_neg (not_not.mpr hn), hacc]
      by_cases hm : m' = m
      · subst hm
        rw [hfirst, if_pos rfl, Option.getD_some, hn]
      · rw [if_neg hm]
    · rw [if_pos hn, total_changeRows_concat, hacc]
      by_cases hm : m' = m
      · subst hm
        rw [hfirst, if_pos rfl, if_pos rfl, Option.getD_some]
        dsimp only
        omega
      · rw [if_neg hm, if_neg (Ne.symm hm), Int.add_zero]

/-- The changes of a reading add up to what the post gains. -/
theorem engagementChanges_balanced (platform : String) (before : EngagementValue)
    (reading : Reading) : Balanced before (engagementChanges platform before reading) := by
  have hstart : Balanced before
      ([], { engagements := before.engagements, replies := before.replies }) := by
    intro place m
    cases m <;> simp [total, changeRows, EngagementValue.get]
  refine Balanced.observe (hstart.observe rfl) ?_
  cases reading.reactions <;> rfl

/-- A metric that the reading has is taken from it, another stays. -/
theorem engagementChanges_get (platform : String) (before : EngagementValue) (reading : Reading)
    (m : Metric) :
    (engagementChanges platform before reading).2.get m = (reading.get m).or (before.get m) := by
  cases m <;> cases hr : reading.reactions <;> cases hc : reading.comments <;>
    simp [engagementChanges, observe, hr, hc, Reading.get] <;> rfl

/-! ## Copies -/

/-- The copy was taken of the post at its place. -/
def CopyOk (posts : List Post) (p : Copy) : Prop :=
  Snapshot.Of Post.engagement_rev Post.engagement posts p.place p.row

/-- The posts of a later state. -/
abbrev Later (posts posts' : List Post) : Prop :=
  Grows (Snapshot Post.engagement_rev Post.engagement) posts posts'

def After.copies : After → List Copy
  | .connect usable => usable
  | .chunks queue => queue

def SweepPhase.copies : SweepPhase → List Copy
  | .scheduling posts | .sorting posts | .connecting posts | .chunking posts => posts
  | .opening => []
  | .excusing posts after => posts.map (·.1) ++ after.copies
  | .claiming chunk claimed rest => chunk ++ (claimed ++ rest)
  | .asking claimed rest | .recording claimed _ rest => claimed ++ rest

structure Sweep.Ok (posts : List Post) (c : Sweep) : Prop where
  groups : ∀ g ∈ c.groups, ∀ p ∈ g.2, CopyOk posts p
  copies : ∀ p ∈ c.phase.copies, CopyOk posts p
  answered : ∀ claimed readings rest, c.phase = .recording claimed readings rest →
    ∀ p ∈ claimed, ∀ r, byRef readings p.ref = some r → (p.place, r) ∈ c.answers

structure EngagementInv (i : Nat) (s : EngagementState) : Prop where
  sweeps : ∀ (k : Nat) c, s.sweeps[k]? = some c → c.Ok s.posts
  counted : Counted s i
  /-- A post that is still to come has no rows. -/
  fresh : s.posts[i]? = none → ∀ r ∈ s.metrics, r.post_id ≠ i

theorem Sweep.Ok.later {posts posts' : List Post} (h : c.Ok posts) (hlater : Later posts posts') :
    c.Ok posts' where
  groups g hg p hp := (h.groups g hg p hp).grows hlater
  copies p hp := (h.copies p hp).grows hlater
  answered := h.answered

theorem copyOf_ok {place : Nat} (h : s.copyOf place = some p) : CopyOk s.posts p := by
  obtain ⟨row, hrow, rfl⟩ := Option.map_eq_some_iff.mp h
  exact ⟨row, hrow, .refl row⟩

theorem filterMap_copyOf_ok {places : List Nat} (h : p ∈ places.filterMap s.copyOf) :
    CopyOk s.posts p := by
  obtain ⟨place, _, hplace⟩ := List.mem_filterMap.mp h
  exact copyOf_ok hplace

/-! ## Writes -/

/-- What `settle` does: nothing, or a write of a row at the revision of the copy. -/
theorem settle_cases (s : EngagementState) (p : Copy) (f : Fields) :
    s.settle p f = (false, s) ∨
    ∃ row, s.posts[p.place]? = some row ∧ row.engagement_rev = p.row.engagement_rev ∧
      s.settle p f = (true, { s with posts := s.posts.set p.place (row.settled f) }) := by
  unfold EngagementState.settle
  split
  · rename_i row hrow
    split
    · rename_i hrev
      exact .inr ⟨row, hrow, hrev, rfl⟩
    · exact .inl rfl
  · exact .inl rfl

theorem settle_sweeps (s : EngagementState) (p : Copy) (f : Fields) :
    (s.settle p f).2.sweeps = s.sweeps := by
  rcases settle_cases s p f with h | ⟨row, _, _, h⟩ <;> rw [h]

theorem settle_won {f : Fields} (hp : CopyOk s.posts p) (hwon : (s.settle p f).1 = true) :
    CopyOk (s.settle p f).2.posts p.advanced := by
  rcases settle_cases s p f with h | ⟨row, hrow, hrev, h⟩
  · rw [h] at hwon
    cases hwon
  · rw [h]
    have hsame := Snapshot.Of.view_eq hp hrow hrev
    refine ⟨row.settled f, getElem?_set_self hrow, ?_⟩
    exact ⟨by simp [Post.settled, Copy.advanced, hrev], fun _ => hsame.symm⟩

theorem EngagementInv.fresh_set {place : Nat} {row row' : Post} (h : EngagementInv i s)
    (hrow : s.posts[place]? = some row) (hnone : (s.posts.set place row')[i]? = none) :
    i ≠ place ∧ ∀ r ∈ s.metrics, r.post_id ≠ i := by
  have hlen := List.getElem?_eq_none_iff.mp hnone
  rw [List.length_set] at hlen
  have hplace := lt_of_getElem? hrow
  exact ⟨by omega, h.fresh (List.getElem?_eq_none_iff.mpr hlen)⟩

/-- An update that is lost changes nothing. -/
theorem EngagementInv.settle (h : EngagementInv i s) (p : Copy) (f : Fields) :
    EngagementInv i (s.settle p f).2 := by
  rcases settle_cases s p f with hs | ⟨row, hrow, _, hs⟩
  · rw [hs]
    exact h
  rw [hs]
  have hlater : Later s.posts (s.posts.set p.place (row.settled f)) :=
    Snapshot.grows_set hrow (.of_lt (Nat.lt_succ_self _))
  -- Neither the value nor who wrote it changes.
  have hold : ∀ q, (s.posts.set p.place (row.settled f))[i]? = some q →
      ∃ q', s.posts[i]? = some q' ∧ q.engagement = q'.engagement ∧ q.writers = q'.writers := by
    intro q hq
    rcases getElem?_set_cases hq with ⟨rfl, rfl⟩ | ⟨_, hq⟩
    · exact ⟨row, hrow, rfl, rfl⟩
    · exact ⟨q, hq, rfl, rfl⟩
  refine ⟨fun k c hc => (h.sweeps k c hc).later hlater, ⟨fun q hq m => ?_, fun q hq m v hv => ?_⟩,
    fun hnone => (h.fresh_set hrow hnone).2⟩
  · obtain ⟨q', hq', hvalue, _⟩ := hold q hq
    rw [hvalue]
    exact h.counted.sum q' hq' m
  · obtain ⟨q', hq', hvalue, hwriters⟩ := hold q hq
    rw [hwriters]
    exact h.counted.returned q' hq' m v (hvalue ▸ hv)

theorem Writers.get_wrote (w : Writers) (k : Nat) (r : Reading) (m : Metric) :
    (w.wrote k r).get m = if (r.get m).isSome then some k else w.get m := by
  cases m <;> rfl

/-- A recorded reading adds its changes to the rows and to the post. -/
theorem EngagementInv.record (h : EngagementInv i s) {platform : String} {r : Reading} {now : Date}
    (hp : CopyOk s.posts p) (hc : s.sweeps[k]? = some c) (hr : (p.place, r) ∈ c.answers) :
    EngagementInv i (s.record k p platform r now) := by
  unfold EngagementState.record
  split
  case h_2 => exact h
  rename_i row hrow
  split
  case isFalse => exact h
  rename_i hrev
  have hsame : row.engagement = p.row.engagement := Snapshot.Of.view_eq hp hrow hrev
  dsimp only
  generalize hchanged : engagementChanges platform p.row.engagement r = changed
  have hget : ∀ m, changed.2.get m = (r.get m).or (row.engagement.get m) := by
    intro m
    rw [← hchanged, engagementChanges_get, hsame]
  have hbalanced : ∀ m, total (changeRows p.place changed.1) p.place m =
      (changed.2.get m).getD 0 - (row.engagement.get m).getD 0 := by
    intro m
    rw [← hchanged, hsame]
    exact engagementChanges_balanced platform p.row.engagement r p.place m
  have hlater : Later s.posts (s.posts.set p.place (row.recorded k p changed.2 r now)) :=
    Snapshot.grows_set hrow (.of_lt (Nat.lt_succ_self _))
  have hvalue : ∀ m, (row.recorded k p changed.2 r now).engagement.get m = changed.2.get m := by
    intro m
    cases m <;> rfl
  have hother : i ≠ p.place → ∀ x ∈ changeRows p.place changed.1, x.post_id ≠ i := by
    intro hne x hx
    obtain ⟨_, _, rfl⟩ := List.mem_map.mp hx
    exact Ne.symm hne
  refine ⟨fun k c hc => (h.sweeps k c hc).later hlater, ⟨fun q hq m => ?_, fun q hq m v hv => ?_⟩,
    fun hnone x hx => ?_⟩
  · change total (s.metrics ++ changeRows p.place changed.1) i m = _
    rw [total_append]
    rcases getElem?_set_cases hq with ⟨rfl, rfl⟩ | ⟨hne, hq⟩
    · rw [hbalanced, hvalue, h.counted.sum row hrow m]
      omega
    · rw [total_of_other (hother (Ne.symm hne)), h.counted.sum q hq m, Int.add_zero]
  · rcases getElem?_set_cases hq with ⟨rfl, rfl⟩ | ⟨_, hq⟩
    · rw [hvalue, hget] at hv
      change ∃ k' c r', (row.writers.wrote k r).get m = some k' ∧ _
      rw [Writers.get_wrote]
      cases hm : r.get m with
      | none =>
        -- The platform hides it: the value and its writer stay.
        rw [hm, Option.none_or] at hv
        exact h.counted.returned row hrow m v hv
      | some n =>
        rw [hm, Option.some_or] at hv
        cases hv
        exact ⟨k, c, r, rfl, hc, hr, hm⟩
    · exact h.counted.returned q hq m v hv
  · obtain ⟨hne, hrows⟩ := h.fresh_set hrow hnone
    rcases List.mem_append.mp hx with hx | hx
    · exact hrows x hx
    · exact hother hne x hx

theorem EngagementInv.setSweep (h : EngagementInv i s) (hc : s.sweeps[k]? = some c)
    (hanswers : c.answers ⊆ c'.answers) (hok : c'.Ok s.posts) :
    EngagementInv i (s.setSweep k c') := by
  refine ⟨fun j d hd => ?_, ⟨h.counted.sum, fun q hq m v hv => ?_⟩, h.fresh⟩
  · rcases getElem?_set_cases hd with ⟨_, rfl⟩ | ⟨_, hd⟩
    · exact hok
    · exact h.sweeps j d hd
  · obtain ⟨j, d, r, hw, hd, hr, hm⟩ := h.counted.returned q hq m v hv
    by_cases hj : k = j
    · subst hj
      cases hc.symm.trans hd
      have hlt := lt_of_getElem? hc
      exact ⟨k, c', r, hw, List.getElem?_set_self hlt, hanswers hr, hm⟩
    · refine ⟨j, d, r, hw, ?_, hr, hm⟩
      change (s.sweeps.set k c')[j]? = some d
      rw [List.getElem?_set_ne hj, hd]

/-! ## Steps of a sweep -/

variable {posts : List Post}

/-- A phase with no other copies, that is not about to record. -/
theorem Sweep.Ok.goTo (h : c.Ok posts) (hgroups : c'.groups = c.groups)
    (hcopies : c'.phase.copies ⊆ c.phase.copies)
    (hphase : ∀ claimed readings rest, c'.phase ≠ .recording claimed readings rest) :
    c'.Ok posts where
  groups := hgroups ▸ h.groups
  copies p hp := h.copies p (hcopies hp)
  answered claimed readings rest heq := absurd heq (hphase claimed readings rest)

theorem excusing_copies (posts : List Copy) (e : Excuse) (after : After) :
    (excusing posts e after).copies = posts ++ after.copies := by
  simp [excusing, SweepPhase.copies, Function.comp_def]

theorem After.phase_copies (after : After) : after.phase.copies = after.copies := by
  cases after with
  | connect usable => cases usable <;> rfl
  | chunks queue => cases queue <;> rfl

theorem After.phase_ne (after : After) (claimed : List Copy) (readings : List Reading)
    (rest : List Copy) : after.phase ≠ .recording claimed readings rest := by
  cases after with
  | connect usable => cases usable <;> nofun
  | chunks queue => cases queue <;> nofun

theorem notEarly_subset (queue : List Copy) : notEarly queue ⊆ queue :=
  fun _ hp => (List.mem_filter.mp hp).1

theorem pushGroup_ok {key : String} (hp : CopyOk posts p)
    {groups : List (String × List Copy)} (h : ∀ g ∈ groups, ∀ q ∈ g.2, CopyOk posts q) :
    ∀ g ∈ pushGroup key p groups, ∀ q ∈ g.2, CopyOk posts q := by
  induction groups with
  | nil =>
    intro g hg q hq
    obtain rfl := List.mem_singleton.mp hg
    obtain rfl := List.mem_singleton.mp hq
    exact hp
  | cons head groups ih =>
    obtain ⟨key', group⟩ := head
    intro g hg q hq
    unfold pushGroup at hg
    split at hg
    · rcases List.mem_cons.mp hg with rfl | hg
      · rcases List.mem_append.mp hq with hq | hq
        · exact h _ List.mem_cons_self q hq
        · obtain rfl := List.mem_singleton.mp hq
          exact hp
      · exact h g (List.mem_cons_of_mem _ hg) q hq
    · rcases List.mem_cons.mp hg with rfl | hg
      · exact h _ List.mem_cons_self q hq
      · exact ih (fun g hg => h g (List.mem_cons_of_mem _ hg)) g hg q hq

theorem Sweep.connected_answers (c : Sweep) (usable early : List Copy) (result : Connection) :
    (c.connected usable early result).answers = c.answers := by
  cases result <;> rfl

theorem Sweep.Ok.connected (h : c.Ok posts) {usable early : List Copy}
    (hphase : c.phase = .connecting usable) (hearly : ∀ p ∈ early, CopyOk posts p)
    (result : Connection) : (c.connected usable early result).Ok posts := by
  have hcopies := h.copies
  rw [hphase] at hcopies
  have hexcused : ∀ e, ∀ p ∈ (excusing usable e (.chunks [])).copies, CopyOk posts p := by
    intro e p hp
    rw [excusing_copies, After.copies, List.append_nil] at hp
    exact hcopies p hp
  cases result with
  | noRoom => exact ⟨h.groups, hexcused _, nofun⟩
  | unreachable error => exact ⟨h.groups, hexcused _, nofun⟩
  | cannotRead => exact ⟨h.groups, hexcused _, nofun⟩
  | ready perRequest places =>
    refine ⟨h.groups, fun p hp => ?_, nofun⟩
    rcases List.mem_append.mp hp with hp | hp
    · exact hcopies p hp
    · exact hearly p hp

theorem Sweep.Ok.chunked (h : c.Ok posts) {queue : List Copy}
    (hphase : c.phase = .chunking queue) (room : Bool) : (c.chunked queue room).Ok posts := by
  unfold Sweep.chunked
  split
  · exact h.goTo rfl (List.nil_subset _) nofun
  split
  · refine h.goTo rfl ?_ nofun
    rw [hphase]
    intro p hp
    rcases List.mem_append.mp hp with hp | hp
    · exact List.mem_of_mem_take hp
    · exact List.mem_of_mem_drop hp
  · refine h.goTo rfl ?_ nofun
    rw [hphase, excusing_copies, After.copies, List.append_nil]
    exact notEarly_subset queue

theorem Sweep.Ok.refused (h : c.Ok posts) {claimed rest : List Copy}
    (hphase : c.phase = .asking claimed rest) (error : String) (how : Refusal) :
    (c.refused claimed rest error how).Ok posts := by
  have hall : ∀ e e' : Excuse, ∀ p ∈ (SweepPhase.excusing
      (claimed.map (·, e) ++ (notEarly rest).map (·, e')) (.chunks [])).copies,
      p ∈ c.phase.copies := by
    intro e e' p hp
    rw [hphase]
    simp only [SweepPhase.copies, After.copies, List.append_nil, List.map_append, List.map_map,
      Function.comp_def, List.map_id'] at hp
    exact List.mem_append.mpr ((List.mem_append.mp hp).imp_right fun hp => notEarly_subset _ hp)
  cases how with
  | rateLimited => exact h.goTo rfl (fun p hp => hall _ _ p hp) nofun
  | forbidden => exact h.goTo rfl (fun p hp => hall _ _ p hp) nofun
  | other =>
    refine h.goTo rfl ?_ nofun
    have hcopies := excusing_copies claimed (.fail error) (.chunks rest)
    rw [hphase, Sweep.refused, hcopies]
    exact List.Subset.refl _

namespace EngagementInv

section

variable (h : EngagementInv i s)
include h

section

variable (hc : s.sweeps[k]? = some c)
include hc

/-- A step that writes a copy with `settle` and goes on. -/
theorem settleThen (f : Fields) (hanswers : c.answers ⊆ c'.answers)
    (hok : c.Ok (s.settle p f).2.posts → c'.Ok (s.settle p f).2.posts) :
    EngagementInv i ((s.settle p f).2.setSweep k c') := by
  have hset := h.settle p f
  have hck : (s.settle p f).2.sweeps[k]? = some c := by rw [settle_sweeps, hc]
  exact hset.setSweep hck hanswers (hok (hset.sweeps k c hck))

theorem claim {chunk claimed rest : List Copy}
    (hphase : c.phase = .claiming (p :: chunk) claimed rest) (f : Fields) :
    EngagementInv i ((s.settle p f).2.setSweep k { c with
      phase := .claiming chunk (if (s.settle p f).1 then claimed ++ [p.advanced] else claimed)
        rest }) := by
  refine h.settleThen hc f (List.Subset.refl _) fun hok => ⟨hok.groups, fun q hq => ?_, nofun⟩
  have hcopies := hok.copies
  simp only [hphase, SweepPhase.copies, List.cons_append, List.mem_cons, List.mem_append] at hcopies
  simp only [SweepPhase.copies, List.mem_append] at hq
  rcases hq with hq | hq | hq
  · exact hcopies q (.inr (.inl hq))
  · split at hq
    · rename_i hwon
      rcases List.mem_append.mp hq with hq | hq
      · exact hcopies q (.inr (.inr (.inl hq)))
      · obtain rfl := List.mem_singleton.mp hq
        have hp := (h.sweeps k c hc).copies p (by simp [hphase, SweepPhase.copies])
        exact settle_won hp hwon
    · exact hcopies q (.inr (.inr (.inl hq)))
  · exact hcopies q (.inr (.inr (.inr hq)))

theorem answer {claimed rest : List Copy}
    (hphase : c.phase = .asking claimed rest) (readings : List Reading) :
    EngagementInv i (s.setSweep k { c with
      phase := .recording claimed readings rest
      answers := c.answers ++
        claimed.filterMap fun p => (byRef readings p.ref).map (p.place, ·) }) := by
  have hok := h.sweeps k c hc
  refine h.setSweep hc (List.subset_append_left _ _) ⟨hok.groups, ?_, ?_⟩
  · have hcopies := hok.copies
    rw [hphase] at hcopies
    exact hcopies
  · intro claimed' readings' rest' heq p hp r hr
    obtain ⟨rfl, rfl, rfl⟩ := SweepPhase.recording.inj heq
    refine List.mem_append.mpr (.inr (List.mem_filterMap.mpr ⟨p, hp, ?_⟩))
    rw [hr, Option.map_some]

/-- The next reading of a group is recorded, if the update wins. -/
theorem recordNext {claimed rest : List Copy}
    {readings : List Reading} (hphase : c.phase = .recording (p :: claimed) readings rest)
    (hstep : s.sweepStep k c (.record k) = some s') : EngagementInv i s' := by
  have hok := h.sweeps k c hc
  have hgoTo : ∀ {posts : List Post}, c.Ok posts →
      Sweep.Ok posts { c with phase := .recording claimed readings rest } := by
    intro posts hok
    refine ⟨hok.groups, fun q hq => hok.copies q ?_, ?_⟩
    · rw [hphase]
      exact List.mem_cons_of_mem _ hq
    · intro claimed' readings' rest' heq q hq r hr
      obtain ⟨rfl, rfl, rfl⟩ := SweepPhase.recording.inj heq
      exact hok.answered _ _ _ hphase q (List.mem_cons_of_mem _ hq) r hr
  simp only [EngagementState.sweepStep, hphase] at hstep
  split at hstep
  · rename_i reading hreading
    cases hstep
    have hp := hok.copies p (by simp [hphase, SweepPhase.copies])
    have hanswer := hok.answered _ _ _ hphase p List.mem_cons_self reading hreading
    have hrecord : EngagementInv i (s.record k p c.platform reading c.now) :=
      h.record hp hc hanswer
    have hck : (s.record k p c.platform reading c.now).sweeps[k]? = some c := by
      unfold EngagementState.record
      split
      · split <;> exact hc
      · exact hc
    exact hrecord.setSweep hck (List.Subset.refl _) (hgoTo (hrecord.sweeps k c hck))
  · cases hstep
    exact h.settleThen hc _ (List.Subset.refl _) hgoTo

/-- Each statement of a sweep keeps the sums. -/
theorem sweepStep {a : SweepAction}
    (hk : a.sweep? = some k) (hstep : s.sweepStep k c a = some s') : EngagementInv i s' := by
  have hok := h.sweeps k c hc
  -- A phase that keeps a part of the copies, after a write or without one.
  have htail : ∀ {posts : List Post} {phase : SweepPhase}, phase.copies ⊆ c.phase.copies →
      (∀ claimed readings rest, phase ≠ .recording claimed readings rest) → c.Ok posts →
      Sweep.Ok posts { c with phase } := fun hsub hne hok => hok.goTo rfl hsub hne
  cases a with
  | publish | sweep => cases hk
  | untracked _ found =>
    simp only [EngagementState.sweepStep] at hstep
    split at hstep
    · rename_i p legacy hphase
      cases hstep
      refine h.settleThen hc _ (List.Subset.refl _) (htail ?_ nofun)
      rw [hphase]
      exact List.subset_cons_self _ _
    · cases hstep
  | list _ due =>
    obtain ⟨_, ⟨⟩⟩ := Option.ite_none_right_eq_some.mp hstep
    exact h.setSweep hc (List.Subset.refl _) ⟨hok.groups, fun p hp => filterMap_copyOf_ok hp, nofun⟩
  | sort _ verdict =>
    simp only [EngagementState.sweepStep] at hstep
    split at hstep
    · rename_i p due e hphase
      cases hstep
      refine h.settleThen hc _ (List.Subset.refl _) (htail ?_ nofun)
      rw [hphase]
      exact List.subset_cons_self _ _
    · rename_i p due outreachId manual hphase
      cases hstep
      have hcopies := hok.copies
      rw [hphase] at hcopies
      have hp : CopyOk s.posts { p with ref := manual.getD p.ref } := hcopies p List.mem_cons_self
      refine h.setSweep hc (List.Subset.refl _) ⟨?_, fun q hq => ?_, nofun⟩
      · exact pushGroup_ok hp hok.groups
      · exact hcopies q (List.mem_cons_of_mem _ hq)
    · cases hstep
  | openChannel _ outreach =>
    simp only [EngagementState.sweepStep] at hstep
    split at hstep
    · cases hstep
      exact h.setSweep hc (List.Subset.refl _) (htail (List.nil_subset _) nofun hok)
    · rename_i key posts groups hphase hgroups
      cases hstep
      have hall := hok.groups
      rw [hgroups] at hall
      refine h.setSweep hc (List.Subset.refl _) ⟨?_, fun p hp => ?_, nofun⟩
      · exact fun g hg => hall g (List.mem_cons_of_mem _ hg)
      · have hp := (excusing_copies _ _ _).symm ▸ hp
        refine hall _ List.mem_cons_self p ?_
        rcases List.mem_append.mp hp with hp | hp
        · exact (List.mem_filter.mp hp).1
        · exact (List.mem_filter.mp hp).1
    · cases hstep
  | excuse =>
    simp only [EngagementState.sweepStep] at hstep
    split at hstep
    · rename_i after hphase
      cases hstep
      refine h.setSweep hc (List.Subset.refl _) (htail ?_ after.phase_ne hok)
      rw [hphase, After.phase_copies]
      exact List.Subset.refl _
    · rename_i p e posts after hphase
      cases hstep
      refine h.settleThen hc _ (List.Subset.refl _) (htail ?_ nofun)
      rw [hphase]
      exact List.subset_cons_self _ _
    · cases hstep
  | connect _ result =>
    simp only [EngagementState.sweepStep] at hstep
    split at hstep
    · rename_i usable perRequest early hphase
      cases hstep
      refine h.setSweep hc (List.Subset.refl _) (hok.connected hphase (fun q hq => ?_) _)
      obtain ⟨read, hread, rfl⟩ := List.mem_map.mp hq
      have hcopy : CopyOk s.posts read := filterMap_copyOf_ok hread
      exact hcopy
    · rename_i usable hphase _
      cases hstep
      refine h.setSweep hc ?_ (hok.connected hphase (fun q hq => absurd hq List.not_mem_nil) _)
      rw [Sweep.connected_answers]
      exact List.Subset.refl _
    · cases hstep
  | chunk _ room =>
    simp only [EngagementState.sweepStep] at hstep
    split at hstep
    · cases hstep
      exact h.setSweep hc (List.Subset.refl _) (htail (List.nil_subset _) nofun hok)
    · rename_i queue _ hphase
      cases hstep
      refine h.setSweep hc ?_ (hok.chunked hphase room)
      unfold Sweep.chunked
      repeat' split
      all_goals exact List.Subset.refl _
    · cases hstep
  | claim _ time =>
    simp only [EngagementState.sweepStep] at hstep
    split at hstep
    · rename_i rest hphase
      cases hstep
      refine h.setSweep hc (List.Subset.refl _) (htail ?_ nofun hok)
      rw [hphase]
      exact List.Subset.refl _
    · rename_i claimed rest _ hphase
      cases hstep
      refine h.setSweep hc (List.Subset.refl _) (hok.goTo rfl ?_ nofun)
      rw [hphase]
      exact List.Subset.refl _
    · rename_i p chunk claimed rest hphase
      cases hstep
      exact h.claim hc hphase _
    · cases hstep
  | answer _ readings =>
    simp only [EngagementState.sweepStep] at hstep
    split at hstep
    · rename_i claimed rest hphase
      cases hstep
      exact h.answer hc hphase readings
    · cases hstep
  | refuse _ error how =>
    simp only [EngagementState.sweepStep] at hstep
    split at hstep
    · rename_i claimed rest hphase
      cases hstep
      refine h.setSweep hc ?_ (hok.refused hphase error how)
      cases how <;> exact List.Subset.refl _
    · cases hstep
  | record k' =>
    cases hk
    cases hphase : c.phase with
    | recording claimed readings rest =>
      cases claimed with
      | nil =>
        simp only [EngagementState.sweepStep, hphase, Option.some.injEq] at hstep
        subst hstep
        refine h.setSweep hc (List.Subset.refl _) (htail ?_ nofun hok)
        rw [hphase]
        exact List.Subset.refl _
      | cons p claimed => exact h.recordNext hc hphase hstep
    | _ => simp [EngagementState.sweepStep, hphase] at hstep

end

theorem publish {row : Post} (hnew : ∀ m, row.engagement.get m = none) :
    EngagementInv i { s with posts := s.posts ++ [row] } := by
  refine ⟨fun k c hc => (h.sweeps k c hc).later (.append .refl _ _), ⟨fun q hq m => ?_,
    fun q hq m v hv => ?_⟩, fun hnone => h.fresh ?_⟩
  · rcases getElem?_append_cases hq with hq | ⟨hi, rfl⟩
    · exact h.counted.sum q hq m
    · have hrows := h.fresh (by rw [hi]; exact List.getElem?_eq_none (Nat.le_refl _))
      rw [total_of_other hrows, hnew, Option.getD_none]
  · rcases getElem?_append_cases hq with hq | ⟨_, rfl⟩
    · exact h.counted.returned q hq m v hv
    · rw [hnew] at hv
      cases hv
  · have hlen := List.getElem?_eq_none_iff.mp hnone
    rw [List.length_append] at hlen
    exact List.getElem?_eq_none (by omega)

/-- Each step keeps the sums. -/
theorem step {a : SweepAction} (hstep : s.step a = some s') :
    EngagementInv i s' := by
  unfold EngagementState.step at hstep
  split at hstep
  · cases hstep
    exact h.publish fun m => by cases m <;> rfl
  · obtain ⟨_, ⟨⟩⟩ := Option.ite_none_right_eq_some.mp hstep
    refine ⟨fun k c hc => ?_, ⟨h.counted.sum, fun q hq m v hv => ?_⟩, h.fresh⟩
    · rcases getElem?_append_cases hc with hc | ⟨_, rfl⟩
      · exact h.sweeps k c hc
      · exact ⟨nofun, fun p hp => filterMap_copyOf_ok hp, nofun⟩
    · obtain ⟨k, c, r, hw, hc, hr, hm⟩ := h.counted.returned q hq m v hv
      exact ⟨k, c, r, hw, getElem?_append_of_some hc _, hr, hm⟩
  · obtain ⟨k, hk, hstep⟩ := Option.bind_eq_some_iff.mp hstep
    obtain ⟨c, hc, hstep⟩ := Option.bind_eq_some_iff.mp hstep
    exact h.sweepStep hc hk hstep

end

theorem init (hidle : s.sweeps = []) (hnone : Unrecorded s i) : EngagementInv i s where
  sweeps k c hc := by simp [hidle] at hc
  counted := by
    refine ⟨fun p hp m => ?_, fun p hp m v hv => ?_⟩
    · rw [total_of_other hnone.rows, hnone.value p hp m, Option.getD_none]
    · rw [hnone.value p hp m] at hv
      cases hv
  fresh _ := hnone.rows

end EngagementInv

/-! ## Runs -/

/-- Along every run from a state in which no sweep is under way, the engagement of a post of which
    none was recorded is counted once. -/
theorem engagement_counted {s₀ : EngagementState} {as : List SweepAction}
    (hidle : s₀.sweeps = []) (hnone : Unrecorded s₀ i) (hrun : engagementSystem.Path s₀ as s) :
    Counted s i := by
  have hreach : engagementSystem.Reachable s₀ := .init hidle
  exact (hreach.path_invariant hrun (fun _ _ _ _ h hstep => EngagementInv.step h hstep)
    (EngagementInv.init hidle hnone)).counted

/-- The sweep `k` claims the only post that is due. -/
def claimed (k : Nat) (time : Date) : List SweepAction :=
  [.sweep time [], .list k [0], .sort k (.collect "channel" none), .openChannel k none,
    .openChannel k (some ("account", "reddit")), .excuse k, .connect k (.ready 100 []),
    .chunk k true, .claim k time, .claim k time]

/-- A sweep loses its lease to a second one, and its reading comes late. -/
theorem engagement_counted_small :
    ∃ s p, s.posts[0]? = some p ∧ p.engagement.engagements = some 45 ∧ Counted s 0 := by
  obtain ⟨s, hpath, hend⟩ := Transition.exists_path_checked (M := engagementSystem)
    (C := fun _ _ => true) (fun _ _ _ h => h) { posts := [], metrics := [] }
    ([.publish "account" "t3_post" 0 (some hourMs)] ++ claimed 0 hourMs ++
      claimed 1 (hourMs + leaseMs) ++
      [.answer 1 [{ ref := "t3_post", reactions := some 45, comments := some 3 }], .record 1,
        .answer 0 [{ ref := "t3_post", reactions := some 12, comments := none }], .record 0])
    (fun s => (s.posts[0]?).any (·.engagement.engagements = some 45)) (by decide +kernel)
  rw [Option.any_eq_true] at hend
  obtain ⟨p, hp, hvalue⟩ := hend
  have hnone : Unrecorded { posts := [], metrics := [] } 0 := ⟨nofun, nofun⟩
  exact ⟨s, p, hp, by simpa using hvalue, engagement_counted rfl hnone hpath.of_restrict⟩

end WorkflowBoard.Engagement
