import Mathlib.Data.List.Nodup
import Mathlib.Data.List.Perm.Subperm

/-!
# Kahn's algorithm

A dependency-first order of a list of keys, computed in rounds: the keys of a round are
those whose dependencies have all been placed, in the order the keys were given. `indegree`
counts the dependencies of a key that are still missing; a key joins the next round at the
moment its count drops to zero.

The results are for distinct keys whose dependency lists have no repetition.
-/

namespace WorkflowBoard.Kahn

universe u

variable {α : Type u} [DecidableEq α]

structure State (α : Type u) where
  ordered : List α
  indegree : α → Int
  next : List α

/-- The keys that depend on `d`, in the order of the keys. -/
def dependents (keys : List α) (deps : α → List α) (d : α) : List α :=
  keys.filter fun k => d ∈ deps k

/-- One dependent of a placed key: one dependency less is missing. -/
def release (s : State α) (k : α) : State α :=
  let remaining := s.indegree k - 1
  { s with
    indegree := Function.update s.indegree k remaining
    next := if remaining = 0 then s.next ++ [k] else s.next }

/-- Place a key. -/
def visit (keys : List α) (deps : α → List α) (s : State α) (key : α) : State α :=
  (dependents keys deps key).foldl release { s with ordered := s.ordered ++ [key] }

/-- Rounds until none is ready; a run has at most one round for each key. -/
def loop (keys : List α) (deps : α → List α) : Nat → State α → List α → List α
  | 0, s, _ => s.ordered
  | fuel + 1, s, ready =>
    if ready = [] then s.ordered
    else
      let s := ready.foldl (visit keys deps) s
      loop keys deps fuel { s with next := [] } (keys.filter (· ∈ s.next))

/-- The order in which the keys are placed. -/
def sort (keys : List α) (deps : α → List α) : List α :=
  loop keys deps (keys.length + 1) ⟨[], fun k => (deps k).length, []⟩
    (keys.filter fun k => (deps k).length = 0)

/-- How many dependencies of `k` are missing. -/
def missing (deps : α → List α) (ordered : List α) (k : α) : Nat :=
  ((deps k).filter (· ∉ ordered)).length

/-- The state of the algorithm while `ready` is still to be placed in this round. -/
structure Inv (keys : List α) (deps : α → List α) (s : State α) (ready : List α) : Prop where
  nodup : (s.ordered ++ (ready ++ s.next)).Nodup
  keys_of : ∀ k ∈ s.ordered ++ (ready ++ s.next), k ∈ keys
  indegree : ∀ k ∈ keys, s.indegree k = missing deps s.ordered k
  none_missing : ∀ k ∈ keys, missing deps s.ordered k = 0 ↔ k ∈ s.ordered ++ (ready ++ s.next)
  closed : ∀ l₁ a l₂, s.ordered = l₁ ++ a :: l₂ → ∀ d ∈ deps a, d ∈ l₁

variable {keys : List α} {deps : α → List α}

variable {ordered : List α} {ready : List α} {s : State α}

omit [DecidableEq α] in
/-- A closed order stays closed when a key is placed whose dependencies are there. -/
theorem closed_append {x : α} (h : ∀ l₁ a l₂, ordered = l₁ ++ a :: l₂ → ∀ d ∈ deps a, d ∈ l₁)
    (hx : ∀ d ∈ deps x, d ∈ ordered) (l₁ : List α) (a : α) (l₂ : List α)
    (heq : ordered ++ [x] = l₁ ++ a :: l₂) : ∀ d ∈ deps a, d ∈ l₁ := by
  obtain rfl | ⟨l₂, y, rfl⟩ := List.eq_nil_or_concat l₂
  · obtain ⟨rfl, hxa⟩ := List.append_inj' heq rfl
    obtain rfl : x = a := by simpa using hxa
    exact hx
  · rw [List.concat_eq_append, ← List.cons_append, ← List.append_assoc] at heq
    obtain ⟨heq, -⟩ := List.append_inj' heq rfl
    exact h l₁ a l₂ heq

theorem missing_eq_zero {k : α} :
    missing deps ordered k = 0 ↔ ∀ d ∈ deps k, d ∈ ordered := by
  simp [missing, List.filter_eq_nil_iff]

/-- Placing `x` leaves one dependency less missing where `x` is one. -/
theorem missing_append {x k : α} (hk : (deps k).Nodup) (hx : x ∉ ordered) :
    missing deps ordered k = missing deps (ordered ++ [x]) k + if x ∈ deps k then 1 else 0 := by
  unfold missing
  generalize deps k = ds at hk
  induction ds with
  | nil => simp
  | cons d ds ih =>
    obtain ⟨hd, hds⟩ := List.nodup_cons.mp hk
    have ih := ih hds
    by_cases hdx : d = x
    · subst hdx
      rw [if_neg hd] at ih
      simp [hx] at ih ⊢
      omega
    · have hxd : x ≠ d := fun h => hdx h.symm
      by_cases hdo : d ∈ ordered
      · simp [hdo, hxd] at ih ⊢
        omega
      · simp [hdo, hdx, hxd] at ih ⊢
        omega

/-- Releasing a list of distinct keys: each count drops by one, and those that were at one
    join the next round. -/
theorem foldl_release {ks : List α} (hks : ks.Nodup) (s : State α) :
    (ks.foldl release s).ordered = s.ordered ∧
    (∀ k, (ks.foldl release s).indegree k = s.indegree k - if k ∈ ks then 1 else 0) ∧
    (ks.foldl release s).next = s.next ++ ks.filter (s.indegree · = 1) := by
  induction ks generalizing s with
  | nil => simp
  | cons x ks ih =>
    obtain ⟨hx, hks⟩ := List.nodup_cons.mp hks
    obtain ⟨hord, hind, hnext⟩ := ih hks (release s x)
    rw [List.foldl_cons]
    refine ⟨hord, ?_, ?_⟩
    · intro k
      rw [hind k]
      by_cases hkx : k = x
      · subst hkx
        simp [release, hx]
      · simp [release, hkx]
    · -- the keys after `x` are released from the counts they had
      have hsame : ks.filter ((release s x).indegree · = 1) = ks.filter (s.indegree · = 1) := by
        apply List.filter_congr
        intro k hk
        have hkx : k ≠ x := fun h => hx (h ▸ hk)
        simp [release, Function.update_of_ne hkx]
      rw [hnext, hsame]
      by_cases h1 : s.indegree x = 1
      · simp [release, h1]
      · have h0 : s.indegree x - 1 ≠ 0 := by omega
        simp [release, h1, h0]

section

variable (hkeys : keys.Nodup)
include hkeys

/-- Placing the next key of a round keeps the invariant. -/
theorem Inv.visit {x : α} (hdeps : ∀ k ∈ keys, (deps k).Nodup) (h : Inv keys deps s (x :: ready)) :
    Inv keys deps (Kahn.visit keys deps s x) ready := by
  have hall := h.nodup
  have hxkeys : x ∈ keys := h.keys_of x (by simp)
  have hxo : x ∉ s.ordered := by
    intro hmem
    exact (List.nodup_append.mp hall).2.2 x hmem x (by simp) rfl
  have hnd : (dependents keys deps x).Nodup := hkeys.filter _
  obtain ⟨hord, hind, hnext⟩ :=
    foldl_release hnd { s with ordered := s.ordered ++ [x] }
  change (Kahn.visit keys deps s x).ordered = s.ordered ++ [x] at hord
  change ∀ k, (Kahn.visit keys deps s x).indegree k = _ at hind
  change (Kahn.visit keys deps s x).next = s.next ++ _ at hnext
  -- the keys that have just lost their last missing dependency
  have hnew : ∀ k, k ∈ (dependents keys deps x).filter (s.indegree · = 1) ↔
      k ∈ keys ∧ x ∈ deps k ∧ missing deps s.ordered k = 1 := by
    intro k
    simp only [dependents, List.mem_filter, decide_eq_true_eq]
    constructor
    · rintro ⟨⟨hk, hxk⟩, hone⟩
      rw [h.indegree k hk] at hone
      exact ⟨hk, hxk, by omega⟩
    · rintro ⟨hk, hxk, hone⟩
      exact ⟨⟨hk, hxk⟩, by rw [h.indegree k hk, hone]; rfl⟩
  have hmiss : ∀ k ∈ keys, missing deps s.ordered k =
      missing deps (s.ordered ++ [x]) k + if x ∈ deps k then 1 else 0 :=
    fun k hk => missing_append (hdeps k hk) hxo
  have hmem : ∀ k, k ∈ (Kahn.visit keys deps s x).ordered ++
      (ready ++ (Kahn.visit keys deps s x).next) ↔
      k ∈ s.ordered ++ (x :: ready ++ s.next) ∨
        (k ∈ keys ∧ x ∈ deps k ∧ missing deps s.ordered k = 1) := by
    intro k
    rw [hord, hnext, ← hnew k]
    simp only [List.mem_append, List.mem_cons, List.not_mem_nil, or_false]
    tauto
  refine ⟨?_, ?_, ?_, ?_, ?_⟩
  · -- the keys that join the next round were waiting for `x`
    rw [hord, hnext]
    have hperm : (s.ordered ++ [x] ++ (ready ++ (s.next ++
        (dependents keys deps x).filter (s.indegree · = 1)))) =
        (s.ordered ++ (x :: ready ++ s.next)) ++
          (dependents keys deps x).filter (s.indegree · = 1) := by simp
    rw [hperm]
    refine List.nodup_append.mpr ⟨hall, hnd.filter _, ?_⟩
    intro a ha b hb hab
    subst hab
    obtain ⟨hk, -, hone⟩ := (hnew a).mp hb
    have hzero := (h.none_missing a hk).mpr ha
    omega
  · intro k hk
    obtain hk | hk := (hmem k).mp hk
    · exact h.keys_of k hk
    · exact hk.1
  · intro k hk
    have := hmiss k hk
    rw [hind k, h.indegree k hk, hord]
    simp only [dependents, List.mem_filter, hk, true_and, decide_eq_true_eq]
    split at this
    · rename_i hx
      rw [if_pos hx]
      omega
    · rename_i hx
      rw [if_neg hx]
      omega
  · intro k hk
    have hm := hmiss k hk
    have hz := h.none_missing k hk
    rw [hmem k, hord]
    constructor
    · intro hzero
      by_cases hx : x ∈ deps k
      · rw [if_pos hx] at hm
        exact .inr ⟨hk, hx, by omega⟩
      · rw [if_neg hx] at hm
        exact .inl (hz.mp (by omega))
    · rintro (hin | ⟨-, hx, hone⟩)
      · have := hz.mpr hin
        omega
      · rw [if_pos hx] at hm
        omega
  · rw [hord]
    refine closed_append h.closed ?_
    exact missing_eq_zero.mp ((h.none_missing x hxkeys).mpr (by simp))

theorem Inv.foldl_visit (hdeps : ∀ k ∈ keys, (deps k).Nodup) (h : Inv keys deps s ready) :
    Inv keys deps (ready.foldl (Kahn.visit keys deps) s) [] := by
  induction ready generalizing s with
  | nil => exact h
  | cons x ready ih => exact ih (h.visit hkeys hdeps)

/-- The next round has the same keys, in the order of the keys. -/
theorem Inv.next_round (h : Inv keys deps s []) :
    Inv keys deps { s with next := [] } (keys.filter (· ∈ s.next)) := by
  have hnd := h.nodup
  rw [List.nil_append] at hnd
  have hmem : ∀ k, k ∈ s.ordered ++ (keys.filter (· ∈ s.next) ++ []) ↔
      k ∈ s.ordered ++ ([] ++ s.next) := by
    intro k
    have hkey : k ∈ s.next → k ∈ keys := fun hk => h.keys_of k (by simp [hk])
    simp only [List.append_nil, List.nil_append, List.mem_append, List.mem_filter,
      decide_eq_true_eq]
    tauto
  refine ⟨?_, ?_, h.indegree, ?_, h.closed⟩
  · rw [List.append_nil]
    refine List.nodup_append.mpr ⟨(List.nodup_append.mp hnd).1, hkeys.filter _, ?_⟩
    intro a ha b hb
    have hb' : b ∈ s.next := by simpa using (List.mem_filter.mp hb).2
    exact (List.nodup_append.mp hnd).2.2 a ha b hb'
  · intro k hk
    exact h.keys_of k ((hmem k).mp hk)
  · intro k hk
    rw [h.none_missing k hk]
    exact (hmem k).symm

theorem ordered_foldl_visit (s : State α) (ready : List α) :
    (ready.foldl (Kahn.visit keys deps) s).ordered = s.ordered ++ ready := by
  induction ready generalizing s with
  | nil => simp
  | cons x ready ih =>
    have hnd : (dependents keys deps x).Nodup := hkeys.filter _
    have hx : (Kahn.visit keys deps s x).ordered = s.ordered ++ [x] :=
      (foldl_release hnd { s with ordered := s.ordered ++ [x] }).1
    rw [List.foldl_cons, ih, hx, List.append_assoc, List.singleton_append]

/-- The loop ends with an invariant state that has nothing ready, if it has a turn for each
    key that is not placed yet. -/
theorem Inv.loop {fuel : Nat}
    (hdeps : ∀ k ∈ keys, (deps k).Nodup) (h : Inv keys deps s ready) (hnext : s.next = [])
    (hfuel : keys.length < s.ordered.length + fuel) :
    ∃ t, Inv keys deps t [] ∧ t.next = [] ∧ Kahn.loop keys deps fuel s ready = t.ordered := by
  induction fuel generalizing s ready with
  | zero =>
    -- more keys placed than there are
    have hlen : s.ordered.length ≤ keys.length := by
      apply (List.subperm_of_subset (List.nodup_append.mp h.nodup).1 ?_).length_le
      exact fun k hk => h.keys_of k (List.mem_append_left _ hk)
    omega
  | succ fuel ih =>
    unfold Kahn.loop
    by_cases hready : ready = []
    · subst hready
      rw [if_pos rfl]
      exact ⟨s, h, hnext, rfl⟩
    · rw [if_neg hready]
      have hplaced : (ready.foldl (Kahn.visit keys deps) s).ordered.length =
          s.ordered.length + ready.length := by
        rw [ordered_foldl_visit hkeys, List.length_append]
      have hpos : 0 < ready.length := List.length_pos_iff.mpr hready
      have hround := (h.foldl_visit hkeys hdeps).next_round hkeys
      apply ih hround rfl
      show keys.length < (ready.foldl (Kahn.visit keys deps) s).ordered.length + fuel
      omega

theorem Inv.start :
    Inv keys deps ⟨[], fun k => (deps k).length, []⟩
      (keys.filter fun k => (deps k).length = 0) := by
  have hmiss : ∀ k, missing deps [] k = (deps k).length := by
    intro k
    simp [missing]
  refine ⟨?_, ?_, ?_, ?_, ?_⟩
  · simpa using hkeys.filter _
  · intro k hk
    simp only [List.nil_append, List.append_nil] at hk
    exact List.mem_of_mem_filter hk
  · intro k _
    rw [hmiss k]
  · intro k hk
    rw [hmiss k]
    simp [hk]
  · intro l₁ a l₂ h
    simp at h

theorem exists_end (hdeps : ∀ k ∈ keys, (deps k).Nodup) :
    ∃ t, Inv keys deps t [] ∧ t.next = [] ∧ sort keys deps = t.ordered := by
  apply Inv.loop hkeys hdeps (Inv.start hkeys) rfl
  show keys.length < 0 + (keys.length + 1)
  omega

/-- Each key is placed at most once. -/
theorem sort_nodup (hdeps : ∀ k ∈ keys, (deps k).Nodup) :
    (sort keys deps).Nodup := by
  obtain ⟨t, ht, -, hsort⟩ := exists_end hkeys hdeps
  rw [hsort]
  exact (List.nodup_append.mp ht.nodup).1

theorem sort_subset (hdeps : ∀ k ∈ keys, (deps k).Nodup) {k : α}
    (hk : k ∈ sort keys deps) : k ∈ keys := by
  obtain ⟨t, ht, -, hsort⟩ := exists_end hkeys hdeps
  rw [hsort] at hk
  exact ht.keys_of k (List.mem_append_left _ hk)

/-- The dependencies of a placed key stand before it. -/
theorem sort_closed (hdeps : ∀ k ∈ keys, (deps k).Nodup)
    {l₁ l₂ : List α} {a : α} (h : sort keys deps = l₁ ++ a :: l₂) : ∀ d ∈ deps a, d ∈ l₁ := by
  obtain ⟨t, ht, -, hsort⟩ := exists_end hkeys hdeps
  exact ht.closed l₁ a l₂ (hsort ▸ h)

/-- A key is placed exactly if its dependencies are. -/
theorem mem_sort_iff (hdeps : ∀ k ∈ keys, (deps k).Nodup) {k : α}
    (hk : k ∈ keys) : k ∈ sort keys deps ↔ ∀ d ∈ deps k, d ∈ sort keys deps := by
  obtain ⟨t, ht, hnext, hsort⟩ := exists_end hkeys hdeps
  have hz := ht.none_missing k hk
  rw [hnext, List.append_nil, List.append_nil] at hz
  rw [hsort, ← hz, missing_eq_zero]

end

end WorkflowBoard.Kahn

/-!
# Kahn's algorithm with a queue

The keys of a graph in dependency order, one at a time from the head of a queue. The graph
is a list of edges and may have several edges between two keys: `indegree` counts edges, and
a key joins the queue when its last edge has been followed.

Key results, for distinct keys:

* `order_nodup`, `order_subset`: each key is placed at most once and nothing else is.
* `mem_order`: an order as long as the list of keys has every key.
-/

namespace WorkflowBoard.KahnQueue

universe u

variable {α : Type u} [DecidableEq α]

structure State (α : Type u) where
  order : List α
  queue : List α
  indegree : α → Int

/-- One edge into `next` followed: it joins the queue if this was its last. -/
def release (s : State α) (next : α) : State α :=
  let remaining := s.indegree next - 1
  { s with
    queue := if remaining = 0 then s.queue ++ [next] else s.queue
    indegree := Function.update s.indegree next remaining }

/-- The targets of the edges out of `k`. -/
def targets (edges : List (α × α)) (k : α) : List α :=
  (edges.filter (·.1 = k)).map (·.2)

/-- Take the keys from the queue; it has each key at most once. -/
def loop (edges : List (α × α)) : Nat → State α → List α
  | 0, s => s.order
  | fuel + 1, s =>
    match s.queue with
    | [] => s.order
    | cur :: rest =>
      loop edges fuel
        ((targets edges cur).foldl release { s with order := s.order ++ [cur], queue := rest })

/-- The order of the keys. -/
def order (keys : List α) (edges : List (α × α)) : List α :=
  let indegree := fun k => ((edges.filter (·.2 = k)).length : Int)
  loop edges keys.length ⟨[], keys.filter fun k => indegree k = 0, indegree⟩

/-- What the loop keeps: the keys placed or waiting are distinct, and none of their edges is
    left to follow. -/
structure Inv (keys : List α) (s : State α) : Prop where
  nodup : (s.order ++ s.queue).Nodup
  keys_of : ∀ k ∈ s.order ++ s.queue, k ∈ keys
  indegree : ∀ k ∈ s.order ++ s.queue, s.indegree k ≤ 0

variable {keys : List α} {edges : List (α × α)}

/-- A key that joins the queue had an edge left, so it was not there before. -/
theorem Inv.release {s : State α} (h : Inv keys s) {next : α} (hkey : next ∈ keys) :
    Inv keys (release s next) := by
  have hstep : ∀ k, Function.update s.indegree next (s.indegree next - 1) k ≤ s.indegree k := by
    intro k
    by_cases hk : k = next
    · subst hk
      simp only [Function.update_self]
      omega
    · exact Int.le_of_eq (Function.update_of_ne hk _ _)
  unfold KahnQueue.release
  dsimp only
  split
  · rename_i hzero
    have hnew : next ∉ s.order ++ s.queue := by
      intro hmem
      have hle := h.indegree next hmem
      omega
    refine ⟨?_, ?_, ?_⟩
    · rw [← List.append_assoc]
      refine List.nodup_append.mpr ⟨h.nodup, List.nodup_singleton _, ?_⟩
      intro a ha b hb hab
      rw [List.mem_singleton] at hb
      exact hnew (hb ▸ hab ▸ ha)
    · intro k hk
      rw [← List.append_assoc, List.mem_append, List.mem_singleton] at hk
      cases hk with
      | inl hk => exact h.keys_of k hk
      | inr hk => exact hk ▸ hkey
    · intro k hk
      rw [← List.append_assoc, List.mem_append, List.mem_singleton] at hk
      cases hk with
      | inl hk => exact Int.le_trans (hstep k) (h.indegree k hk)
      | inr hk =>
        subst hk
        simp only [Function.update_self]
        omega
  · exact ⟨h.nodup, h.keys_of, fun k hk => Int.le_trans (hstep k) (h.indegree k hk)⟩

theorem Inv.foldl_release {s : State α} (h : Inv keys s) {ks : List α} (hks : ∀ k ∈ ks, k ∈ keys) :
    Inv keys (ks.foldl KahnQueue.release s) := by
  induction ks generalizing s with
  | nil => exact h
  | cons k ks ih =>
    rw [List.foldl_cons]
    exact ih (h.release (hks k List.mem_cons_self)) fun j hj => hks j (List.mem_cons_of_mem _ hj)

theorem Inv.loop {s : State α} (h : Inv keys s) (hedges : ∀ e ∈ edges, e.2 ∈ keys) (fuel : Nat) :
    (loop edges fuel s).Nodup ∧ ∀ k ∈ loop edges fuel s, k ∈ keys := by
  induction fuel generalizing s with
  | zero =>
    exact ⟨(List.nodup_append.mp h.nodup).1, fun k hk => h.keys_of k (List.mem_append_left _ hk)⟩
  | succ fuel ih =>
    rw [KahnQueue.loop]
    split
    · exact ⟨(List.nodup_append.mp h.nodup).1,
        fun k hk => h.keys_of k (List.mem_append_left _ hk)⟩
    · rename_i cur rest hqueue
      -- moving the head of the queue to the order keeps the two together as they are
      have hsame : (s.order ++ [cur]) ++ rest = s.order ++ s.queue := by
        rw [hqueue, List.append_assoc, List.singleton_append]
      have hmoved : Inv keys { s with order := s.order ++ [cur], queue := rest } := by
        refine ⟨?_, ?_, ?_⟩
        · show ((s.order ++ [cur]) ++ rest).Nodup
          rw [hsame]
          exact h.nodup
        · intro k hk
          exact h.keys_of k (hsame ▸ hk)
        · intro k hk
          exact h.indegree k (hsame ▸ hk)
      refine ih (hmoved.foldl_release ?_)
      intro k hk
      obtain ⟨e, he, rfl⟩ := List.mem_map.mp hk
      exact hedges e (List.mem_of_mem_filter he)

theorem Inv.start (hkeys : keys.Nodup) :
    Inv keys ⟨[], keys.filter fun k => ((edges.filter (·.2 = k)).length : Int) = 0,
      fun k => ((edges.filter (·.2 = k)).length : Int)⟩ := by
  refine ⟨?_, ?_, ?_⟩
  · exact hkeys.filter _
  · intro k hk
    exact List.mem_of_mem_filter hk
  · intro k hk
    have hzero := (List.mem_filter.mp hk).2
    exact Int.le_of_eq (of_decide_eq_true hzero)

theorem order_nodup (hkeys : keys.Nodup) (hedges : ∀ e ∈ edges, e.2 ∈ keys) :
    (order keys edges).Nodup :=
  ((Inv.start hkeys).loop hedges _).1

theorem order_subset (hkeys : keys.Nodup) (hedges : ∀ e ∈ edges, e.2 ∈ keys) {k : α}
    (hk : k ∈ order keys edges) : k ∈ keys :=
  ((Inv.start hkeys).loop hedges _).2 k hk

/-- An order as long as the list of keys has them all. -/
theorem mem_order (hkeys : keys.Nodup) (hedges : ∀ e ∈ edges, e.2 ∈ keys)
    (hlen : (order keys edges).length = keys.length) {k : α} :
    k ∈ order keys edges ↔ k ∈ keys := by
  have hperm : (order keys edges).Subperm keys :=
    List.subperm_of_subset (order_nodup hkeys hedges) fun _ hj => order_subset hkeys hedges hj
  exact (hperm.perm_of_length_le (Nat.le_of_eq hlen.symm)).mem_iff

end WorkflowBoard.KahnQueue
