import Mathlib.Data.List.Basic

/-!
# Search by levels, from one end or from both

Runs of `n` steps along a relation, the distance from one vertex to another, and the balls that a
search by levels computes. A ball is given by the depths the search has noted and by its frontier.
-/

namespace WorkflowBoard

universe u

variable {α : Type u} {R : α → α → Prop} {s t u v w : α} {k m n d e : Nat}

/-- `n` steps lead from `u` to `v`. -/
def Steps (R : α → α → Prop) : Nat → α → α → Prop
  | 0, u, v => u = v
  | n + 1, u, v => ∃ w, Steps R n u w ∧ R w v

namespace Steps

theorem add (h₁ : Steps R m u w) (h₂ : Steps R n w v) : Steps R (m + n) u v := by
  induction n generalizing v with
  | zero =>
    obtain rfl := h₂
    exact h₁
  | succ n ih =>
    obtain ⟨x, hx, hxv⟩ := h₂
    exact ⟨x, ih hx, hxv⟩

theorem split (h : Steps R (m + n) u v) : ∃ w, Steps R m u w ∧ Steps R n w v := by
  induction n generalizing v with
  | zero => exact ⟨v, h, rfl⟩
  | succ n ih =>
    obtain ⟨x, hx, hxv⟩ := h
    obtain ⟨w, hw, hwx⟩ := ih hx
    exact ⟨w, hw, x, hwx, hxv⟩

theorem one (h : R u v) : Steps R 1 u v := ⟨u, rfl, h⟩

/-- The steps of the other direction, taken backwards. -/
theorem backward (h : Steps R n u v) : Steps (flip R) n v u := by
  induction n generalizing v with
  | zero => exact Eq.symm h
  | succ n ih =>
    obtain ⟨x, hx, hxv⟩ := h
    have hone : Steps (flip R) 1 v x := one hxv
    have hback := hone.add (ih hx)
    rwa [Nat.add_comm] at hback

end Steps

/-- The fewest steps from `u` to `v` are `n`. -/
structure IsDist (R : α → α → Prop) (u v : α) (n : Nat) : Prop where
  steps : Steps R n u v
  least : ∀ m < n, ¬Steps R m u v

theorem IsDist.unique (h : IsDist R u v m) (h' : IsDist R u v n) : m = n := by
  obtain hlt | rfl | hgt := Nat.lt_trichotomy m n
  · exact absurd h.steps (h'.least m hlt)
  · rfl
  · exact absurd h'.steps (h.least n hgt)

/-- Distances of the other direction are distances. -/
theorem IsDist.backward (h : IsDist (flip R) v u n) : IsDist R u v n :=
  ⟨h.steps.backward, fun m hm hsteps => h.least m hm hsteps.backward⟩

theorem Steps.exists_isDist (h : Steps R n u v) : ∃ k ≤ n, IsDist R u v k := by
  induction n using Nat.strongRecOn generalizing v with
  | ind n ih =>
    by_cases hshort : ∃ m < n, Steps R m u v
    · obtain ⟨m, hm, hsteps⟩ := hshort
      obtain ⟨k, hk, hdist⟩ := ih m hm hsteps
      exact ⟨k, by omega, hdist⟩
    · exact ⟨n, Nat.le_refl n, h, fun m hm hsteps => hshort ⟨m, hm, hsteps⟩⟩

/-- A shortest run stays shortest up to each of its vertices. -/
theorem IsDist.split (h : IsDist R u v (m + n)) : ∃ w, IsDist R u w m ∧ Steps R n w v := by
  obtain ⟨w, hw, hwv⟩ := h.steps.split
  refine ⟨w, ⟨hw, fun k hk hshort => ?_⟩, hwv⟩
  exact h.least (k + n) (by omega) (hshort.add hwv)

/-! ## Balls -/

/-- The depths noted are the distances from `s` up to `d`, and the frontier is the last level. -/
structure Ball (R : α → α → Prop) (s : α) (depth : α → Option Nat) (frontier : List α) (d : Nat) :
    Prop where
  depth : ∀ v k, depth v = some k ↔ IsDist R s v k ∧ k ≤ d
  frontier : ∀ v, v ∈ frontier ↔ IsDist R s v d

variable {depth depth' : α → Option Nat} {frontier frontier' : List α}

theorem Ball.start (hdepth : ∀ v k, depth v = some k ↔ v = s ∧ k = 0)
    (hfrontier : ∀ v, v ∈ frontier ↔ v = s) : Ball R s depth frontier 0 := by
  have hzero : ∀ v, IsDist R s v 0 ↔ v = s := fun v =>
    ⟨fun h => Eq.symm h.steps, fun h => ⟨Eq.symm h, fun m hm => absurd hm (by omega)⟩⟩
  constructor
  · intro v k
    rw [hdepth]
    constructor
    · rintro ⟨hv, rfl⟩
      exact ⟨(hzero v).mpr hv, Nat.le_refl 0⟩
    · rintro ⟨hv, hk⟩
      obtain rfl := Nat.le_zero.mp hk
      exact ⟨(hzero v).mp hv, rfl⟩
  · intro v
    rw [hfrontier, hzero]

/-- The next level: the successors of the frontier that have no depth yet. -/
theorem Ball.isDist_succ (h : Ball R s depth frontier d) (v : α) :
    IsDist R s v (d + 1) ↔ depth v = none ∧ ∃ u ∈ frontier, R u v := by
  constructor
  · intro hdist
    constructor
    · cases hk : depth v with
      | none => rfl
      | some k =>
        obtain ⟨hdist', hle⟩ := (h.depth v k).mp hk
        have := hdist.unique hdist'
        omega
    · obtain ⟨u, hu, hstep⟩ := hdist.split (n := 1)
      obtain ⟨x, rfl, hux⟩ := hstep
      exact ⟨u, (h.frontier u).mpr hu, hux⟩
  · rintro ⟨hnone, u, hu, huv⟩
    refine ⟨⟨u, ((h.frontier u).mp hu).steps, huv⟩, fun m hm hsteps => ?_⟩
    obtain ⟨k, hk, hdist⟩ := hsteps.exists_isDist
    have hsome := (h.depth v k).mpr ⟨hdist, by omega⟩
    rw [hnone] at hsome
    cases hsome

/-- A ball with its successors noted is the next ball. -/
theorem Ball.next (h : Ball R s depth frontier d)
    (hdepth : ∀ v k, depth' v = some k ↔
      depth v = some k ∨ (k = d + 1 ∧ depth v = none ∧ ∃ u ∈ frontier, R u v))
    (hfrontier : ∀ v, v ∈ frontier' ↔ depth v = none ∧ ∃ u ∈ frontier, R u v) :
    Ball R s depth' frontier' (d + 1) := by
  constructor
  · intro v k
    rw [hdepth, h.depth, ← h.isDist_succ]
    constructor
    · rintro (⟨hdist, hk⟩ | ⟨rfl, hdist⟩)
      · exact ⟨hdist, by omega⟩
      · exact ⟨hdist, Nat.le_refl _⟩
    · rintro ⟨hdist, hk⟩
      obtain hk | rfl := Nat.lt_or_eq_of_le hk
      · exact .inl ⟨hdist, by omega⟩
      · exact .inr ⟨rfl, hdist⟩
  · intro v
    rw [hfrontier, ← h.isDist_succ]

theorem Ball.none_beyond (h : Ball R s depth [] d) (hle : ∀ m ≤ d, ¬Steps R m s t) :
    ¬Steps R n s t := by
  intro hsteps
  obtain ⟨k, -, hdist⟩ := hsteps.exists_isDist
  have hk : d ≤ k := by
    by_contra hlt
    exact hle k (by omega) hdist.steps
  obtain ⟨j, rfl⟩ := Nat.exists_eq_add_of_le hk
  obtain ⟨w, hw, -⟩ := hdist.split
  exact absurd ((h.frontier w).mpr hw) (List.not_mem_nil)

/-! ## Two balls -/

section Meet

variable {front : List α} {back : List α} {depthF depthB : α → Option Nat}
  (hf : Ball R s depthF front d) (hb : Ball (flip R) t depthB back e)
  (hapart : ∀ m ≤ d + e, ¬Steps R m s t)
include hf hb hapart

theorem Ball.disjoint (hv : depthF v = some k) : depthB v = none := by
  cases hm : depthB v with
  | none => rfl
  | some m =>
    obtain ⟨hdist, hk⟩ := (hf.depth v k).mp hv
    obtain ⟨hdist', hm⟩ := (hb.depth v m).mp hm
    exact absurd (hdist.steps.add hdist'.steps.backward) (hapart (k + m) (by omega))

/-- A step from the frontier of one ball into the other one is on a shortest run. -/
theorem Ball.eq_of_meet (hu : u ∈ front) (huv : R u v) (hv : depthB v = some k) :
    k = e ∧ IsDist R s t (d + 1 + e) := by
  obtain ⟨hdist, hk⟩ := (hb.depth v k).mp hv
  have hsteps : Steps R (d + 1 + k) s t :=
    (((hf.frontier u).mp hu).steps.add (.one huv)).add hdist.steps.backward
  have hke : k = e := by
    by_contra hne
    exact hapart (d + 1 + k) (by omega) hsteps
  subst hke
  exact ⟨rfl, hsteps, fun m hm => hapart m (by omega)⟩

/-- If the next level reaches, there is such a step. -/
theorem Ball.exists_meet (h : Steps R (d + 1 + e) s t) :
    ∃ u ∈ front, ∃ v, R u v ∧ depthB v = some e := by
  have hdist : IsDist R s t (d + (1 + e)) := by
    rw [← Nat.add_assoc]
    exact ⟨h, fun m hm => hapart m (by omega)⟩
  obtain ⟨u, hu, hsteps⟩ := hdist.split
  obtain ⟨v, ⟨x, rfl, huv⟩, hvt⟩ := hsteps.split
  refine ⟨u, (hf.frontier u).mpr hu, v, huv, (hb.depth v e).mpr ⟨⟨hvt.backward, ?_⟩, Nat.le_refl e⟩⟩
  intro m hm hshort
  exact hdist.least (d + (1 + m)) (by omega)
    (hu.steps.add ((Steps.one huv).add hshort.backward))

end Meet

end WorkflowBoard
