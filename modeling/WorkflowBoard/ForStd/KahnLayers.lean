import Mathlib.Data.Set.Finite.List
import WorkflowBoard.ForStd.Acyclic
import WorkflowBoard.ForStd.Kahn

/-!
# The layers of Kahn's algorithm

The layer of a key is the length of its longest chain of dependencies. If the dependencies are
acyclic, the algorithm places layer after layer, each in the order of the keys, and it stops after
at most one round for each key on every input.

The results are for distinct keys whose dependency lists have no repetition.
-/

namespace WorkflowBoard.Kahn

universe u

open Relation (TransGen)

variable {α : Type u}

/-- A key is one layer above the highest of its dependencies, or in layer `0`. -/
def Layering (keys : List α) (deps : α → List α) (layer : α → Nat) : Prop :=
  ∀ k ∈ keys, layer k = ((deps k).map (layer · + 1)).foldr max 0

/-- The key depends on another. -/
def DependsOn (keys : List α) (deps : α → List α) (k d : α) : Prop := k ∈ keys ∧ d ∈ deps k

variable {keys : List α} {deps : α → List α} {layer : α → Nat}

/-! ## Layers -/

variable {n : Nat}

theorem le_foldr_max {l : List Nat} (h : n ∈ l) : n ≤ l.foldr max 0 := by
  induction l with
  | nil => cases h
  | cons m l ih =>
    rw [List.foldr_cons]
    rcases List.mem_cons.mp h with rfl | h
    · exact Nat.le_max_left _ _
    · exact (ih h).trans (Nat.le_max_right _ _)

theorem foldr_max_cases (l : List Nat) : l.foldr max 0 = 0 ∨ l.foldr max 0 ∈ l := by
  induction l with
  | nil => exact .inl rfl
  | cons m l ih =>
    rw [List.foldr_cons]
    rcases Nat.le_total m (l.foldr max 0) with hle | hle
    · rw [Nat.max_eq_right hle]
      exact ih.imp_right (List.mem_cons_of_mem _)
    · rw [Nat.max_eq_left hle]
      exact .inr List.mem_cons_self

namespace Layering

section

variable (h : Layering keys deps layer)
include h

theorem lt {k d : α} (hk : k ∈ keys) (hd : d ∈ deps k) :
    layer d < layer k := by
  rw [h k hk]
  exact le_foldr_max (List.mem_map.mpr ⟨d, hd, rfl⟩)

theorem cases {k : α} (hk : k ∈ keys) :
    layer k = 0 ∨ ∃ d ∈ deps k, layer k = layer d + 1 := by
  rw [h k hk]
  refine (foldr_max_cases _).imp_right fun hmem => ?_
  obtain ⟨d, hd, heq⟩ := List.mem_map.mp hmem
  exact ⟨d, hd, heq.symm⟩

theorem acyclic : Acyclic (DependsOn keys deps) :=
  acyclic_of_rank fun _ _ hdep => h.lt hdep.1 hdep.2

theorem none_above (hsub : ∀ k ∈ keys, ∀ d ∈ deps k, d ∈ keys)
    {n : Nat} (hnone : ∀ k ∈ keys, layer k ≠ n) {k : α} (hk : k ∈ keys) : layer k < n := by
  suffices hall : ∀ m, ∀ k ∈ keys, layer k ≠ n + m by
    rcases Nat.lt_or_ge (layer k) n with hlt | hge
    · exact hlt
    · exact absurd (by omega) (hall (layer k - n) k hk)
  intro m
  induction m with
  | zero => exact hnone
  | succ m ih =>
    intro k hk heq
    rcases h.cases hk with hzero | ⟨d, hd, hlayer⟩
    · omega
    · exact ih d (hsub k hk d hd) (by omega)

theorem lt_length (hsub : ∀ k ∈ keys, ∀ d ∈ deps k, d ∈ keys) {k : α}
    (hk : k ∈ keys) : layer k < keys.length := by
  have hall : List.range (layer k + 1) ⊆ keys.map layer := by
    intro n hn
    by_contra hnot
    have hnone : ∀ j ∈ keys, layer j ≠ n := fun j hj heq =>
      hnot (List.mem_map.mpr ⟨j, hj, heq⟩)
    have := h.none_above hsub hnone hk
    have := List.mem_range.mp hn
    omega
  have := (List.subperm_of_subset List.nodup_range hall).length_le
  rw [List.length_range, List.length_map] at this
  omega

end

end Layering

/-- The keys of the layers below `n`, layer after layer. -/
def layersBelow (keys : List α) (layer : α → Nat) (n : Nat) : List α :=
  (List.range n).flatMap fun m => keys.filter fun k => layer k = m

theorem mem_layersBelow {k : α} :
    k ∈ layersBelow keys layer n ↔ k ∈ keys ∧ layer k < n := by
  simp [layersBelow, and_comm]

theorem layersBelow_succ (n : Nat) : layersBelow keys layer (n + 1) =
    layersBelow keys layer n ++ keys.filter fun k => layer k = n := by
  simp [layersBelow, List.range_succ]

theorem layersBelow_eq {m n : Nat} (hm : ∀ k ∈ keys, layer k < m) (hn : m ≤ n) :
    layersBelow keys layer n = layersBelow keys layer m := by
  induction n, hn using Nat.le_induction with
  | base => rfl
  | succ n hn ih =>
    rw [layersBelow_succ, ih, List.filter_eq_nil_iff.mpr, List.append_nil]
    intro k hk
    have := hm k hk
    simp only [decide_eq_true_eq]
    omega

variable [DecidableEq α]

/-- An order with each key after its dependencies gives the keys their layers. -/
theorem exists_layering_of_closed {ordered : List α} (hnodup : ordered.Nodup)
    (hclosed : ∀ l₁ a l₂, ordered = l₁ ++ a :: l₂ → ∀ d ∈ deps a, d ∈ l₁) :
    ∃ layer, Layering ordered deps layer := by
  induction ordered using List.reverseRecOn with
  | nil => exact ⟨fun _ => 0, nofun⟩
  | append_singleton ordered x ih =>
    obtain ⟨hord, _, hdisjoint⟩ := List.nodup_append.mp hnodup
    have hx : x ∉ ordered := fun hmem => hdisjoint x hmem x List.mem_cons_self rfl
    have hdepsx : ∀ d ∈ deps x, d ∈ ordered := hclosed ordered x [] rfl
    obtain ⟨layer, hlayer⟩ := ih hord fun l₁ a l₂ heq =>
      hclosed l₁ a (l₂ ++ [x]) (by rw [heq, List.append_assoc, List.cons_append])
    let top := ((deps x).map (layer · + 1)).foldr max 0
    -- No key before `x` depends on it.
    have hold : ∀ d, d ∈ ordered → Function.update layer x top d = layer d := by
      intro d hd
      have hne : d ≠ x := fun heq => hx (heq ▸ hd)
      exact Function.update_of_ne hne _ _
    refine ⟨Function.update layer x top, fun k hk => ?_⟩
    rcases List.mem_append.mp hk with hk | hk
    · obtain ⟨l₁, l₂, heq⟩ := List.append_of_mem hk
      have hbefore : ∀ d ∈ deps k, d ∈ ordered := fun d hd => by
        have hd := hclosed l₁ k (l₂ ++ [x])
          (by rw [heq, List.append_assoc, List.cons_append]) d hd
        exact heq ▸ List.mem_append_left _ hd
      rw [hold k hk, hlayer k hk]
      congr 1
      exact List.map_congr_left fun d hd => by rw [hold d (hbefore d hd)]
    · obtain rfl := List.mem_singleton.mp hk
      have hmap : (deps k).map (Function.update layer k top · + 1) = (deps k).map (layer · + 1) :=
        List.map_congr_left fun d hd => by rw [hold d (hdepsx d hd)]
      rw [Function.update_self, hmap]

/-! ## What is placed -/

/-- In a finite acyclic relation a set whose members each depend on a member is empty. -/
theorem all_placed_of_acyclic (hkeys : keys.Nodup) (hdeps : ∀ k ∈ keys, (deps k).Nodup)
    (hsub : ∀ k ∈ keys, ∀ d ∈ deps k, d ∈ keys) (hacyclic : Acyclic (DependsOn keys deps)) {k : α}
    (hk : k ∈ keys) : k ∈ sort keys deps := by
  let below : {x // x ∈ keys} → {x // x ∈ keys} → Prop :=
    fun d x => TransGen (DependsOn keys deps) x.1 d.1
  have : Finite {x // x ∈ keys} := (List.finite_toSet keys).to_subtype
  have : IsTrans _ below := ⟨fun _ _ _ h h' => h'.trans h⟩
  have : Std.Irrefl below := ⟨fun x h => hacyclic x.1 h⟩
  have hwf : WellFounded below := Finite.wellFounded_of_trans_of_irrefl below
  by_contra hnot
  obtain ⟨x, hx, hmin⟩ :=
    hwf.has_min {x | x.1 ∉ sort keys deps} ⟨⟨k, hk⟩, hnot⟩
  -- A key that is left over waits for another that is.
  have hwait := mt (mem_sort_iff hkeys hdeps x.2).mpr hx
  simp only [not_forall] at hwait
  obtain ⟨d, hd, hdnot⟩ := hwait
  exact hmin ⟨d, hsub x.1 x.2 d hd⟩ hdnot (.single ⟨x.2, hd⟩)

/-- Acyclic dependencies have layers. -/
theorem exists_layering (hkeys : keys.Nodup) (hdeps : ∀ k ∈ keys, (deps k).Nodup)
    (hall : ∀ k ∈ keys, k ∈ sort keys deps) : ∃ layer, Layering keys deps layer := by
  obtain ⟨layer, hlayer⟩ := exists_layering_of_closed (sort_nodup hkeys hdeps)
    fun l₁ a l₂ heq => sort_closed hkeys hdeps heq
  exact ⟨layer, fun k hk => hlayer k (hall k hk)⟩

/-- All keys are placed exactly if the dependencies are acyclic. -/
theorem acyclic_iff_all_placed (hkeys : keys.Nodup) (hdeps : ∀ k ∈ keys, (deps k).Nodup)
    (hsub : ∀ k ∈ keys, ∀ d ∈ deps k, d ∈ keys) :
    Acyclic (DependsOn keys deps) ↔ ∀ k ∈ keys, k ∈ sort keys deps := by
  refine ⟨fun hacyclic k hk => all_placed_of_acyclic hkeys hdeps hsub hacyclic hk, fun hall => ?_⟩
  obtain ⟨layer, hlayer⟩ := exists_layering hkeys hdeps hall
  exact hlayer.acyclic

/-! ## Rounds -/

/-- A round of the loop: the keys that are ready are placed. -/
def round (keys : List α) (deps : α → List α) (x : State α × List α) : State α × List α :=
  let s := x.2.foldl (visit keys deps) x.1
  ({ s with next := [] }, keys.filter (· ∈ s.next))

/-- What the loop starts from. -/
def start (keys : List α) (deps : α → List α) : State α × List α :=
  (⟨[], fun k => (deps k).length, []⟩, keys.filter fun k => (deps k).length = 0)

theorem loop_succ {fuel : Nat} {s : State α} {ready : List α} (hready : ready ≠ []) :
    loop keys deps (fuel + 1) s ready =
      loop keys deps fuel (round keys deps (s, ready)).1 (round keys deps (s, ready)).2 := by
  rw [loop, if_neg hready]
  rfl

/-- After at most one round for each key none is ready. -/
theorem exists_rounds (hkeys : keys.Nodup) (hdeps : ∀ k ∈ keys, (deps k).Nodup) :
    ∃ n ≤ keys.length, ((round keys deps)^[n] (start keys deps)).2 = [] := by
  suffices hrun : ∀ m (x : State α × List α), Inv keys deps x.1 x.2 → x.1.next = [] →
      keys.length ≤ x.1.ordered.length + m → ∃ n ≤ m, ((round keys deps)^[n] x).2 = [] by
    obtain ⟨n, hn, hend⟩ := hrun keys.length (start keys deps) (Inv.start hkeys) rfl
      (Nat.le_add_left _ _)
    exact ⟨n, hn, hend⟩
  intro m
  induction m with
  | zero =>
    intro x h hnext hlen
    refine ⟨0, Nat.le_refl _, ?_⟩
    -- All keys are placed, so that none is left to be ready.
    have hplaced : (x.1.ordered ++ (x.2 ++ x.1.next)).length ≤ keys.length :=
      (List.subperm_of_subset h.nodup h.keys_of).length_le
    rw [List.length_append, List.length_append] at hplaced
    have hempty : x.2.length = 0 := by omega
    exact List.length_eq_zero_iff.mp hempty
  | succ m ih =>
    intro x h hnext hlen
    by_cases hready : x.2 = []
    · exact ⟨0, Nat.zero_le _, hready⟩
    · have hpos : 0 < x.2.length := List.length_pos_iff.mpr hready
      have hordered : (round keys deps x).1.ordered = x.1.ordered ++ x.2 :=
        ordered_foldl_visit hkeys x.1 x.2
      obtain ⟨n, hn, hend⟩ := ih (round keys deps x)
        ((h.foldl_visit hkeys hdeps).next_round hkeys) rfl
        (by rw [hordered, List.length_append]; omega)
      exact ⟨n + 1, by omega, by rwa [Function.iterate_succ_apply]⟩

/-- The keys of a round are those of the next layer. -/
theorem next_layer (hsub : ∀ k ∈ keys, ∀ d ∈ deps k, d ∈ keys) (hlayer : Layering keys deps layer)
    {s : State α} (h : Inv keys deps s []) (hord : s.ordered = layersBelow keys layer n) :
    keys.filter (· ∈ s.next) = keys.filter fun k => layer k = n := by
  refine List.filter_congr fun k hk => ?_
  rw [decide_eq_decide]
  have hplaced : ∀ d, d ∈ s.ordered ↔ d ∈ keys ∧ layer d < n := fun d => by
    rw [hord, mem_layersBelow]
  have hzero := h.none_missing k hk
  rw [missing_eq_zero, List.nil_append, List.mem_append] at hzero
  constructor
  · intro hnext
    have hnot : k ∉ s.ordered := fun hin =>
      (List.nodup_append.mp h.nodup).2.2 k hin k (List.mem_append_right _ hnext) rfl
    have hge : n ≤ layer k := Nat.le_of_not_lt fun hlt => hnot ((hplaced k).mpr ⟨hk, hlt⟩)
    rcases hlayer.cases hk with heq | ⟨d, hd, heq⟩
    · omega
    · have := ((hplaced d).mp (hzero.mpr (.inr hnext) d hd)).2
      omega
  · intro heq
    refine (hzero.mp fun d hd => ?_).resolve_left fun hin => ?_
    · exact (hplaced d).mpr ⟨hsub k hk d hd, heq ▸ hlayer.lt hk hd⟩
    · have := ((hplaced k).mp hin).2
      omega

theorem loop_layers (hkeys : keys.Nodup) (hdeps : ∀ k ∈ keys, (deps k).Nodup)
    (hsub : ∀ k ∈ keys, ∀ d ∈ deps k, d ∈ keys) (hlayer : Layering keys deps layer) {fuel n : Nat}
    {s : State α} {ready : List α} (h : Inv keys deps s ready)
    (hord : s.ordered = layersBelow keys layer n)
    (hready : ready = keys.filter fun k => layer k = n)
    (hfuel : keys.length < s.ordered.length + fuel) :
    ∃ m, (∀ k ∈ keys, layer k < m) ∧ loop keys deps fuel s ready = layersBelow keys layer m := by
  induction fuel generalizing s ready n with
  | zero =>
    have hlen : s.ordered.length ≤ keys.length :=
      (List.subperm_of_subset (List.nodup_append.mp h.nodup).1
        fun k hk => h.keys_of k (List.mem_append_left _ hk)).length_le
    omega
  | succ fuel ih =>
    by_cases hempty : ready = []
    · refine ⟨n, fun k hk => ?_, ?_⟩
      · have hnone := List.filter_eq_nil_iff.mp (hready.symm.trans hempty)
        exact hlayer.none_above hsub (fun k hk heq => hnone k hk (by simpa using heq)) hk
      · rw [loop, if_pos hempty, hord]
    · have hpos : 0 < ready.length := List.length_pos_iff.mpr hempty
      have hplaced : (round keys deps (s, ready)).1.ordered = s.ordered ++ ready :=
        ordered_foldl_visit hkeys s ready
      have hround := h.foldl_visit hkeys hdeps
      have hbelow : (ready.foldl (visit keys deps) s).ordered = layersBelow keys layer (n + 1) := by
        rw [ordered_foldl_visit hkeys, layersBelow_succ, hord, hready]
      rw [loop_succ hempty]
      refine ih (n := n + 1) (hround.next_round hkeys) hbelow ?_ ?_
      · exact next_layer hsub hlayer hround hbelow
      · rw [hplaced, List.length_append]
        omega

/-- The order is the layers, one after the other. -/
theorem sort_eq_layers (hkeys : keys.Nodup) (hdeps : ∀ k ∈ keys, (deps k).Nodup)
    (hsub : ∀ k ∈ keys, ∀ d ∈ deps k, d ∈ keys) (hlayer : Layering keys deps layer)
    (hn : ∀ k ∈ keys, layer k < n) : sort keys deps = layersBelow keys layer n := by
  have hfirst : (keys.filter fun k => (deps k).length = 0) = keys.filter fun k => layer k = 0 := by
    refine List.filter_congr fun k hk => ?_
    rw [decide_eq_decide, List.length_eq_zero_iff]
    refine ⟨fun hnil => by rw [hlayer k hk, hnil]; rfl, fun hzero => ?_⟩
    rw [List.eq_nil_iff_forall_not_mem]
    intro d hd
    have := hlayer.lt hk hd
    omega
  have hfuel : keys.length < 0 + (keys.length + 1) := by omega
  obtain ⟨m, hm, hloop⟩ :=
    loop_layers (n := 0) hkeys hdeps hsub hlayer (Inv.start hkeys) rfl hfirst hfuel
  rw [sort, hloop, ← layersBelow_eq hm (Nat.le_max_left m n),
    layersBelow_eq hn (Nat.le_max_right m n)]

end WorkflowBoard.Kahn
