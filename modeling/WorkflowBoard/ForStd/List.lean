import Mathlib.Algebra.Ring.Nat
import Mathlib.Data.List.Nodup

/-!
# Entries of an updated list

Tables whose rows are numbered by position are lists. These lemmas say where a row of an
updated table comes from: it is the row that was added or changed, or a row of the old table.
-/

namespace WorkflowBoard

universe u

variable {α : Type u} {l : List α} {a b : α} {i j : Nat}

/-- A row of `l ++ [a]` is a row of `l` or the new one. -/
theorem getElem?_append_cases (h : (l ++ [a])[i]? = some b) :
    l[i]? = some b ∨ (i = l.length ∧ b = a) := by
  by_cases hi : i < l.length
  · rw [List.getElem?_append_left hi] at h
    exact .inl h
  · rw [List.getElem?_append_right (by omega), List.getElem?_singleton] at h
    split at h
    · exact .inr ⟨by omega, (Option.some.inj h).symm⟩
    · cases h

/-- A row has its place within the list. -/
theorem lt_of_getElem? (h : l[i]? = some a) : i < l.length := (List.getElem?_eq_some_iff.mp h).1

/-- A row stays at its place when another one is added. -/
theorem getElem?_append_of_some (h : l[i]? = some b) (a : α) : (l ++ [a])[i]? = some b :=
  (List.getElem?_append_left (lt_of_getElem? h)).trans h

/-- A row that replaces another one has its place. -/
theorem getElem?_set_self (h : l[i]? = some b) : (l.set i a)[i]? = some a :=
  List.getElem?_set_self (lt_of_getElem? h)

variable {f : α → α} {β : Type*}

/-- A row of a modified list is the modified row or an untouched one. -/
theorem getElem?_modify_cases (h : (l.modify i f)[j]? = some b) :
    (i = j ∧ ∃ a, l[j]? = some a ∧ b = f a) ∨ (i ≠ j ∧ l[j]? = some b) := by
  rw [List.getElem?_modify] at h
  obtain ⟨a, ha, hb⟩ := Option.map_eq_some_iff.mp h
  by_cases hij : i = j
  · rw [if_pos hij] at hb
    exact .inl ⟨hij, a, ha, hb.symm⟩
  · rw [if_neg hij] at hb
    exact .inr ⟨hij, hb ▸ ha⟩

theorem getElem?_modify_self (h : l[i]? = some a) :
    (l.modify i f)[i]? = some (f a) := by
  rw [List.getElem?_modify, h]
  simp

theorem getElem?_modify_other (hij : i ≠ j) : (l.modify i f)[j]? = l[j]? := by
  rw [List.getElem?_modify]
  simp [hij]

theorem modify_eq_self_of_fixed (h : ∀ a, l[i]? = some a → f a = a) :
    l.modify i f = l := by
  refine List.ext_getElem? fun j => ?_
  by_cases hij : i = j
  · subst hij
    cases hi : l[i]? with
    | none =>
      rw [List.getElem?_modify, hi]
      rfl
    | some a => rw [getElem?_modify_self hi, h a hi]
  · exact getElem?_modify_other hij

theorem pairwise_iff_getElem? {R : α → α → Prop} :
    l.Pairwise R ↔ ∀ (i j : Nat) (a b : α), i < j → l[i]? = some a → l[j]? = some b → R a b := by
  rw [List.pairwise_iff_getElem]
  constructor
  · intro h i j a b hij ha hb
    obtain ⟨hi, rfl⟩ := List.getElem?_eq_some_iff.mp ha
    obtain ⟨hj, rfl⟩ := List.getElem?_eq_some_iff.mp hb
    exact h i j hi hj hij
  · intro h i j hi hj hij
    exact h i j _ _ hij (List.getElem?_eq_getElem hi) (List.getElem?_eq_getElem hj)

/-- A row of `l.set i a` is the new one or an untouched one. -/
theorem getElem?_set_cases (h : (l.set i a)[j]? = some b) :
    (i = j ∧ b = a) ∨ (i ≠ j ∧ l[j]? = some b) := by
  by_cases hij : i = j
  · subst hij
    have hlt : i < l.length := by
      have := lt_of_getElem? h
      rwa [List.length_set] at this
    rw [List.getElem?_set_self hlt] at h
    exact .inl ⟨rfl, (Option.some.inj h).symm⟩
  · rw [List.getElem?_set_ne hij] at h
    exact .inr ⟨hij, h⟩

/-- No two rows have the same key. -/
def KeysApart {κ : Type*} (key : α → Option κ) (l : List α) : Prop :=
  ∀ (i j : Nat) (a b : α) (k : κ), l[i]? = some a → l[j]? = some b →
    key a = some k → key b = some k → i = j

section KeysApart

variable {κ : Type*} {key : α → Option κ}

/-- A new row has the key of the old one, or one that no row has. -/
theorem KeysApart.set (h : KeysApart key l) (hi : l[i]? = some b)
    (hkey : ∀ k, key a = some k → key b = some k ∨
      ∀ (j : Nat) (c : α), l[j]? = some c → key c ≠ some k) : KeysApart key (l.set i a) := by
  have hother : ∀ (j : Nat) (c : α) (k : κ), i ≠ j → l[j]? = some c → key a = some k →
      key c ≠ some k := by
    intro j c k hij hj ha hc
    obtain hold | hnone := hkey k ha
    · exact hij (h i j b c k hi hj hold hc)
    · exact hnone j c hj hc
  intro j j' c c' k hj hj' hc hc'
  obtain ⟨rfl, rfl⟩ | ⟨hij, hold⟩ := getElem?_set_cases hj <;>
    obtain ⟨rfl, rfl⟩ | ⟨hij', hold'⟩ := getElem?_set_cases hj'
  · rfl
  · exact absurd hc' (hother j' c' k hij' hold' hc)
  · exact absurd hc (hother j c k hij hold hc')
  · exact h j j' c c' k hold hold' hc hc'

end KeysApart

/-- Replacing one row moves a count by that row only. -/
theorem countP_set_add (h : l[i]? = some a) (p : α → Bool) :
    (l.set i b).countP p + (if p a = true then 1 else 0) =
      l.countP p + (if p b = true then 1 else 0) := by
  obtain ⟨hi, ha⟩ := List.getElem?_eq_some_iff.mp h
  rw [List.countP_set hi, ha]
  by_cases hp : p a = true
  · have hpos : 0 < l.countP p := List.countP_pos_iff.mpr ⟨a, List.mem_of_getElem? h, hp⟩
    simp only [if_pos hp]
    omega
  · simp only [if_neg hp]
    omega

/-- Replacing one row moves a sum by that row only. -/
theorem sum_map_set_add (h : l[i]? = some a) (f : α → Nat) :
    ((l.set i b).map f).sum + f a = (l.map f).sum + f b := by
  induction l generalizing i with
  | nil => simp at h
  | cons c l ih =>
    cases i with
    | zero =>
      cases h
      simp [Nat.add_comm, Nat.add_left_comm]
    | succ i =>
      have ih := ih (i := i) (by simpa using h)
      simp only [List.set_cons_succ, List.map_cons, List.sum_cons]
      omega

/-- A row that is replaced by one that looks the same to `f`. -/
theorem map_set_of_eq {f : α → β} (h : l[i]? = some a) (hf : f b = f a) :
    (l.set i b).map f = l.map f := by
  obtain ⟨hi, rfl⟩ := List.getElem?_eq_some_iff.mp h
  rw [List.map_set, hf, ← List.getElem_map f (h := by simpa using hi), List.set_getElem_self]

theorem map_modify_of_eq {f : α → β} {g : α → α} (hf : ∀ a, f (g a) = f a) :
    (l.modify i g).map f = l.map f := by
  cases h : l[i]? with
  | none => rw [List.modify_eq_self (by simpa using h)]
  | some a =>
    obtain ⟨hi, rfl⟩ := List.getElem?_eq_some_iff.mp h
    rw [List.modify_eq_set_getElem?, h]
    exact map_set_of_eq h (hf _)

/-- A sum over rows that weigh at most `m`, those that do not count nothing. -/
theorem sum_map_le_countP {f : α → Nat} {p : α → Bool} {m : Nat}
    (h : ∀ a ∈ l, f a ≤ if p a = true then m else 0) : (l.map f).sum ≤ m * l.countP p := by
  induction l with
  | nil => simp
  | cons a l ih =>
    have ih := ih fun b hb => h b (List.mem_cons_of_mem a hb)
    have ha := h a List.mem_cons_self
    rw [List.map_cons, List.sum_cons, List.countP_cons]
    split at ha
    · rw [if_pos ‹_›, Nat.mul_add]
      omega
    · rw [if_neg ‹_›, Nat.add_zero]
      omega

/-- A test that holds on less, and fails on some entry the other holds on, counts less. -/
theorem countP_lt_countP {p q : α → Bool} (hsub : ∀ x ∈ l, q x = true → p x = true) (ha : a ∈ l)
    (hp : p a = true) (hq : q a = false) : l.countP q < l.countP p := by
  induction l with
  | nil => simp at ha
  | cons x l ih =>
    have hle : l.countP q ≤ l.countP p :=
      List.countP_mono_left fun y hy => hsub y (List.mem_cons_of_mem _ hy)
    have hx := hsub x List.mem_cons_self
    rw [List.countP_cons, List.countP_cons]
    obtain rfl | ha := List.mem_cons.mp ha
    · rw [if_pos hp, if_neg (by simp [hq])]
      omega
    · have hlt := ih (fun y hy => hsub y (List.mem_cons_of_mem _ hy)) ha
      by_cases hqx : q x = true
      · rw [if_pos hqx, if_pos (hx hqx)]
        omega
      · rw [if_neg hqx]
        omega

/-- A list whose entries that pass a test sit at one position has at most one of them. -/
theorem length_filter_le_one {p : α → Bool}
    (h : ∀ (i j : Nat) (a b : α), l[i]? = some a → l[j]? = some b → p a = true → p b = true →
      i = j) : (l.filter p).length ≤ 1 := by
  induction l with
  | nil => simp
  | cons x l ih =>
    have htail := ih fun i j a b ha hb hpa hpb =>
      Nat.succ.inj (h (i + 1) (j + 1) a b (by simpa using ha) (by simpa using hb) hpa hpb)
    by_cases hx : p x = true
    · have hnone : l.filter p = [] := by
        rw [List.filter_eq_nil_iff]
        intro y hy hpy
        obtain ⟨j, hj⟩ := List.getElem?_of_mem hy
        have hzero := h 0 (j + 1) x y (by simp) (by simpa using hj) hx hpy
        omega
      rw [List.filter_cons_of_pos hx, hnone]
      simp
    · rw [List.filter_cons_of_neg hx]
      exact htail

/-- The last elements of two related lists are related. -/
theorem forall₂_concat_right {R : α → β → Prop} {bs : List β} {b : β}
    (h : List.Forall₂ R l (bs ++ [b])) :
    ∃ as a, l = as ++ [a] ∧ List.Forall₂ R as bs ∧ R a b := by
  have hdrop := List.forall₂_drop_append l bs [b] h
  obtain ⟨a, as, hab, has, hl⟩ := List.forall₂_cons_right_iff.mp hdrop
  obtain rfl := List.forall₂_nil_right_iff.mp has
  exact ⟨l.take bs.length, a, by rw [← hl, List.take_append_drop],
    List.forall₂_take_append l bs [b] h, hab⟩

theorem filterMap_concat (l : List α) (a : α) (f : α → Option β) :
    (l ++ [a]).filterMap f = l.filterMap f ++ (f a).toList := by
  rw [List.filterMap_append]
  cases h : f a with
  | none => simp [h]
  | some b => simp [h]

/-- What `find?` finds is still found after other elements have gone. -/
theorem find?_filter_of_found {p q : α → Bool} (hkeep : ∀ a, l.find? q = some a → p a = true) :
    (l.filter p).find? q = l.find? q := by
  induction l with
  | nil => rfl
  | cons x l ih =>
    by_cases hq : q x = true
    · have hx : p x = true := hkeep x (by simp [hq])
      simp [hq, hx]
    · have htail := ih fun a ha => hkeep a (by simp [hq, ha])
      by_cases hx : p x = true
      · rw [List.filter_cons_of_pos hx, List.find?_cons_of_neg hq, List.find?_cons_of_neg hq,
          htail]
      · rw [List.filter_cons_of_neg hx, List.find?_cons_of_neg hq, htail]

/-- Where keys are unique, a search by key finds the entry that has it. -/
theorem find?_key_eq_some {κ : Type*} [DecidableEq κ] {key : α → κ} {k : κ}
    (hkeys : (l.map key).Nodup) (ha : a ∈ l) (hk : key a = k) :
    l.find? (fun x => key x = k) = some a := by
  cases hfind : l.find? (fun x => key x = k) with
  | none =>
    have hnot := List.find?_eq_none.mp hfind a ha
    exact absurd (decide_eq_true hk) hnot
  | some b =>
    have hb : key b = k := by simpa using List.find?_some hfind
    have hmem := List.mem_of_find?_eq_some hfind
    rw [List.inj_on_of_nodup_map hkeys hmem ha (hb.trans hk.symm)]

/-- Where keys are unique, a rewrite of the entries with one key adds at most one to a count. -/
theorem countP_rewrite_le {κ : Type*} [DecidableEq κ] {key : α → κ} {k : κ}
    (hkeys : (l.map key).Nodup) (p : α → Bool) :
    (l.map fun x => if key x = k then f x else x).countP p ≤ l.countP p + 1 := by
  induction l with
  | nil => simp
  | cons x l ih =>
    rw [List.map_cons, List.nodup_cons] at hkeys
    rw [List.map_cons, List.countP_cons, List.countP_cons]
    by_cases hx : key x = k
    · -- the key does not occur again, so the rest of the list is as before
      have hrest : (l.map fun y => if key y = k then f y else y) = l := by
        rw [List.map_congr_left (g := id), List.map_id]
        intro y hy
        rw [if_neg]
        · rfl
        · intro hy'
          apply hkeys.1
          exact List.mem_map.mpr ⟨y, hy, hy'.trans hx.symm⟩
      rw [hrest, if_pos hx]
      by_cases hp : p (f x) = true
      · rw [if_pos hp]
        omega
      · rw [if_neg hp]
        omega
    · have hle := ih hkeys.2
      rw [if_neg hx]
      omega

/-- Replacing the element of a key: the count moves by what the two elements count. -/
theorem countP_replace_key {κ : Type*} [DecidableEq κ] {key : α → κ} {a b : α}
    (hnd : (l.map key).Nodup) (ha : a ∈ l) (p : α → Bool) :
    (l.map fun x => if key x = key a then b else x).countP p + (if p a then 1 else 0) =
      l.countP p + if p b then 1 else 0 := by
  induction l with
  | nil => cases ha
  | cons x l ih =>
    obtain ⟨hx, hl⟩ := List.nodup_cons.mp hnd
    rw [List.map_cons, List.countP_cons, List.countP_cons]
    by_cases hkey : key x = key a
    · -- the keys are distinct, so `x` is the element and the rest keeps its elements
      have hxa : x = a := List.inj_on_of_nodup_map hnd List.mem_cons_self ha hkey
      subst hxa
      have hrest : (l.map fun y => if key y = key x then b else y) = l := by
        conv_rhs => rw [← List.map_id l]
        refine List.map_congr_left fun y hy => if_neg fun hyx => ?_
        exact hx (List.mem_map.mpr ⟨y, hy, hyx⟩)
      rw [if_pos rfl, hrest]
      omega
    · have hal : a ∈ l := by
        cases List.mem_cons.mp ha with
        | inl h => exact absurd (h ▸ rfl) hkey
        | inr h => exact h
      have := ih hl hal
      rw [if_neg hkey]
      omega

theorem nodup_eraseDups [DecidableEq α] (l : List α) : l.eraseDups.Nodup := by
  -- the recursion goes through a filtered tail, so the induction is on the length
  induction hn : l.length using Nat.strongRecOn generalizing l with
  | ind n ih =>
    cases l with
    | nil => exact List.nodup_nil
    | cons a l =>
      rw [List.eraseDups_cons]
      have hlt : (l.filter fun b => !b == a).length < n := by
        have hle := List.length_filter_le (fun b => !b == a) l
        rw [List.length_cons] at hn
        omega
      refine List.nodup_cons.mpr ⟨?_, ih _ hlt _ rfl⟩
      intro ha
      rw [List.mem_eraseDups, List.mem_filter] at ha
      simp at ha

theorem eraseDups_of_nodup [DecidableEq α] {l : List α} (h : l.Nodup) : l.eraseDups = l := by
  induction l with
  | nil => rfl
  | cons a l ih =>
    obtain ⟨ha, hl⟩ := List.nodup_cons.mp h
    have hrest : l.filter (fun b => !b == a) = l := by
      rw [List.filter_eq_self]
      intro b hb
      simpa using fun hba : b = a => ha (hba ▸ hb)
    rw [List.eraseDups_cons, hrest, ih hl]

/-- What is looked for under a key, where only one element of the source yields it. -/
theorem find?_filterMap_key {β κ : Type*} [DecidableEq κ] {f : α → Option β} {key : β → κ}
    (source : α → κ) (hkey : ∀ a b, f a = some b → key b = source a)
    (hinj : Function.Injective source) (ha : a ∈ l) :
    (l.filterMap f).find? (fun b => key b = source a) = f a := by
  induction l with
  | nil => cases ha
  | cons x l ih =>
    by_cases hx : x = a
    · subst hx
      cases hf : f x with
      | some b =>
        rw [List.filterMap_cons_some hf]
        exact List.find?_cons_of_pos (decide_eq_true (hkey x b hf))
      | none =>
        rw [List.filterMap_cons_none hf, List.find?_eq_none]
        intro b hb
        obtain ⟨y, -, hy⟩ := List.mem_filterMap.mp hb
        rw [decide_eq_true_eq]
        intro hsame
        rw [hinj ((hkey y b hy).symm.trans hsame), hf] at hy
        cases hy
    · have htail := ih ((List.mem_cons.mp ha).resolve_left fun h => hx h.symm)
      cases hf : f x with
      | none => rw [List.filterMap_cons_none hf, htail]
      | some b =>
        have hne : key b ≠ source a := fun h => hx (hinj ((hkey x b hf).symm.trans h))
        rw [List.filterMap_cons_some hf, List.find?_cons_of_neg (by simpa using hne), htail]

/-- At most one element of the source yields something. -/
theorem length_filterMap_le_one {f : α → Option β} (hl : l.Nodup)
    (h : ∀ x ∈ l, x ≠ a → f x = none) : (l.filterMap f).length ≤ 1 := by
  induction l with
  | nil => exact Nat.zero_le 1
  | cons x l ih =>
    obtain ⟨hx, hl⟩ := List.nodup_cons.mp hl
    by_cases hxa : x = a
    · have hrest : l.filterMap f = [] := by
        rw [List.filterMap_eq_nil_iff]
        intro y hy
        exact h y (List.mem_cons_of_mem x hy) fun hya => hx ((hxa.trans hya.symm) ▸ hy)
      cases hf : f x with
      | none =>
        rw [List.filterMap_cons_none hf, hrest]
        exact Nat.zero_le 1
      | some b =>
        rw [List.filterMap_cons_some hf, hrest]
        exact Nat.le_refl 1
    · rw [List.filterMap_cons_none (h x List.mem_cons_self hxa)]
      exact ih hl fun y hy => h y (List.mem_cons_of_mem x hy)

end WorkflowBoard
