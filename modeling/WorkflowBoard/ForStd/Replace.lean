import Mathlib.Data.List.Infix

/-!
# Replacement of matches

A text is searched from the left for matches that do not overlap, and each is replaced by the same
text. A match may depend on the element before it. What is apart from the replacement can only stand
between two replacements, so that it was there before.
-/

namespace WorkflowBoard

universe u

variable {α : Type u}

/-- An element in front of the first of some lists. -/
def consHead (a : α) : List (List α) → List (List α)
  | [] => [[a]]
  | l :: ls => (a :: l) :: ls

/-- What stands between the matches. `match_ before l` is the length of a match at the start of `l`;
    of the match it is in, the search passes over `n` more elements. -/
def gaps (match_ : Option α → List α → Option Nat) : Option α → Nat → List α → List (List α)
  | _, _, [] => [[]]
  | _, n + 1, a :: l => gaps match_ (some a) n l
  | before, 0, a :: l =>
    match match_ before (a :: l) with
    | some (n + 1) => [] :: gaps match_ (some a) n l
    | _ => consHead a (gaps match_ (some a) 0 l)

/-- Each match is replaced by `r`. -/
def replaceMatches (match_ : Option α → List α → Option Nat) (r l : List α) : List α :=
  r.intercalate (gaps match_ none 0 l)

/-- The two cannot share a place of a text. -/
structure Apart (s r : List α) : Prop where
  not_end : ∀ n < s.length, ¬ s.drop n <+: r
  not_start : ∀ n < s.length, ¬ s.take (n + 1) <:+ r
  not_inside : ¬ s <:+: r
  not_around : ¬ r <:+: s

instance [DecidableEq α] (s r : List α) : Decidable (Apart s r) :=
  decidable_of_iff ((∀ n < s.length, ¬ s.drop n <+: r) ∧ (∀ n < s.length, ¬ s.take (n + 1) <:+ r) ∧
    ¬ s <:+: r ∧ ¬ r <:+: s) ⟨fun ⟨h₁, h₂, h₃, h₄⟩ => ⟨h₁, h₂, h₃, h₄⟩, fun ⟨h₁, h₂, h₃, h₄⟩ =>
      ⟨h₁, h₂, h₃, h₄⟩⟩

variable {match_ : Option α → List α → Option Nat} {before : Option α} {n : Nat}
  {s r l x y : List α} {ls : List (List α)}

/-! ## What is apart -/

theorem Apart.ne_nil (h : Apart s r) : s ≠ [] := by
  intro hs
  subst hs
  exact h.not_inside List.nil_infix

theorem Apart.end_not_start (h : Apart s r) (hs : s = x ++ y) (hy : y ≠ []) : ¬ y <+: r := by
  subst hs
  have hlen : 0 < y.length := List.length_pos_iff.mpr hy
  have hdrop := h.not_end x.length (by simp; omega)
  simpa using hdrop

theorem Apart.start_not_end (h : Apart s r) (hs : s = x ++ y) (hx : x ≠ []) : ¬ x <:+ r := by
  subst hs
  have hlen : 0 < x.length := List.length_pos_iff.mpr hx
  have htake := h.not_start (x.length - 1) (by simp; omega)
  rw [show x.length - 1 + 1 = x.length by omega] at htake
  simpa using htake

/-- In a text that starts with the replacement it stands behind that. -/
theorem Apart.infix_behind (h : Apart s r) (hs : s <:+: r ++ l) : s <:+: l := by
  obtain hin | hin | ⟨x, y, hx, -, hxy, hxr, -⟩ := List.infix_append_iff_ne_nil.mp hs
  · exact absurd hin h.not_inside
  · exact hin
  · exact absurd hxr (h.start_not_end hxy hx)

/-- Next to the replacement it stands before or behind it. -/
theorem Apart.infix_between (h : Apart s r) (hs : s <:+: x ++ (r ++ l)) : s <:+: x ∨ s <:+: l := by
  obtain hin | hin | ⟨x', y', -, hy', hxy, -, hyr⟩ := List.infix_append_iff_ne_nil.mp hs
  · exact .inl hin
  · exact .inr (h.infix_behind hin)
  · -- the end of it lies within the replacement, or goes over all of it
    exfalso
    obtain hyr | hry := List.prefix_or_prefix_of_prefix hyr (List.prefix_append r l)
    · exact h.end_not_start hxy hy' hyr
    · apply h.not_around
      rw [hxy]
      exact hry.isInfix.trans (List.suffix_append x' y').isInfix

/-- It stands in one of the parts that the replacement joins. -/
theorem Apart.infix_intercalate (h : Apart s r) (hs : s <:+: r.intercalate ls) :
    ∃ l ∈ ls, s <:+: l := by
  induction ls with
  | nil => exact absurd (List.infix_nil.mp (by simpa using hs)) h.ne_nil
  | cons l ls ih =>
    cases ls with
    | nil => exact ⟨l, by simp, by simpa using hs⟩
    | cons l' ls =>
      rw [List.intercalate_cons_cons, List.append_assoc] at hs
      obtain hl | hls := h.infix_between hs
      · exact ⟨l, by simp, hl⟩
      · obtain ⟨g, hg, hsg⟩ := ih hls
        exact ⟨g, List.mem_cons_of_mem l hg, hsg⟩

theorem apart_singleton {a : α} (hs : s ≠ []) (ha : a ∉ s) : Apart s [a] := by
  -- a part of `s` that lies within `[a]` is empty
  have hpart : ∀ t, t ⊆ s → t ⊆ [a] → t = [] := by
    intro t hts hta
    cases t with
    | nil => rfl
    | cons b t =>
      have hb : b = a := by simpa using hta List.mem_cons_self
      exact absurd (hts (hb ▸ List.mem_cons_self)) ha
  refine ⟨fun n hn hpre => ?_, fun n hn hsuf => ?_, fun hin => ?_, fun hin => ?_⟩
  · have hnil := hpart _ (List.drop_subset n s) hpre.subset
    simp at hnil
    omega
  · have hnil := hpart _ (List.take_subset (n + 1) s) hsuf.subset
    simp [hs] at hnil
  · exact hs (hpart s (List.Subset.refl s) hin.subset)
  · exact ha (hin.subset (List.mem_singleton_self a))

/-- Elements that are changed one by one, but into none of it, do not make it. -/
theorem infix_of_infix_map {f : α → α} (hf : ∀ a, f a ∈ s → f a = a) (hs : s <:+: l.map f) :
    s <:+: l := by
  obtain ⟨x, y, hxy⟩ := hs
  obtain ⟨l', y', rfl, hl', -⟩ := List.map_eq_append_iff.mp hxy.symm
  obtain ⟨x', s', rfl, -, rfl⟩ := List.map_eq_append_iff.mp hl'
  have hsame : s'.map f = s' := by
    conv_rhs => rw [← List.map_id s']
    exact List.map_congr_left fun a ha => hf a (List.mem_map_of_mem ha)
  rw [hsame]
  exact List.infix_append x' s' y'

/-! ## What stands between the matches -/

theorem exists_gaps (match_ : Option α → List α → Option Nat) (before : Option α) (l : List α) :
    ∃ g gs, gaps match_ before 0 l = g :: gs ∧ g <+: l := by
  induction l generalizing before with
  | nil => exact ⟨[], [], rfl, List.nil_prefix⟩
  | cons a l ih =>
    obtain ⟨g, gs, hgaps, hg⟩ := ih (some a)
    unfold gaps
    split
    · exact ⟨[], _, rfl, List.nil_prefix⟩
    · exact ⟨a :: g, gs, by rw [hgaps]; rfl, by simpa using hg⟩

theorem mem_consHead {a : α} {g : List α} {gs : List (List α)} (h : x ∈ consHead a (g :: gs)) :
    x = a :: g ∨ x ∈ gs :=
  List.mem_cons.mp h

theorem infix_of_mem_gaps (h : x ∈ gaps match_ before n l) : x <:+: l := by
  induction l generalizing before n with
  | nil =>
    unfold gaps at h
    simp_all
  | cons a l ih =>
    have hbehind : l <:+: a :: l := (List.suffix_cons a l).isInfix
    unfold gaps at h
    split at h
    · cases ‹a :: l = []›
    · rename_i heq
      obtain ⟨rfl, rfl⟩ := List.cons.inj heq
      exact (ih h).trans hbehind
    · rename_i heq
      obtain ⟨rfl, rfl⟩ := List.cons.inj heq
      split at h
      · obtain rfl | h := List.mem_cons.mp h
        · exact List.nil_infix
        · exact (ih h).trans hbehind
      · obtain ⟨g, gs, hgaps, hg⟩ := exists_gaps match_ (some a) l
        rw [hgaps] at h
        obtain rfl | h := mem_consHead h
        · exact (List.cons_prefix_cons.mpr ⟨rfl, hg⟩).isInfix
        · exact (ih (by rw [hgaps]; exact List.mem_cons_of_mem g h)).trans hbehind

/-- What is apart from the replacement was there before. -/
theorem infix_of_infix_replace (h : Apart s r) (hs : s <:+: replaceMatches match_ r l) :
    s <:+: l := by
  obtain ⟨g, hg, hsg⟩ := h.infix_intercalate hs
  exact hsg.trans (infix_of_mem_gaps hg)

/-! ## The search for a list -/

variable [DecidableEq α]

/-- The list `s` matches where it starts. -/
def occurs (s : List α) (_before : Option α) (l : List α) : Option Nat :=
  if s <+: l then some s.length else none

theorem not_infix_gap (hs : s ≠ []) (h : x ∈ gaps (occurs s) before n l) : ¬ s <:+: x := by
  induction l generalizing before n x with
  | nil =>
    unfold gaps at h
    simp_all
  | cons a l ih =>
    unfold gaps at h
    split at h
    · cases ‹a :: l = []›
    · rename_i heq
      obtain ⟨rfl, rfl⟩ := List.cons.inj heq
      exact ih h
    · rename_i heq
      obtain ⟨rfl, rfl⟩ := List.cons.inj heq
      split at h
      · obtain rfl | h := List.mem_cons.mp h
        · simpa using hs
        · exact ih h
      · rename_i hno
        obtain ⟨g, gs, hgaps, hg⟩ := exists_gaps (occurs s) (some a) l
        rw [hgaps] at h
        have hmem : ∀ y ∈ g :: gs, ¬ s <:+: y := fun y hy => ih (by rw [hgaps]; exact hy)
        obtain rfl | h := mem_consHead h
        · intro hin
          obtain hstart | hin := List.infix_cons_iff.mp hin
          · -- then the search would have stopped here
            have hlen : 0 < s.length := List.length_pos_iff.mpr hs
            have hfound : s <+: a :: l := hstart.trans (List.cons_prefix_cons.mpr ⟨rfl, hg⟩)
            refine hno (s.length - 1) ?_
            rw [occurs, if_pos hfound, Nat.succ_eq_add_one, Nat.sub_add_cancel hlen]
          · exact hmem g List.mem_cons_self hin
        · exact hmem x (List.mem_cons_of_mem g h)

/-- Where each `s` is replaced by what is apart from it, none is left. -/
theorem not_infix_replace (h : Apart s r) : ¬ s <:+: replaceMatches (occurs s) r l := by
  intro hin
  obtain ⟨g, hg, hsg⟩ := h.infix_intercalate hin
  exact not_infix_gap h.ne_nil hg hsg

end WorkflowBoard
