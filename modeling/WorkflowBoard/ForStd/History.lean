import Mathlib.Data.List.Induction

/-!
# Histories

A history is a list that only grows at its end. `Each P log` says that every entry satisfies
`P` together with the entries before it, which is how a law about the order of events is
stated; it is kept by an append whose new entries satisfy `P`. `latest p log` is the last entry
of a kind, which is how a history answers what is the case now.

Nothing here mentions the server.
-/

namespace WorkflowBoard

universe u

variable {α : Type u} {P Q : List α → α → Prop} {log es : List α} {e : α}

/-- Every entry of the history satisfies `P` with the entries before it. -/
def Each (P : List α → α → Prop) (log : List α) : Prop :=
  ∀ pre e post, log = pre ++ e :: post → P pre e

theorem each_nil : Each P [] := by
  intro pre e post h
  exact absurd (congrArg List.length h) (by simp)

/-- Splitting a grown history at an entry: the entry is old or it is the new one. -/
theorem append_singleton_split {pre post : List α} {x : α} (h : log ++ [e] = pre ++ x :: post) :
    (pre = log ∧ x = e) ∨ ∃ post', log = pre ++ x :: post' := by
  rcases List.eq_nil_or_concat post with rfl | ⟨post', last, rfl⟩
  · have h := List.append_inj' h rfl
    exact .inl ⟨h.1.symm, (List.singleton_inj.mp h.2).symm⟩
  · refine .inr ⟨post', ?_⟩
    rw [List.concat_eq_append, ← List.cons_append, ← List.append_assoc] at h
    exact (List.append_inj' h rfl).1

theorem Each.snoc (h : Each P log) (he : P log e) : Each P (log ++ [e]) := by
  intro pre x post hsplit
  rcases append_singleton_split hsplit with ⟨rfl, rfl⟩ | ⟨post', hold⟩
  · exact he
  · exact h pre x post' hold

/-- New entries that satisfy `P` one after the other. -/
theorem Each.append (h : Each P log)
    (hes : ∀ pre e post, es = pre ++ e :: post → P (log ++ pre) e) : Each P (log ++ es) := by
  induction es generalizing log with
  | nil => rwa [List.append_nil]
  | cons x es ih =>
    rw [← List.singleton_append, ← List.append_assoc]
    refine ih (h.snoc ?_) fun pre e post hsplit => ?_
    · have hx := hes [] x es rfl
      rwa [List.append_nil] at hx
    · rw [List.append_assoc]
      exact hes (x :: pre) e post (by rw [hsplit, List.cons_append])

/-- New entries that satisfy `P` whatever came before them. -/
theorem Each.append_of_forall (h : Each P log) (hes : ∀ e ∈ es, ∀ pre, P pre e) :
    Each P (log ++ es) :=
  h.append fun pre e post hsplit => hes e (by rw [hsplit]; simp) _

/-! ## The last entry of a kind -/

section Latest

variable {p q : α → Bool}

/-- The last entry that satisfies `p`. -/
def latest (p : α → Bool) (log : List α) : Option α := (log.filter p).getLast?

@[simp] theorem latest_nil : latest p ([] : List α) = none := rfl

theorem latest_append_of_not (h : ∀ e ∈ es, p e = false) : latest p (log ++ es) = latest p log := by
  have hnone : es.filter p = [] := List.filter_eq_nil_iff.mpr fun e he => by simp [h e he]
  rw [latest, List.filter_append, hnone, List.append_nil, latest]

theorem latest_of_forall_not (h : ∀ e ∈ es, p e = false) : latest p es = none := by
  rw [← List.nil_append es, latest_append_of_not h, latest_nil]

/-- An entry of the kind is the last one until the next. -/
theorem latest_snoc (he : p e = true) : latest p (log ++ [e]) = some e := by
  have hone : [e].filter p = [e] := List.filter_eq_self.mpr (by simpa using he)
  rw [latest, List.filter_append, hone, List.getLast?_append, List.getLast?_singleton,
    Option.some_or]

theorem latest_replicate {n : Nat} (hn : 0 < n) (he : p e = true) :
    latest p (log ++ List.replicate n e) = some e := by
  obtain ⟨m, rfl⟩ : ∃ m, n = m + 1 := ⟨n - 1, by omega⟩
  rw [List.replicate_succ', ← List.append_assoc]
  exact latest_snoc he

theorem latest_eq_some : latest p log = some e ↔
    p e = true ∧ ∃ pre post, log = pre ++ e :: post ∧ ∀ x ∈ post, p x = false := by
  constructor
  · intro h
    induction log using List.reverseRecOn with
    | nil => cases h
    | append_singleton log x ih =>
      cases hx : p x with
      | true =>
        rw [latest_snoc hx] at h
        cases h
        exact ⟨hx, log, [], rfl, nofun⟩
      | false =>
        rw [latest_append_of_not (by simpa using hx)] at h
        obtain ⟨he, pre, post, rfl, hpost⟩ := ih h
        refine ⟨he, pre, post ++ [x], by simp, fun y hy => ?_⟩
        rw [List.mem_append, List.mem_singleton] at hy
        exact hy.elim (hpost y) fun hy => hy ▸ hx
  · rintro ⟨he, pre, post, rfl, hpost⟩
    rw [← List.singleton_append, ← List.append_assoc, latest_append_of_not hpost]
    exact latest_snoc he

end Latest

end WorkflowBoard
