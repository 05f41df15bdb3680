import Mathlib

/-!
# Weighted sums over the rows of a table that satisfy a condition

`sumWhere w p l` is `SELECT SUM(w) FROM l WHERE p`.
-/

namespace WorkflowBoard

variable {α κ : Type*} {w : α → Nat} {l : List α}

def sumWhere (w : α → Nat) (p : α → Bool) (l : List α) : Nat :=
  ((l.filter p).map w).sum

theorem sumWhere_cons (p : α → Bool) (a : α) (l : List α) :
    sumWhere w p (a :: l) = (if p a then w a else 0) + sumWhere w p l := by
  unfold sumWhere
  cases h : p a <;> simp [h]

/-- An update of the rows that keeps their weights moves into the condition. -/
theorem sumWhere_map {p : α → Bool} {f : α → α} (hw : ∀ a, w (f a) = w a) :
    sumWhere w p (l.map f) = sumWhere w (p ∘ f) l := by
  simp [sumWhere, List.filter_map, Function.comp_def, hw]

/-- A condition covered by two others sums to at most both sums. -/
theorem sumWhere_le_add {p q r : α → Bool} (h : ∀ a ∈ l, p a = true → q a = true ∨ r a = true) :
    sumWhere w p l ≤ sumWhere w q l + sumWhere w r l := by
  induction l with
  | nil => simp [sumWhere]
  | cons a l ih =>
    have ih := ih fun b hb => h b (List.mem_cons_of_mem _ hb)
    have ha := h a List.mem_cons_self
    simp only [sumWhere_cons]
    cases hp : p a with
    | false => simp only [Bool.false_eq_true, if_false]; omega
    | true =>
      rcases ha hp with hq | hr
      · simp only [hq, if_true]; omega
      · simp only [hr, if_true]; omega

/-- Under a key without duplicates the rows with a given key weigh at most its row. -/
theorem sumWhere_key_le [DecidableEq κ] {key : α → κ} (hnodup : (l.map key).Nodup) {a : α}
    (ha : a ∈ l) : sumWhere w (fun b => decide (key b = key a)) l ≤ w a := by
  induction l with
  | nil => cases ha
  | cons b l ih =>
    rw [List.map_cons, List.nodup_cons] at hnodup
    rw [sumWhere_cons]
    by_cases hb : key b = key a
    · -- The head has the key, so no later row has it.
      have hrest : sumWhere w (fun c => decide (key c = key a)) l = 0 := by
        have hnone : l.filter (fun c => decide (key c = key a)) = [] := by
          rw [List.filter_eq_nil_iff]
          intro c hc hkey
          exact hnodup.1 (hb ▸ of_decide_eq_true hkey ▸ List.mem_map_of_mem hc)
        simp [sumWhere, hnone]
      have hab : a = b := by
        rcases List.mem_cons.mp ha with h | h
        · exact h
        · exact absurd (hb ▸ List.mem_map_of_mem h) hnodup.1
      subst hab
      simp [hrest]
    · have ha' : a ∈ l := by
        rcases List.mem_cons.mp ha with rfl | h
        · exact absurd rfl hb
        · exact h
      simpa [hb] using ih hnodup.2 ha'

end WorkflowBoard
