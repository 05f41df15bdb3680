import Mathlib.Data.List.Sort

/-!
# What stands before an element

`upTo l a` is the part of a list before `a`, as a query with an order has it that takes a page from
the front. Sorting by insertion is stable, so a condition may be applied before or after.
-/

namespace WorkflowBoard

universe u

variable {α : Type u}

/-- Sorting by insertion is stable, so elements may be left out before or after. -/
theorem filter_insertionSort {r : α → α → Prop} [DecidableRel r] [IsTrans α r] [Std.Total r]
    (p : α → Bool) (l : List α) :
    (l.insertionSort r).filter p = (l.filter p).insertionSort r := by
  have hinsert : ∀ (a : α) (l : List α), l.Pairwise r → (l.orderedInsert r a).filter p =
      if p a then (l.filter p).orderedInsert r a else l.filter p := by
    intro a l hl
    induction l with
    | nil => cases hp : p a <;> simp [hp]
    | cons x l ih =>
      obtain ⟨hx, hl⟩ := List.pairwise_cons.mp hl
      by_cases hax : r a x
      · rw [List.orderedInsert_cons_of_le r l hax]
        cases hp : p a with
        | false => simp [hp]
        | true =>
          rw [List.filter_cons_of_pos hp, if_pos rfl]
          cases hrest : (x :: l).filter p with
          | nil => rfl
          | cons y rest =>
            have hy : y ∈ x :: l := List.mem_of_mem_filter (hrest ▸ List.mem_cons_self)
            have hay : r a y := by
              rcases List.mem_cons.mp hy with rfl | hy
              · exact hax
              · exact IsTrans.trans _ _ _ hax (hx y hy)
            rw [List.orderedInsert_cons_of_le r rest hay]
      · rw [List.orderedInsert_of_not_le r l hax]
        cases hpx : p x with
        | false =>
          rw [List.filter_cons_of_neg (by simp [hpx]), List.filter_cons_of_neg (by simp [hpx]),
            ih hl]
        | true =>
          rw [List.filter_cons_of_pos hpx, List.filter_cons_of_pos hpx, ih hl]
          cases hp : p a with
          | false => rfl
          | true =>
            rw [if_pos rfl, if_pos rfl, List.orderedInsert_of_not_le r _ hax]
  induction l with
  | nil => rfl
  | cons a l ih =>
    rw [List.insertionSort_cons, hinsert a _ (List.pairwise_insertionSort r l), ih]
    cases hp : p a with
    | false => rw [List.filter_cons_of_neg (by simp [hp])]; rfl
    | true => rw [List.filter_cons_of_pos hp, List.insertionSort_cons]; rfl

section UpTo

variable [DecidableEq α] {l : List α} {a b : α}

/-- What stands before `a`. -/
def upTo (l : List α) (a : α) : List α := l.takeWhile (· ≠ a)

theorem upTo_append_cons {pre post : List α} (h : a ∉ pre) : upTo (pre ++ a :: post) a = pre := by
  unfold upTo
  rw [List.takeWhile_append_of_pos]
  · simp
  · intro x hx
    simpa using fun heq : x = a => h (heq ▸ hx)

theorem length_upTo_lt (ha : a ∈ l) : (upTo l a).length < l.length := by
  obtain ⟨pre, post, rfl, hpre⟩ := List.eq_append_cons_of_mem ha
  rw [upTo_append_cons hpre, List.length_append, List.length_cons]
  omega

theorem mem_upTo_or (ha : a ∈ l) (hab : a ≠ b) : a ∈ upTo l b ∨ b ∈ upTo l a := by
  induction l with
  | nil => cases ha
  | cons x l ih =>
    unfold upTo at *
    by_cases hxa : x = a
    · left
      rw [List.takeWhile_cons_of_pos (by simpa [hxa] using hab)]
      exact hxa ▸ List.mem_cons_self
    · by_cases hxb : x = b
      · right
        rw [List.takeWhile_cons_of_pos (by simpa using hxa)]
        exact hxb ▸ List.mem_cons_self
      · rw [List.takeWhile_cons_of_pos (by simpa using hxb),
          List.takeWhile_cons_of_pos (by simpa using hxa)]
        have ha' : a ∈ l := (List.mem_cons.mp ha).resolve_left (Ne.symm hxa)
        rcases ih ha' with h | h
        · exact .inl (List.mem_cons_of_mem x h)
        · exact .inr (List.mem_cons_of_mem x h)

theorem upTo_filter (hab : a ≠ b) : upTo (l.filter (· ≠ b)) a = (upTo l a).filter (· ≠ b) := by
  induction l with
  | nil => rfl
  | cons x l ih =>
    unfold upTo at *
    by_cases hxb : x = b
    · subst hxb
      rw [List.filter_cons_of_neg (by simp),
        List.takeWhile_cons_of_pos (by simpa using Ne.symm hab),
        List.filter_cons_of_neg (by simp), ih]
    · rw [List.filter_cons_of_pos (by simpa using hxb)]
      by_cases hxa : x = a
      · rw [List.takeWhile_cons_of_neg (by simpa using hxa),
          List.takeWhile_cons_of_neg (by simpa using hxa)]
        rfl
      · rw [List.takeWhile_cons_of_pos (by simpa using hxa),
          List.takeWhile_cons_of_pos (by simpa using hxa),
          List.filter_cons_of_pos (by simpa using hxb), ih]

end UpTo

end WorkflowBoard
