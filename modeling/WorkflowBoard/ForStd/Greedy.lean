import Mathlib.Data.List.Infix

/-!
# Choosing greedily

Each member of a list has one turn, in the order of the list. It is chosen if there is room for it
beside those chosen before it. What is chosen keeps the order, each choice was made at its turn, and
who was passed over had no room then.
-/

namespace WorkflowBoard

universe u

variable {α : Type u} {room : List α → α → Bool} {l m : List α} {a b : α}

/-- The chosen members; `room chosen a` says whether there is room for `a`. -/
def greedy (room : List α → α → Bool) (l : List α) : List α :=
  l.foldl (fun chosen a => if room chosen a then chosen ++ [a] else chosen) []

@[simp] theorem greedy_nil : greedy room [] = [] := rfl

theorem greedy_snoc (room : List α → α → Bool) (l : List α) (a : α) :
    greedy room (l ++ [a]) = if room (greedy room l) a then greedy room l ++ [a]
      else greedy room l := by
  rw [greedy, List.foldl_append]
  rfl

theorem greedy_sublist (room : List α → α → Bool) (l : List α) : (greedy room l).Sublist l := by
  induction l using List.reverseRecOn with
  | nil => exact .slnil
  | append_singleton l a ih =>
    rw [greedy_snoc]
    split
    · exact ih.append_right [a]
    · exact ih.trans (List.sublist_append_left l [a])

theorem prefix_greedy (room : List α → α → Bool) (l m : List α) :
    greedy room l <+: greedy room (l ++ m) := by
  induction m using List.reverseRecOn with
  | nil => simp
  | append_singleton m a ih =>
    rw [← List.append_assoc, greedy_snoc]
    split
    · exact ih.trans (List.prefix_append _ _)
    · exact ih

/-- Each choice was made at the turn of the member. -/
theorem exists_turn {before after : List α} (h : greedy room l = before ++ a :: after) :
    ∃ ahead behind, l = ahead ++ a :: behind ∧ greedy room ahead = before ∧
      room before a = true := by
  induction l using List.reverseRecOn generalizing after with
  | nil => simp at h
  | append_singleton l b ih =>
    rw [greedy_snoc] at h
    split at h
    · rename_i hroom
      induction after using List.reverseRecOn with
      | nil =>
        obtain ⟨hbefore, rfl⟩ := List.append_inj' h rfl |>.imp id List.singleton_inj.mp
        exact ⟨l, [], rfl, hbefore, hbefore ▸ hroom⟩
      | append_singleton after c _ =>
        rw [← List.cons_append, ← List.append_assoc] at h
        obtain ⟨ahead, behind, rfl, hturn⟩ := ih (List.append_inj' h rfl).1
        exact ⟨ahead, behind ++ [b], by simp, hturn⟩
    · obtain ⟨ahead, behind, rfl, hturn⟩ := ih h
      exact ⟨ahead, behind ++ [b], by simp, hturn⟩

theorem exists_chosen {ahead : List α} (h : room (greedy room ahead) a = true) (behind : List α) :
    ∃ after, greedy room (ahead ++ a :: behind) = greedy room ahead ++ a :: after := by
  obtain ⟨after, hafter⟩ := prefix_greedy room (ahead ++ [a]) behind
  refine ⟨after, ?_⟩
  rw [List.append_assoc] at hafter
  show greedy room (ahead ++ ([a] ++ behind)) = _
  rw [← hafter, greedy_snoc, if_pos h]
  simp

end WorkflowBoard
