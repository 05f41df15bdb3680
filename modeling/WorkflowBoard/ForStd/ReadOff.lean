import Mathlib.Data.List.Basic

/-!
# Words that can be read off the front of a text

A word of a language can be read off if no other word of it fits at the front of the same text, as
long as what follows either of them is a proper end. Such words can be chained and put into a list
with separators, and the parts are still unique.
-/

namespace WorkflowBoard

variable {α : Type*} {W V : List α → Prop} {E : List α → Prop} {t u : List α} {sep close : α}

/-- No other word of `W` fits where `t` does, if `E` holds behind it. -/
def ReadsOff (W E : List α → Prop) (t : List α) : Prop :=
  ∀ t' rest rest', W t' → E rest → E rest' → t ++ rest = t' ++ rest' → t = t' ∧ rest = rest'

/-- A word that can be read off anywhere, and one behind it. -/
theorem ReadsOff.append (ht : ReadsOff W (fun _ => True) t) (hu : ReadsOff V E u) :
    ReadsOff (fun w => ∃ t' u', W t' ∧ V u' ∧ w = t' ++ u') E (t ++ u) := by
  rintro _ rest rest' ⟨t', u', hW, hV, rfl⟩ hrest hrest' h
  rw [List.append_assoc, List.append_assoc] at h
  obtain ⟨rfl, htail⟩ := ht _ _ _ hW trivial trivial h
  obtain ⟨rfl, rfl⟩ := hu _ _ _ hV hrest hrest' htail
  exact ⟨rfl, rfl⟩

theorem ReadsOff.cons (a : α) (ht : ReadsOff W E t) :
    ReadsOff (fun w => ∃ t', W t' ∧ w = a :: t') E (a :: t) := by
  rintro _ rest rest' ⟨t', hW, rfl⟩ hrest hrest' h
  obtain ⟨rfl, rfl⟩ := ht _ _ _ hW hrest hrest' (List.cons.inj h).2
  exact ⟨rfl, rfl⟩

theorem ReadsOff.mono (ht : ReadsOff W E t) (h : ∀ w, V w → W w) : ReadsOff V E t :=
  fun _ _ _ hV => ht _ _ _ (h _ hV)

/-- A list of words between separators, closed by a mark that starts no word, can be read off word
    by word. -/
theorem eq_of_separated (hsep : sep ≠ close) (hE : ∀ rest, E (sep :: rest))
    (hE' : ∀ rest, E (close :: rest)) (hstart : ∀ w, W w → ∃ a l, w = a :: l ∧ a ≠ close)
    {ts ts' : List (List α)} {rest rest' : List α} (hW : ∀ t ∈ ts, W t)
    (hts : ∀ t ∈ ts, ReadsOff W E t) (hW' : ∀ t ∈ ts', W t)
    (h : [sep].intercalate ts ++ close :: rest = [sep].intercalate ts' ++ close :: rest') :
    ts = ts' ∧ rest = rest' := by
  -- a list that goes on does not close
  have hnone : ∀ (t : List α) (tail rest' : List α), W t → close :: rest' ≠ t ++ tail := by
    intro t tail rest' ht heq
    obtain ⟨a, l, rfl, ha⟩ := hstart t ht
    exact ha (List.cons.inj heq).1.symm
  induction ts generalizing ts' with
  | nil =>
    cases ts' with
    | nil => exact ⟨rfl, by simpa using h⟩
    | cons t' ts' =>
      exfalso
      have ht' := hW' t' (by simp)
      cases ts' with
      | nil => exact hnone t' _ rest ht' (by simpa using h)
      | cons u' us' => exact hnone t' _ rest ht' (by simpa [List.append_assoc] using h)
  | cons t ts ih =>
    have ht := hts t (by simp)
    have htW := hW t (by simp)
    cases ts' with
    | nil =>
      exfalso
      cases ts with
      | nil => exact hnone t _ rest' htW (by simpa using h.symm)
      | cons u us => exact hnone t _ rest' htW (by simpa [List.append_assoc] using h.symm)
    | cons t' ts' =>
      have ht' := hW' t' (by simp)
      cases ts with
      | nil =>
        cases ts' with
        | nil =>
          obtain ⟨rfl, hrest⟩ := ht t' _ _ ht' (hE' rest) (hE' rest') (by simpa using h)
          exact ⟨rfl, (List.cons.inj hrest).2⟩
        | cons u' us' =>
          simp only [List.intercalate_singleton, List.intercalate_cons_cons,
            List.append_assoc, List.singleton_append] at h
          obtain ⟨-, hrest⟩ := ht t' _ _ ht' (hE' rest) (hE _) h
          exact absurd (List.cons.inj hrest).1.symm hsep
      | cons u us =>
        cases ts' with
        | nil =>
          simp only [List.intercalate_singleton, List.intercalate_cons_cons,
            List.append_assoc, List.singleton_append] at h
          obtain ⟨-, hrest⟩ := ht t' _ _ ht' (hE _) (hE' rest') h
          exact absurd (List.cons.inj hrest).1 hsep
        | cons u' us' =>
          simp only [List.intercalate_cons_cons, List.append_assoc, List.singleton_append] at h
          obtain ⟨rfl, hrest⟩ := ht t' _ _ ht' (hE _) (hE _) h
          obtain ⟨htail, rfl⟩ := ih (fun x hx => hW x (List.mem_cons_of_mem _ hx))
            (fun x hx => hts x (List.mem_cons_of_mem _ hx))
            (fun x hx => hW' x (List.mem_cons_of_mem _ hx)) (List.cons.inj hrest).2
          exact ⟨by rw [htail], rfl⟩

end WorkflowBoard
