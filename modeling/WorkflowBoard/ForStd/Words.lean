import Mathlib.Data.List.Basic

/-!
# Words between separators

The words of a list are its longest parts without a separator. `Words p l ws` says so of the list
`l` as a derivation; `words p l` computes them by splitting at each separator.
-/

namespace WorkflowBoard

universe u

variable {α : Type u} {p : α → Bool} {l m : List α} {ws : List (List α)}

/-- A list that is empty or starts with a separator. -/
def Separated (p : α → Bool) (l : List α) : Prop := ∀ a ∈ l.head?, p a = true

/-- Separators only, or a word between separators and the words of what is behind it. -/
inductive Words (p : α → Bool) : List α → List (List α) → Prop
  | blank {l : List α} (h : ∀ a ∈ l, p a = true) : Words p l []
  | word {gap w rest : List α} {ws : List (List α)} (hgap : ∀ a ∈ gap, p a = true) (hne : w ≠ [])
      (hword : ∀ a ∈ w, p a = false) (hsep : Separated p rest) (hrest : Words p rest ws) :
      Words p (gap ++ (w ++ rest)) (w :: ws)

/-- Split at each separator; what is empty is no word. -/
def words (p : α → Bool) (l : List α) : List (List α) := (l.splitOnP p).filter (· ≠ [])

/-- A gap in front adds no word. -/
theorem words_gap (h : ∀ a ∈ l, p a = true) (m : List α) : words p (l ++ m) = words p m := by
  induction l with
  | nil => rfl
  | cons a l ih =>
    obtain ⟨ha, hl⟩ := List.forall_mem_cons.mp h
    rw [← ih hl, words, List.cons_append, List.splitOnP_cons_eq_if_modifyHead, if_pos ha,
      List.filter_cons_of_neg (by simp), words]

theorem words_blank (h : ∀ a ∈ l, p a = true) : words p l = [] := by
  rw [← List.append_nil l, words_gap h, words, List.splitOnP_nil]
  rfl

/-- A word in front of a separator comes first. -/
theorem words_word (hne : l ≠ []) (hword : ∀ a ∈ l, p a = false) (hsep : Separated p m) :
    words p (l ++ m) = l :: words p m := by
  cases m with
  | nil =>
    have hnil : words p ([] : List α) = [] := words_blank nofun
    rw [List.append_nil, hnil, words, List.splitOnP_eq_singleton hword]
    simp [hne]
  | cons a m =>
    have ha : p a = true := hsep a rfl
    have htail : words p (a :: m) = words p m := words_gap (l := [a]) (by simpa using ha) m
    rw [htail, words, List.splitOnP_append_cons_of_forall_mem hword a ha, words]
    simp [hne]

theorem Words.eq (h : Words p l ws) : ws = words p l := by
  induction h with
  | blank h => rw [words_blank h]
  | word hgap hne hword hsep _ ih => rw [words_gap hgap, words_word hne hword hsep, ← ih]

theorem exists_span (q : α → Bool) (l : List α) :
    ∃ m rest, l = m ++ rest ∧ (∀ a ∈ m, q a = true) ∧ ∀ a ∈ rest.head?, q a = false := by
  induction l with
  | nil => exact ⟨[], [], rfl, nofun, nofun⟩
  | cons a l ih =>
    cases ha : q a with
    | false => exact ⟨[], a :: l, rfl, nofun, fun b hb => Option.some.inj hb ▸ ha⟩
    | true =>
      obtain ⟨m, rest, rfl, hm, hrest⟩ := ih
      exact ⟨a :: m, rest, rfl, List.forall_mem_cons.mpr ⟨ha, hm⟩, hrest⟩

theorem exists_words (p : α → Bool) (l : List α) : ∃ ws, Words p l ws := by
  induction hn : l.length using Nat.strongRecOn generalizing l with
  | ind n ih =>
    subst hn
    -- The first word starts behind the separators and ends before the next one.
    obtain ⟨gap, m, rfl, hgap, hstart⟩ := exists_span p l
    obtain ⟨w, rest, rfl, hword, hend⟩ := exists_span (!p ·) m
    cases w with
    | nil =>
      cases rest with
      | nil => exact ⟨[], .blank (by simpa using hgap)⟩
      | cons a rest =>
        have hoff : p a = false := hstart a rfl
        have hon : p a = true := by simpa using hend a rfl
        rw [hoff] at hon
        cases hon
    | cons a w =>
      have hlt : rest.length < (gap ++ (a :: w ++ rest)).length := by
        simp only [List.length_append, List.length_cons]
        omega
      obtain ⟨ws, hws⟩ := ih _ hlt rest rfl
      exact ⟨_, .word hgap (List.cons_ne_nil a w) (fun b hb => by simpa using hword b hb)
        (fun b hb => by simpa using hend b hb) hws⟩

/-- The words of a text are the ones that a derivation of `Words` finds. -/
theorem words_iff : Words p l ws ↔ ws = words p l := by
  refine ⟨Words.eq, ?_⟩
  rintro rfl
  obtain ⟨ws, hws⟩ := exists_words p l
  exact hws.eq ▸ hws

theorem Words.append_blank (h : Words p l ws) (hm : ∀ a ∈ m, p a = true) : Words p (l ++ m) ws := by
  induction h with
  | blank h =>
    refine .blank fun a ha => ?_
    exact (List.mem_append.mp ha).elim (h a) (hm a)
  | @word gap w rest ws hgap hne hword hsep _ ih =>
    rw [List.append_assoc, List.append_assoc]
    refine .word hgap hne hword (fun a ha => ?_) ih
    cases rest with
    | nil => exact hm a (List.mem_of_mem_head? ha)
    | cons b rest => exact hsep a ha

theorem words_trail (hm : ∀ a ∈ m, p a = true) : words p (l ++ m) = words p l :=
  ((words_iff.mpr rfl).append_blank hm).eq.symm

theorem Words.not_sep (h : Words p l ws) : ∀ w ∈ ws, w ≠ [] ∧ ∀ a ∈ w, p a = false := by
  induction h with
  | blank => exact nofun
  | word _ hne hword _ _ ih => exact List.forall_mem_cons.mpr ⟨⟨hne, hword⟩, ih⟩

/-- What is split off has no separator and is part of the list. -/
theorem mem_splitOnP {a : α} {part : List α} (hpart : part ∈ l.splitOnP p) (ha : a ∈ part) :
    a ∈ l ∧ p a = false := by
  induction l generalizing part with
  | nil =>
    rw [List.splitOnP_nil, List.mem_singleton] at hpart
    cases hpart ▸ ha
  | cons b l ih =>
    have keep : ∀ {part : List α}, part ∈ l.splitOnP p → a ∈ part → a ∈ b :: l ∧ p a = false :=
      fun hpart ha => ⟨List.mem_cons_of_mem b (ih hpart ha).1, (ih hpart ha).2⟩
    rw [List.splitOnP_cons_eq_if_modifyHead] at hpart
    split at hpart
    · obtain rfl | hpart := List.mem_cons.mp hpart
      · cases ha
      · exact keep hpart ha
    · rename_i hb
      cases hsplit : l.splitOnP p with
      | nil => exact absurd hsplit (List.splitOnP_ne_nil p l)
      | cons first others =>
        rw [hsplit, List.modifyHead_cons] at hpart
        obtain rfl | hpart := List.mem_cons.mp hpart
        · obtain rfl | ha := List.mem_cons.mp ha
          · exact ⟨List.mem_cons_self, Bool.eq_false_iff.mpr hb⟩
          · exact keep (hsplit ▸ List.mem_cons_self) ha
        · exact keep (hsplit ▸ List.mem_cons_of_mem _ hpart) ha

end WorkflowBoard

/-!
# Lines of a stream

A stream of which the lines end with a separator: its complete lines, and what is behind the last
separator, the start of a line. How the stream comes in chunks makes no difference to them.
-/

namespace WorkflowBoard

universe u

variable {α : Type u} [DecidableEq α] {a : α} {l line : List α} {lines : List (List α)}

/-- Each line with its end. -/
def joinLines (a : α) (lines : List (List α)) : List α := lines.flatMap (· ++ [a])

omit [DecidableEq α] in
theorem eq_of_cut {l' r r' : List α} (hl : a ∉ l) (hl' : a ∉ l')
    (h : l ++ a :: r = l' ++ a :: r') : l = l' ∧ r = r' := by
  obtain ⟨c, rfl, hc⟩ | ⟨c, rfl, hc⟩ := List.append_eq_append_iff.mp h
  · cases c with
    | nil => simpa using hc
    | cons x c =>
      obtain rfl : a = x := by simpa using congrArg List.head? hc
      simp at hl'
  · cases c with
    | nil => simpa [eq_comm] using hc
    | cons x c =>
      obtain rfl : a = x := by simpa using congrArg List.head? hc
      simp at hl

theorem cut_of_mem (h : a ∈ l) :
    l = l.takeWhile (· ≠ a) ++ a :: (l.dropWhile (· ≠ a)).drop 1 ∧ a ∉ l.takeWhile (· ≠ a) := by
  induction l with
  | nil => exact absurd h List.not_mem_nil
  | cons b l ih =>
    by_cases hb : b = a
    · subst hb
      simp
    · obtain ⟨hl, hnot⟩ := ih ((List.mem_cons.mp h).resolve_left (Ne.symm hb))
      have hne : decide (b ≠ a) = true := decide_eq_true hb
      simp only [List.takeWhile_cons, List.dropWhile_cons, hne, ite_true, List.cons_append, ← hl]
      exact ⟨trivial, fun hcons => (List.mem_cons.mp hcons).elim (Ne.symm hb) hnot⟩

omit [DecidableEq α] in
theorem joinLines_append (lines lines' : List (List α)) :
    joinLines a (lines ++ lines') = joinLines a lines ++ joinLines a lines' :=
  List.flatMap_append

theorem splitOn_joinLines (h : ∀ line ∈ lines, a ∉ line) (l : List α) :
    (joinLines a lines ++ l).splitOn a = lines ++ l.splitOn a := by
  induction lines with
  | nil => rfl
  | cons line lines ih =>
    obtain ⟨hline, hlines⟩ := List.forall_mem_cons.mp h
    have hjoin : joinLines a (line :: lines) ++ l = line ++ a :: (joinLines a lines ++ l) := by
      simp [joinLines]
    rw [hjoin, List.splitOn_append_cons_self_of_not_mem hline, ih hlines, List.cons_append]

/-- Every list is its complete lines and what is behind the last of them. -/
theorem exists_lines (a : α) (l : List α) :
    ∃ lines rest, l = joinLines a lines ++ rest ∧ (∀ line ∈ lines, a ∉ line) ∧ a ∉ rest := by
  induction hn : l.length using Nat.strongRecOn generalizing l with
  | ind n ih =>
    by_cases hmem : a ∈ l
    · -- the first line, and the lines behind it
      obtain ⟨line, behind, rfl, hline⟩ : ∃ line behind, l = line ++ a :: behind ∧ a ∉ line :=
        ⟨_, _, cut_of_mem hmem⟩
      simp only [List.length_append, List.length_cons] at hn
      obtain ⟨lines, rest, rfl, hlines, hrest⟩ := ih behind.length (by omega) behind rfl
      refine ⟨line :: lines, rest, ?_, List.forall_mem_cons.mpr ⟨hline, hlines⟩, hrest⟩
      simp [joinLines]
    · exact ⟨[], l, rfl, by simp, hmem⟩

/-- A text has one division into whole lines and an unfinished rest. -/
theorem joinLines_inj {lines' : List (List α)} {rest rest' : List α}
    (h : joinLines a lines ++ rest = joinLines a lines' ++ rest')
    (hlines : ∀ line ∈ lines, a ∉ line) (hlines' : ∀ line ∈ lines', a ∉ line)
    (hrest : a ∉ rest) (hrest' : a ∉ rest') : lines = lines' ∧ rest = rest' := by
  have hsplit := congrArg (List.splitOn a) h
  rw [splitOn_joinLines hlines, splitOn_joinLines hlines', List.splitOn_eq_singleton hrest,
    List.splitOn_eq_singleton hrest'] at hsplit
  obtain ⟨hl, hr⟩ := List.append_inj' hsplit rfl
  exact ⟨hl, by simpa using hr⟩

end WorkflowBoard
