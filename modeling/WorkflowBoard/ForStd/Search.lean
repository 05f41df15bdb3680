import Mathlib.Data.List.Basic
import WorkflowBoard.ForStd.Acyclic

/-!
# Depth-first search with an explicit stack

The loop `while (stack.length)` over a stack and a set of vertices already seen, one turn
at a time. A turn pops a vertex, skips it if it was seen, stops if it is the target, and
else marks it and pushes its successors that were not seen.

The successors may be read from a table that changes between the turns. `Search.Inv r`
therefore speaks of a relation `r` that is only ever known to shrink: the edges of `r` out
of a vertex were there when the vertex was marked.
-/

namespace WorkflowBoard

universe u

open Relation (ReflTransGen)

variable {α : Type u} [DecidableEq α]

/-- The state of the loop: the vertices seen and the stack, its top first. -/
structure Search (α : Type u) where
  seen : List α
  stack : List α
  deriving DecidableEq

/-- How a turn of the loop ends. -/
inductive Search.Turn (α : Type u) where
  | found
  | exhausted
  | more (s : Search α)

namespace Search

/-- The loop before its first turn. -/
def start (c : α) : Search α := ⟨[], [c]⟩

/-- One turn. Successors are pushed in order, so the last one ends on top. -/
def turn (next : α → List α) (target : α) (s : Search α) : Turn α :=
  match s.stack with
  | [] => .exhausted
  | cur :: rest =>
    if cur ∈ s.seen then .more ⟨s.seen, rest⟩
    else if cur = target then .found
    else .more ⟨cur :: s.seen, ((next cur).filter (· ∉ cur :: s.seen)).reverse ++ rest⟩

/-- What the loop keeps while it looks for `t` from `c`: the edges of `r` out of a seen
    vertex lead to a vertex that is seen or waiting. -/
structure Inv (r : α → α → Prop) (c t : α) (s : Search α) : Prop where
  from_start : c ∈ s.seen ∨ c ∈ s.stack
  not_target : t ∉ s.seen
  closed : ∀ a b, a ∈ s.seen → r a b → b ∈ s.seen ∨ b ∈ s.stack

variable {r r' : α → α → Prop} {next : α → List α} {c t : α} {s s' : Search α}

omit [DecidableEq α] in
theorem Inv.start (r : α → α → Prop) (c t : α) : Inv r c t (start c) where
  from_start := .inr (by simp [Search.start])
  not_target := by simp [Search.start]
  closed a b ha _ := by simp [Search.start] at ha

omit [DecidableEq α] in
theorem Inv.mono (h : Inv r c t s) (hsub : ∀ a b, r' a b → r a b) : Inv r' c t s where
  from_start := h.from_start
  not_target := h.not_target
  closed a b ha hr := h.closed a b ha (hsub a b hr)

/-- A turn that goes on keeps the invariant, if the successors it reads cover `r`. -/
theorem Inv.turn (h : Inv r c t s) (hnext : ∀ a b, r a b → b ∈ next a)
    (ht : s.turn next t = .more s') : Inv r c t s' := by
  unfold Search.turn at ht
  split at ht
  · cases ht
  rename_i cur rest hstack
  -- a vertex on the old stack is the popped one or still waiting
  have hpop : ∀ x, x ∈ s.stack → x = cur ∨ x ∈ rest := by
    intro x hx
    rw [hstack] at hx
    exact List.mem_cons.mp hx
  by_cases hseen : cur ∈ s.seen
  · rw [if_pos hseen] at ht
    obtain rfl := Turn.more.inj ht
    have hkeep : ∀ x, x ∈ s.seen ∨ x ∈ s.stack → x ∈ s.seen ∨ x ∈ rest := by
      intro x hx
      obtain hx | hx := hx
      · exact .inl hx
      · obtain rfl | hx := hpop x hx
        · exact .inl hseen
        · exact .inr hx
    exact ⟨hkeep c h.from_start, h.not_target, fun a b ha hr => hkeep b (h.closed a b ha hr)⟩
  · rw [if_neg hseen] at ht
    by_cases htar : cur = t
    · rw [if_pos htar] at ht
      cases ht
    rw [if_neg htar] at ht
    obtain rfl := Turn.more.inj ht
    have hkeep : ∀ x, x ∈ s.seen ∨ x ∈ s.stack → x ∈ cur :: s.seen ∨
        x ∈ ((next cur).filter (· ∉ cur :: s.seen)).reverse ++ rest := by
      intro x hx
      obtain hx | hx := hx
      · exact .inl (List.mem_cons_of_mem _ hx)
      · obtain rfl | hx := hpop x hx
        · exact .inl List.mem_cons_self
        · exact .inr (List.mem_append_right _ hx)
    refine ⟨hkeep c h.from_start, ?_, ?_⟩
    · intro hmem
      obtain rfl | hmem := List.mem_cons.mp hmem
      · exact htar rfl
      · exact h.not_target hmem
    · intro a b ha hr
      obtain rfl | ha := List.mem_cons.mp ha
      · -- the successors of the marked vertex are seen or have just been pushed
        by_cases hb : b ∈ a :: s.seen
        · exact .inl hb
        · refine .inr (List.mem_append_left _ ?_)
          rw [List.mem_reverse, List.mem_filter]
          exact ⟨hnext a b hr, by simpa using hb⟩
      · exact hkeep b (h.closed a b ha hr)

/-- An exhausted search shows that the target is out of reach. -/
theorem Inv.not_reach (h : Inv r c t s) (ht : s.turn next t = .exhausted) :
    ¬ ReflTransGen r c t := by
  have hstack : s.stack = [] := by
    unfold Search.turn at ht
    split at ht
    · assumption
    · split at ht
      · cases ht
      · split at ht <;> cases ht
  have hno : ∀ x, x ∉ s.stack := by simp [hstack]
  apply not_reach_of_closed (S := (· ∈ s.seen))
  · intro a b ha hr
    exact (h.closed a b ha hr).resolve_right (hno b)
  · exact h.from_start.resolve_right (hno c)
  · exact h.not_target

/-! ## The whole loop on a fixed edge list -/

/-- The targets of the edges out of `a`, in table order. -/
def successors (E : List (α × α)) (a : α) : List α := (E.filter (·.1 = a)).map Prod.snd

/-- The loop for at most `fuel` turns; `none` if they did not suffice. -/
def run (next : α → List α) (target : α) : Nat → Search α → Option Bool
  | 0, _ => none
  | fuel + 1, s =>
    match s.turn next target with
    | .found => some true
    | .exhausted => some false
    | .more s' => run next target fuel s'

/-- What a turn uses up: the waiting vertices and the edges out of vertices not seen. -/
def work (E : List (α × α)) (s : Search α) : Nat :=
  s.stack.length + (E.filter (·.1 ∉ s.seen)).length

variable {E : List (α × α)}

@[simp] theorem mem_successors {a b : α} : b ∈ successors E a ↔ (a, b) ∈ E := by
  simp [successors]

theorem length_filter_cons {a : α} {seen : List α} (ha : a ∉ seen) :
    (E.filter (·.1 ∉ a :: seen)).length + (successors E a).length =
      (E.filter (·.1 ∉ seen)).length := by
  induction E with
  | nil => rfl
  | cons e E ih =>
    simp only [successors, List.length_map] at ih ⊢
    by_cases hea : e.1 = a
    · have hseen : e.1 ∉ seen := hea ▸ ha
      simp [hea, ha] at ih ⊢
      omega
    · by_cases hseen : e.1 ∈ seen
      · simp [hea, hseen] at ih ⊢
        omega
      · simp [hea, hseen] at ih ⊢
        omega

theorem work_turn (ht : s.turn (successors E) t = .more s') : work E s' < work E s := by
  unfold Search.turn at ht
  split at ht
  · cases ht
  rename_i cur rest hstack
  have hlen : s.stack.length = rest.length + 1 := by rw [hstack, List.length_cons]
  by_cases hseen : cur ∈ s.seen
  · rw [if_pos hseen] at ht
    obtain rfl := Turn.more.inj ht
    show rest.length + (E.filter (·.1 ∉ s.seen)).length < s.stack.length + _
    omega
  · rw [if_neg hseen] at ht
    by_cases htar : cur = t
    · rw [if_pos htar] at ht
      cases ht
    rw [if_neg htar] at ht
    obtain rfl := Turn.more.inj ht
    -- what is pushed is paid for by the edges that are used up
    have hpush : ((successors E cur).filter (· ∉ cur :: s.seen)).length ≤
        (successors E cur).length := List.length_filter_le _ _
    have hused := length_filter_cons (E := E) hseen
    show (_ ++ rest).length + (E.filter (·.1 ∉ cur :: s.seen)).length < s.stack.length + _
    rw [List.length_append, List.length_reverse]
    omega

/-- Waiting vertices can be reached from the start, and a turn keeps that. -/
theorem reach_turn (hreach : ∀ x ∈ s.stack, ReflTransGen (fun a b => (a, b) ∈ E) c x)
    (ht : s.turn (successors E) t = .more s') :
    ∀ x ∈ s'.stack, ReflTransGen (fun a b => (a, b) ∈ E) c x := by
  unfold Search.turn at ht
  split at ht
  · cases ht
  rename_i cur rest hstack
  rw [hstack] at hreach
  split at ht
  · obtain rfl := Turn.more.inj ht
    exact fun x hx => hreach x (List.mem_cons_of_mem _ hx)
  split at ht
  · cases ht
  obtain rfl := Turn.more.inj ht
  intro x hx
  obtain hx | hx := List.mem_append.mp hx
  · have hsucc : x ∈ successors E cur := List.mem_of_mem_filter (List.mem_reverse.mp hx)
    exact (hreach cur List.mem_cons_self).tail (mem_successors.mp hsucc)
  · exact hreach x (List.mem_cons_of_mem _ hx)

/-- A search that stops at the target has reached it. -/
theorem reach_of_found (hreach : ∀ x ∈ s.stack, ReflTransGen (fun a b => (a, b) ∈ E) c x)
    (ht : s.turn next t = .found) : ReflTransGen (fun a b => (a, b) ∈ E) c t := by
  unfold Search.turn at ht
  split at ht
  · cases ht
  rename_i cur rest hstack
  split at ht
  · cases ht
  split at ht
  · rename_i htar
    subst htar
    exact hreach cur (by rw [hstack]; exact List.mem_cons_self)
  · cases ht

/-- With a turn for each unit of work the loop ends, and says whether `t` can be reached. -/
theorem run_spec {fuel : Nat} (hfuel : work E s < fuel)
    (hinv : Inv (fun a b => (a, b) ∈ E) c t s)
    (hreach : ∀ x ∈ s.stack, ReflTransGen (fun a b => (a, b) ∈ E) c x) :
    ∃ b, run (successors E) t fuel s = some b ∧
      (b = true ↔ ReflTransGen (fun a b => (a, b) ∈ E) c t) := by
  induction fuel generalizing s with
  | zero => omega
  | succ fuel ih =>
    unfold run
    cases hturn : s.turn (successors E) t with
    | found => exact ⟨true, rfl, by simpa using reach_of_found hreach hturn⟩
    | exhausted => exact ⟨false, rfl, by simpa using hinv.not_reach hturn⟩
    | more s' =>
      have hless := work_turn hturn
      apply ih
      · omega
      · exact hinv.turn (fun a b h => mem_successors.mpr h) hturn
      · exact reach_turn hreach hturn

/-- The search from `c` over the edges `E`. -/
def reaches (E : List (α × α)) (c target : α) : Bool :=
  (run (successors E) target (E.length + 2) (start c)).getD false

theorem reaches_iff {E : List (α × α)} {c t : α} :
    reaches E c t = true ↔ ReflTransGen (fun a b => (a, b) ∈ E) c t := by
  have hwork : work E (start c) < E.length + 2 := by
    have hle := List.length_filter_le (fun e : α × α => decide (e.1 ∉ ([] : List α))) E
    show 1 + (E.filter (·.1 ∉ ([] : List α))).length < E.length + 2
    omega
  obtain ⟨b, hrun, hb⟩ := run_spec hwork (.start _ c t) (by simp [start, ReflTransGen.refl])
  rw [reaches, hrun, Option.getD_some, hb]

end Search

end WorkflowBoard
