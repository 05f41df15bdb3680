import Mathlib.Logic.Basic

/-!
# Inversion of `Except` computations

A fallible operation of the server is a `do` block over `Except`. These lemmas
take a successful run apart: from `x >>= f = .ok b` the intermediate result, from
`require` the condition it checked. They are `simp` lemmas, so `simp only` peels a
whole block into the conjunction of its guards and its result.
-/

namespace WorkflowBoard

universe u v

variable {ε : Type u} {α β : Type v}

/-- Refuse with `e` unless `ok`. -/
def require (ok : Bool) (e : ε) : Except ε Unit :=
  if ok then .ok () else .error e

/-- The value of an option, or the error `e`. -/
def orThrow (x : Option α) (e : ε) : Except ε α :=
  match x with
  | some a => .ok a
  | none => .error e

/-- Refuse with the error made from a problem, if there is one. -/
def refuseIf (problem : Option α) (e : α → ε) : Except ε Unit :=
  match problem with
  | some a => .error (e a)
  | none => .ok ()

@[simp] theorem require_eq_ok {ok : Bool} {e : ε} {u : Unit} :
    require ok e = .ok u ↔ ok = true := by
  unfold require
  split <;> simp_all

@[simp] theorem orThrow_eq_ok {x : Option α} {e : ε} {a : α} :
    orThrow x e = .ok a ↔ x = some a := by
  cases x <;> simp [orThrow]

@[simp] theorem refuseIf_eq_ok {problem : Option α} {e : α → ε} {u : Unit} :
    refuseIf problem e = .ok u ↔ problem = none := by
  cases problem <;> simp [refuseIf]

variable {x : Except ε α}

/-- A sequence succeeds if and only if both parts do. -/
@[simp] theorem bind_eq_ok {f : α → Except ε β} {b : β} :
    (x >>= f) = .ok b ↔ ∃ a, x = .ok a ∧ f a = .ok b := by
  cases x with
  | error e => simp [bind, Except.bind]
  | ok a => simp [bind, Except.bind]

@[simp] theorem pure_eq_ok {a b : α} :
    (pure a : Except ε α) = .ok b ↔ a = b := by
  simp [pure, Except.pure]

@[simp] theorem except_map_eq_ok {f : α → β} {b : β} :
    f <$> x = .ok b ↔ ∃ a, x = .ok a ∧ f a = b := by
  cases x with
  | error e => simp [Functor.map, Except.map]
  | ok a => simp [Functor.map, Except.map]

@[simp] theorem except_toOption_eq_some {a : α} :
    x.toOption = some a ↔ x = .ok a := by
  cases x <;> simp [Except.toOption]

/-- A loop of checks succeeds if each of them does. -/
theorem except_forM_eq_ok {l : List α} {f : α → Except ε PUnit} {u : PUnit} :
    l.forM f = .ok u ↔ ∀ a ∈ l, f a = .ok () := by
  induction l with
  | nil =>
    show (pure PUnit.unit : Except ε PUnit) = .ok u ↔ _
    simp
  | cons a l ih =>
    show (f a >>= fun _ => l.forM f) = .ok u ↔ _
    rw [bind_eq_ok]
    constructor
    · rintro ⟨⟨⟩, ha, hl⟩ b hb
      obtain rfl | hb := List.mem_cons.mp hb
      · exact ha
      · exact ih.mp hl b hb
    · intro h
      refine ⟨⟨⟩, h a List.mem_cons_self, ?_⟩
      exact ih.mpr fun b hb => h b (List.mem_cons_of_mem _ hb)

end WorkflowBoard
