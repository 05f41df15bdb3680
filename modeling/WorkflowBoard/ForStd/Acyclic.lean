import Mathlib.Logic.Relation
import Mathlib.Tactic.Common

/-!
# Acyclic relations

`Acyclic r` says that no chain of one or more `r`-steps comes back to its start. Taking
edges away keeps a relation acyclic; adding edges out of one vertex `t` keeps it acyclic
exactly when no new target leads back to `t`.
-/

namespace WorkflowBoard

universe u

open Relation (TransGen ReflTransGen)

variable {α : Type u} {r s : α → α → Prop} {a b c t : α}

/-- No chain of one or more steps leads back to its start. -/
def Acyclic (r : α → α → Prop) : Prop := ∀ a, ¬ TransGen r a a

theorem acyclic_of_empty (h : ∀ a b, ¬ r a b) : Acyclic r := by
  intro a ha
  cases ha with
  | single hab => exact h _ _ hab
  | tail _ hbc => exact h _ _ hbc

/-- A rank that falls along every edge leaves no cycle. -/
theorem acyclic_of_rank {rank : α → Nat} (h : ∀ a b, r a b → rank b < rank a) : Acyclic r := by
  have hchain : ∀ a b, TransGen r a b → rank b < rank a := by
    intro a b hab
    induction hab with
    | single hab => exact h _ _ hab
    | tail _ hbc ih => exact Nat.lt_trans (h _ _ hbc) ih
  exact fun a ha => Nat.lt_irrefl _ (hchain a a ha)

/-- A smaller relation stays acyclic. -/
theorem Acyclic.mono (h : Acyclic r) (hsub : ∀ a b, s a b → r a b) : Acyclic s := by
  intro a ha
  exact h a (Relation.TransGen.mono hsub a a ha)

/-- A chain of `s`, where `s` adds edges from `t` into `C`, is a chain of `r` or goes to
    `t` and then, without coming back, from a vertex of `C` to its end. -/
theorem transGen_add_from {C : α → Prop} (hs : ∀ a b, s a b → r a b ∨ (a = t ∧ C b))
    (hC : ∀ c, C c → ¬ ReflTransGen r c t) (h : TransGen s a b) :
    TransGen r a b ∨ ∃ c, C c ∧ ReflTransGen r a t ∧ ReflTransGen r c b := by
  induction h with
  | single hab =>
    obtain hr | ⟨rfl, hc⟩ := hs _ _ hab
    · exact .inl (.single hr)
    · exact .inr ⟨_, hc, .refl, .refl⟩
  | tail _ hbd ih =>
    obtain hr | ⟨rfl, hc⟩ := hs _ _ hbd
    · -- an old edge extends either form
      obtain ih | ⟨c, hc, hat, hcb⟩ := ih
      · exact .inl (ih.tail hr)
      · exact .inr ⟨c, hc, hat, hcb.tail hr⟩
    · -- a second new edge would need a way back to `t`
      obtain ih | ⟨c', hc', -, hct⟩ := ih
      · exact .inr ⟨_, hc, ih.to_reflTransGen, .refl⟩
      · exact absurd hct (hC c' hc')

/-- Edges out of `t` into vertices that do not reach `t` close no cycle. -/
theorem Acyclic.add_from {C : α → Prop} (h : Acyclic r)
    (hs : ∀ a b, s a b → r a b ∨ (a = t ∧ C b))
    (hC : ∀ c, C c → ¬ ReflTransGen r c t) : Acyclic s := by
  intro a ha
  obtain ha | ⟨c, hc, hat, hca⟩ := transGen_add_from hs hC ha
  · exact h a ha
  · exact hC c hc (hca.trans hat)

/-- An edge `t → c` with a way back from `c` is a cycle. -/
theorem not_acyclic_of_back (htc : r t c) (hct : ReflTransGen r c t) : ¬ Acyclic r := by
  intro h
  exact h t (TransGen.head' htc hct)

/-- What a closed set does not hold, its members do not reach. -/
theorem not_reach_of_closed {S : α → Prop} (hclosed : ∀ a b, S a → r a b → S b)
    (hc : S c) (ht : ¬ S t) : ¬ ReflTransGen r c t := by
  intro h
  have hS : ∀ x, ReflTransGen r c x → S x := by
    intro x hx
    induction hx with
    | refl => exact hc
    | tail _ hxy ih => exact hclosed _ _ ih hxy
  exact ht (hS t h)

/-- If `t` is out of reach without the edges of `F`, and no edge of `F` lies on a way from
    `c` to `t`, then `t` is out of reach. -/
theorem not_reach_of_split {F : α → α → Prop}
    (hold : ¬ ReflTransGen (fun a b => r a b ∧ ¬ F a b) c t)
    (hnew : ∀ a b, r a b → F a b → ReflTransGen r c a → ¬ ReflTransGen r b t) :
    ¬ ReflTransGen r c t := by
  intro h
  -- walk back from `t`: every edge on the way is one outside `F`
  have hway : ∀ x, ReflTransGen r c x → ReflTransGen r x t →
      ReflTransGen (fun a b => r a b ∧ ¬ F a b) c x := by
    intro x hcx
    induction hcx with
    | refl => exact fun _ => .refl
    | tail hcx hxy ih =>
      intro hyt
      have hF : ¬ F _ _ := fun hF => hnew _ _ hxy hF hcx hyt
      exact (ih (hyt.head hxy)).tail ⟨hxy, hF⟩
  exact hold (hway t h .refl)

end WorkflowBoard
