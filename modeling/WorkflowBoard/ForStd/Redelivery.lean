import Mathlib.Data.List.Basic

/-!
# Sequences that are delivered with repetitions

`Redelivered same es ds`: `ds` is the sequence `es` with some of its elements delivered once more at
later places, as elements that are the `same`. A machine whose elements settle leaves, up to what a
view shows, the same state after `ds` as after `es`.
-/

namespace WorkflowBoard

universe u v w

variable {σ : Type u} {ε : Type v} {τ : Type w}

inductive Redelivered (same : ε → ε → Prop) : List ε → List ε → Prop
  | nil : Redelivered same [] []
  | first {es ds : List ε} (e : ε) (h : Redelivered same es ds) :
      Redelivered same (es ++ [e]) (ds ++ [e])
  | again {es ds : List ε} {e e' : ε} (h : Redelivered same es ds) (he : e ∈ es)
      (hsame : same e e') : Redelivered same es (ds ++ [e'])

/-- Once applied, an element is settled, stays so, and changes nothing more in the view. -/
structure Settles (step : σ → ε → σ) (same : ε → ε → Prop) (view : σ → τ)
    (settled : ε → σ → Prop) : Prop where
  congr : ∀ s s' e, view s = view s' → view (step s e) = view (step s' e)
  settles : ∀ s e, settled e (step s e)
  stays : ∀ s e e', settled e s → settled e (step s e')
  absorbed : ∀ s e e', settled e s → same e e' → view (step s e') = view s

namespace Redelivered

variable {same : ε → ε → Prop} {step : σ → ε → σ} {view : σ → τ} {settled : ε → σ → Prop}
  {es ds : List ε}

theorem settled_foldl (S : Settles step same view settled) (h : Redelivered same es ds) (s : σ) :
    ∀ e ∈ es, settled e (ds.foldl step s) := by
  induction h with
  | nil => exact fun e he => nomatch he
  | first e h ih =>
    intro x hx
    rw [List.foldl_append]
    rcases List.mem_append.mp hx with hx | hx
    · exact S.stays _ _ _ (ih x hx)
    · obtain rfl := List.mem_singleton.mp hx
      exact S.settles _ _
  | again h he hsame ih =>
    intro x hx
    rw [List.foldl_append]
    exact S.stays _ _ _ (ih x hx)

theorem view_eq (S : Settles step same view settled) (h : Redelivered same es ds) (s : σ) :
    view (ds.foldl step s) = view (es.foldl step s) := by
  induction h with
  | nil => rfl
  | first e h ih =>
    rw [List.foldl_append, List.foldl_append]
    exact S.congr _ _ _ ih
  | again h he hsame ih =>
    rw [List.foldl_append]
    exact (S.absorbed _ _ _ (settled_foldl S h s _ he) hsame).trans ih

end Redelivered

end WorkflowBoard
