import Mathlib.Data.List.Basic

/-!
# Labelled transition systems

A system is a set of initial states and a labelled step relation. This file has
the run relation `Path`, the reachable states and the two rules the rest of the
development uses: an invariant kept by every step holds in every reachable
state, and a property kept by every step of a path from a reachable state holds
at its end.

Nothing here mentions the server; the modules under `Spec` instantiate it.
-/

namespace WorkflowBoard

universe u v

/-- A labelled transition system over states `σ` and labels `α`. -/
structure Transition (σ : Type u) (α : Type v) where
  init : σ → Prop
  step : σ → α → σ → Prop

namespace Transition

variable {σ : Type u} {α : Type v}

/-- `M.Path s as t`: the labels `as`, taken in order, lead from `s` to `t`. -/
inductive Path (M : Transition σ α) : σ → List α → σ → Prop where
  | nil (s : σ) : Path M s [] s
  | snoc {s t t' : σ} {as : List α} {a : α} :
      Path M s as t → M.step t a t' → Path M s (as ++ [a]) t'

/-- The states some path from an initial state ends in. -/
inductive Reachable (M : Transition σ α) : σ → Prop where
  | init {s : σ} : M.init s → Reachable M s
  | step {s s' : σ} {a : α} : Reachable M s → M.step s a s' → Reachable M s'

variable {M : Transition σ α}

/-- The invariant rule: what holds initially and is kept by every step from a
    reachable state holds in every reachable state. -/
theorem Reachable.invariant {P : σ → Prop} (h0 : ∀ s, M.init s → P s)
    (hstep : ∀ s a s', M.Reachable s → P s → M.step s a s' → P s')
    {s : σ} (h : M.Reachable s) : P s := by
  induction h with
  | init h => exact h0 _ h
  | step hr hs ih => exact hstep _ _ _ hr ih hs

theorem Path.append {s t u : σ} {as bs : List α} (h₁ : M.Path s as t) (h₂ : M.Path t bs u) :
    M.Path s (as ++ bs) u := by
  induction h₂ with
  | nil => rwa [List.append_nil]
  | snoc _ hs ih =>
    rw [← List.append_assoc]
    exact .snoc ih hs

/-- The end of a path from a reachable state is reachable. -/
theorem Reachable.path {s t : σ} {as : List α} (h : M.Reachable s)
    (hp : M.Path s as t) : M.Reachable t := by
  induction hp with
  | nil => exact h
  | snoc _ hs ih => exact .step ih hs

/-- The path rule: a property that every step from a reachable state keeps
    survives every path from a reachable state. -/
theorem Reachable.path_invariant {P : σ → Prop} {s t : σ} {as : List α}
    (h : M.Reachable s) (hp : M.Path s as t)
    (hstep : ∀ s a s', M.Reachable s → P s → M.step s a s' → P s')
    (hs : P s) : P t := by
  induction hp with
  | nil => exact hs
  | snoc hp' hst ih => exact hstep _ _ _ (h.path hp') ih hst

/-- The system whose steps are those of `M` that satisfy `C`. -/
def restrict (M : Transition σ α) (C : σ → α → σ → Prop) : Transition σ α where
  init := M.init
  step s a s' := M.step s a s' ∧ C s a s'

/-- A path of a restricted system is a path of the system. -/
theorem Path.of_restrict {C : σ → α → σ → Prop} {s t : σ} {as : List α}
    (h : (M.restrict C).Path s as t) : M.Path s as t := by
  induction h with
  | nil => exact .nil _
  | snoc _ hs ih => exact .snoc ih hs.1

/-- A state that the restricted system reaches is reachable. -/
theorem Reachable.of_restrict {C : σ → α → σ → Prop} {s : σ}
    (h : (M.restrict C).Reachable s) : M.Reachable s := by
  induction h with
  | init h => exact .init h
  | step _ hs ih => exact .step ih hs.1

/-! ## Systems given by a function

A system whose step is a partial function can be run. A check that evaluates to `true`
at the end of a run gives a path to a state that satisfies it. -/

section Run

variable {ε : Type*} {run : σ → α → Except ε σ}

/-- Run a list of labels; the first error stops. -/
def runList (run : σ → α → Except ε σ) : σ → List α → Except ε σ
  | s, [] => .ok s
  | s, a :: as =>
    match run s a with
    | .ok t => runList run t as
    | .error e => .error e

theorem Path.append_run (hrun : ∀ s a t, run s a = .ok t → M.step s a t) {s t u : σ}
    {as bs : List α} (hp : M.Path s as t) (h : runList run t bs = .ok u) :
    M.Path s (as ++ bs) u := by
  induction bs generalizing as t with
  | nil =>
    cases h
    simpa using hp
  | cons b bs ih =>
    simp only [runList] at h
    split at h
    · rename_i t' hb
      simpa using ih (hp.snoc (hrun _ _ _ hb)) h
    · cases h

/-- A run whose end passes the check `p` is a path to a state that satisfies it. -/
theorem exists_path_of_run (hrun : ∀ s a t, run s a = .ok t → M.step s a t) (s : σ)
    (as : List α) (p : σ → Bool) (h : (runList run s as).toOption.any p = true) :
    ∃ t, M.Path s as t ∧ p t = true := by
  cases hr : runList run s as with
  | error e => rw [hr] at h; cases h
  | ok t =>
    rw [hr] at h
    exact ⟨t, by simpa using Path.append_run hrun (.nil s) hr, h⟩

variable [Inhabited ε] {C : σ → α → Prop} [∀ s a, Decidable (C s a)]

/-- The step function `run` where `C` allows the step, and an error elsewhere. -/
def guarded (run : σ → α → Except ε σ) (C : σ → α → Prop) [∀ s a, Decidable (C s a)] (s : σ)
    (a : α) : Except ε σ :=
  if C s a then run s a else .error default

theorem guarded_eq_ok {s t : σ} {a : α} : guarded run C s a = .ok t ↔ C s a ∧ run s a = .ok t := by
  unfold guarded
  split <;> simp_all

/-- A run of allowed steps whose end passes the check `p` is a path of every system that has
    these steps. -/
theorem exists_path_guarded (hrun : ∀ s a t, C s a → run s a = .ok t → M.step s a t) (s : σ)
    (as : List α) (p : σ → Bool)
    (h : (runList (guarded run C) s as).toOption.any p = true) :
    ∃ t, M.Path s as t ∧ p t = true :=
  exists_path_of_run (fun s a t hok => (guarded_eq_ok.mp hok).elim (hrun s a t)) s as p h

/-- The same from an initial state: the end is reachable. -/
theorem exists_reachable_guarded (hrun : ∀ s a t, C s a → run s a = .ok t → M.step s a t) {s : σ}
    (hs : M.init s) (as : List α) (p : σ → Bool)
    (h : (runList (guarded run C) s as).toOption.any p = true) :
    ∃ t, M.Reachable t ∧ p t = true := by
  obtain ⟨t, hpath, hp⟩ := exists_path_guarded hrun s as p h
  exact ⟨t, Reachable.path (.init hs) hpath, hp⟩

end Run

/-! ## Runs of a partial step function that pass a check -/

section Checked

variable {run : σ → α → Option σ} {C : σ → α → Bool}

/-- Run a list of labels; a step that there is not, or that fails the check, stops. -/
def runChecked (run : σ → α → Option σ) (C : σ → α → Bool) : σ → List α → Option σ
  | s, [] => some s
  | s, a :: as => if C s a then (run s a).bind fun t => runChecked run C t as else none

/-- A path of steps that pass the check can be extended by a checked run. -/
theorem Path.append_runChecked (hrun : ∀ s a t, run s a = some t → M.step s a t) {s t u : σ}
    {as bs : List α} (hp : (M.restrict fun s a _ => C s a = true).Path s as t)
    (h : runChecked run C t bs = some u) :
    (M.restrict fun s a _ => C s a = true).Path s (as ++ bs) u := by
  induction bs generalizing as t with
  | nil =>
    cases h
    simpa using hp
  | cons b bs ih =>
    unfold runChecked at h
    split at h
    · rename_i hc
      obtain ⟨t', ht', h⟩ := Option.bind_eq_some_iff.mp h
      simpa using ih (hp.snoc ⟨hrun t b t' ht', hc⟩) h
    · cases h

/-- A checked run whose end passes the test `p` is a path to a state that passes it. -/
theorem exists_path_checked (hrun : ∀ s a t, run s a = some t → M.step s a t) (s : σ)
    (as : List α) (p : σ → Bool) (h : (runChecked run C s as).any p = true) :
    ∃ t, (M.restrict fun s a _ => C s a = true).Path s as t ∧ p t = true := by
  cases ht : runChecked run C s as with
  | none =>
    rw [ht] at h
    cases h
  | some t =>
    rw [ht] at h
    exact ⟨t, by simpa using Path.append_runChecked hrun (.nil s) ht, h⟩

theorem exists_reachable_checked (hrun : ∀ s a t, run s a = some t → M.step s a t) {s : σ}
    (hs : M.init s) (as : List α) (p : σ → Bool)
    (h : (runChecked run C s as).any p = true) :
    ∃ t, (M.restrict fun s a _ => C s a = true).Reachable t ∧ p t = true := by
  obtain ⟨t, hpath, hp⟩ := exists_path_checked hrun s as p h
  exact ⟨t, Reachable.path (.init hs) hpath, hp⟩

end Checked

end Transition

end WorkflowBoard
