import Mathlib.Algebra.Order.Group.Abs
import Mathlib.Algebra.Order.Group.Int

/-!
# Local time

A clock that shows `t + o t` at the instant `t`, where the offset `o` changes now and then. To find
an instant at which the clock shows `g`, one takes `g` itself for the instant, corrects it by the
offset there, and corrects it once more. If the offset changes by little within a day, then this
guess is never far off, and it is right if its offset is that of the first correction.
-/

namespace WorkflowBoard

variable {day step : ℤ} {o : ℤ → ℤ} {g g' s t u : ℤ}

/-- What the clock shows. -/
def reading (o : ℤ → ℤ) (t : ℤ) : ℤ := t + o t

/-- The guess, twice corrected. -/
def settle (o : ℤ → ℤ) (g : ℤ) : ℤ := g - o (g - o g)

/-- The guess is the instant of the reading whose offset is that of the first correction. -/
theorem settle_eq_of_offset (hread : reading o t = g) (ht : o t = o (g - o g)) :
    settle o g = t := by
  unfold reading at hread
  rw [settle, ← ht]
  omega

theorem offset_of_reading_settle (hread : reading o (settle o g) = g) :
    o (settle o g) = o (g - o g) := by
  unfold reading at hread
  unfold settle at *
  omega

/-- The offset is at most a day, and within a day it changes at most once and by at most `step`. -/
structure SteadyOffset (day step : ℤ) (o : ℤ → ℤ) : Prop where
  bounded : ∀ t, |o t| ≤ day
  small : ∀ s t, s ≤ t → t ≤ s + day → |o t - o s| ≤ step
  once : ∀ s t u, s ≤ t → t ≤ u → u ≤ s + day → o s = o t ∨ o t = o u

namespace SteadyOffset

variable (h : SteadyOffset day step o)

include h

theorem near (hst : |s - t| ≤ day) : |o s - o t| ≤ step := by
  obtain hle | hle := le_total s t
  · rw [abs_sub_comm]
    exact h.small s t hle (by rw [abs_le] at hst; omega)
  · exact h.small t s hle (by rw [abs_le] at hst; omega)

theorem reading_settle_near (hstep : step ≤ day) : |reading o (settle o g) - g| ≤ step := by
  have hbound := h.bounded (o := o) g
  have hfirst : |o g - o (g - o g)| ≤ step := h.near (by simpa using hbound)
  have hsecond : |o (settle o g) - o (g - o g)| ≤ step := by
    apply h.near
    have heq : settle o g - (g - o g) = o g - o (g - o g) := by
      unfold settle
      omega
    rw [heq]
    omega
  have heq : reading o (settle o g) - g = o (settle o g) - o (g - o g) := by
    unfold reading settle
    omega
  rw [heq]
  exact hsecond

theorem le_of_reading (hstep : step ≤ day) (hread : reading o s + day ≤ reading o t) : s ≤ t := by
  by_contra hlt
  have hs := abs_le.mp (h.bounded s)
  have ht := abs_le.mp (h.bounded t)
  unfold reading at hread
  have hnear : |s - t| ≤ day := by
    rw [abs_le]
    omega
  have hsmall := abs_le.mp (h.near hnear)
  omega

end SteadyOffset

end WorkflowBoard
