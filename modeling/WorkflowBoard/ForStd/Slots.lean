import Mathlib.Data.Int.Basic

/-!
# A line cut into slots

Every integer lies in one slot, from the first of it up to the next one, and the others of a slot
know it by the same bounds. So slots do not overlap, and one begins where the one before it ends.
-/

namespace WorkflowBoard

/-- `first z` is where the slot of `z` begins, `next z` where the one behind it does. -/
structure Slots (first next : Int → Int) : Prop where
  le : ∀ z, first z ≤ z
  lt : ∀ z, z < next z
  same : ∀ z w, first z ≤ w → w < next z → first w = first z ∧ next w = next z

namespace Slots

variable {first next : Int → Int} {z w : Int}

theorem of_first (h : Slots first next) (z : Int) :
    first (first z) = first z ∧ next (first z) = next z := by
  have hle := h.le z
  have hlt := h.lt z
  exact h.same z (first z) (Int.le_refl _) (by omega)

theorem next_eq (h : Slots first next) (heq : first z = first w) : next z = next w := by
  rw [← (h.of_first z).2, heq, (h.of_first w).2]

/-- Two integers have the same slot exactly if one lies between the bounds of the other. -/
theorem first_eq_iff (h : Slots first next) : first z = first w ↔ first z ≤ w ∧ w < next z := by
  constructor
  · intro heq
    have hle := h.le w
    have hlt := h.lt w
    rw [h.next_eq heq]
    omega
  · rintro ⟨hle, hlt⟩
    exact (h.same z w hle hlt).1.symm

theorem first_next (h : Slots first next) (z : Int) : first (next z) = next z := by
  have hz := h.le z
  have hlt := h.lt z
  have hle := h.le (next z)
  have hlt' := h.lt (next z)
  by_contra hne
  -- what comes right before the end would lie in both slots
  have hleft := h.same z (next z - 1) (by omega) (by omega)
  have hright := h.same (next z) (next z - 1) (by omega) (by omega)
  omega

/-- The slots that end by `last` are those of what comes before the slot of `last`. -/
theorem next_le_iff (h : Slots first next) {last : Int} (hz : z ≤ last) :
    next z ≤ last ↔ z < first last := by
  have hlast := h.lt last
  have hle := h.le z
  constructor
  · intro hnext
    by_contra hge
    have hsame := h.same last z (by omega) (by omega)
    omega
  · intro hlt
    by_contra hover
    have hfirst := h.le last
    have hsame := h.same z (first last) (by omega) (by omega)
    have hself := (h.of_first last).1
    omega

end Slots

end WorkflowBoard
