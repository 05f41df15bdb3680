import WorkflowBoard.ForStd.List

/-!
# Maps in the order of insertion

A map that is iterated in the order in which its keys were first set. Setting a key that is there
rewrites its entry in place.
-/

namespace WorkflowBoard

structure InsertMap (κ β : Type*) where
  entries : List (κ × β) := []
deriving DecidableEq

namespace InsertMap

variable {κ β : Type*} [DecidableEq κ]

def get (m : InsertMap κ β) (key : κ) : Option β := (m.entries.find? fun p => p.1 = key).map (·.2)

def set (m : InsertMap κ β) (key : κ) (b : β) : InsertMap κ β where
  entries :=
    if (m.get key).isSome then m.entries.map fun p => if p.1 = key then (key, b) else p
    else m.entries ++ [(key, b)]

/-- Delete every entry that satisfies `p`. -/
def deleteWhere (m : InsertMap κ β) (p : κ → β → Bool) : InsertMap κ β where
  entries := m.entries.filter fun e => !p e.1 e.2

def delete (m : InsertMap κ β) (key : κ) : InsertMap κ β := m.deleteWhere fun k _ => k = key

def size (m : InsertMap κ β) : Nat := m.entries.length

variable {m : InsertMap κ β} {key k : κ} {b : β}

theorem find?_rewrite (l : List (κ × β)) :
    (l.map fun p => if p.1 = key then (key, b) else p).find? (fun p => p.1 = k) =
      (l.find? fun p => p.1 = k).map fun p => if p.1 = key then (key, b) else p := by
  rw [List.find?_map]
  congr 2
  funext p
  by_cases hp : p.1 = key
  · simp [hp]
  · simp [hp]

theorem get_set_self (m : InsertMap κ β) (key : κ) (b : β) : (m.set key b).get key = some b := by
  unfold set
  split
  · rename_i h
    unfold get at h ⊢
    rw [find?_rewrite, Option.map_map]
    obtain ⟨p, hp⟩ := Option.isSome_iff_exists.mp h
    obtain ⟨q, hq, -⟩ := Option.map_eq_some_iff.mp hp
    have hkey : q.1 = key := by simpa using List.find?_some hq
    simp [hq, hkey]
  · rename_i h
    unfold get at h ⊢
    rw [Option.not_isSome_iff_eq_none, Option.map_eq_none_iff] at h
    simp [List.find?_append, h]

/-- Writing one key leaves the others alone. -/
theorem get_set_other (hne : k ≠ key) : (m.set key b).get k = m.get k := by
  unfold set
  split
  · unfold get
    rw [find?_rewrite, Option.map_map]
    cases hq : m.entries.find? (fun p => p.1 = k) with
    | none => rfl
    | some q =>
      have hkey : q.1 = k := by simpa using List.find?_some hq
      simp [hkey, hne]
  · unfold get
    simp [List.find?_append, hne.symm]

/-- An entry that `p` does not meet survives the deletion. -/
theorem get_deleteWhere {p : κ → β → Bool} (hkeep : ∀ b, m.get key = some b → p key b = false) :
    (m.deleteWhere p).get key = m.get key := by
  unfold get deleteWhere at *
  rw [find?_filter_of_found]
  intro q hq
  have hkey : q.1 = key := by simpa using List.find?_some hq
  have hq2 := hkeep q.2 (by rw [hq]; rfl)
  simpa [hkey] using hq2

theorem get_delete_self (m : InsertMap κ β) (key : κ) : (m.delete key).get key = none := by
  simp [get, delete, deleteWhere, List.find?_filter]

theorem get_delete_other (hne : k ≠ key) : (m.delete key).get k = m.get k :=
  get_deleteWhere fun _ _ => by simpa using hne

omit [DecidableEq κ] in
theorem size_deleteWhere_le (m : InsertMap κ β) (p : κ → β → Bool) :
    (m.deleteWhere p).size ≤ m.size :=
  List.length_filter_le _ _

/-- A new key adds one entry. -/
theorem size_set_of_none (h : m.get key = none) : (m.set key b).size = m.size + 1 := by
  simp [set, size, h]

theorem size_delete_le (m : InsertMap κ β) (key : κ) : (m.delete key).size ≤ m.size :=
  size_deleteWhere_le m _

theorem get_eq_none_iff : m.get key = none ↔ ∀ p ∈ m.entries, p.1 ≠ key := by
  simp [get]

end InsertMap

end WorkflowBoard
