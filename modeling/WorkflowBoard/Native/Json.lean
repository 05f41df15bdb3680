import Mathlib.Data.Rat.Defs

/-!
# JSON values

The values that `JSON.parse` gives. A number is a finite double, so a rational number; an object has
each key once.
-/

namespace WorkflowBoard

/-- A JSON value. -/
inductive Json where
  | null
  | bool (b : Bool)
  | num (x : ℚ)
  | str (s : String)
  | arr (items : List Json)
  | obj (fields : List (String × Json))

/-- `value[key]`, of what has no such field `undefined`. -/
def Json.get (key : String) : Json → Option Json
  | .obj fields => fields.lookup key
  | _ => none

/-- `value === s`. -/
def isText (value : Option Json) (s : String) : Bool :=
  match value with
  | some (.str t) => t == s
  | _ => false

/-- `value === x`. -/
def isNumber (value : Option Json) (x : ℚ) : Bool :=
  match value with
  | some (.num y) => y == x
  | _ => false

theorem isText_iff {value : Option Json} {s : String} :
    isText value s = true ↔ value = some (.str s) := by
  unfold isText
  split
  · rw [beq_iff_eq, Option.some.injEq, Json.str.injEq]
  · rename_i hother
    refine ⟨nofun, fun h => ?_⟩
    subst h
    exact absurd rfl (hother s)

theorem isNumber_iff {value : Option Json} {x : ℚ} :
    isNumber value x = true ↔ value = some (.num x) := by
  unfold isNumber
  split
  · rw [beq_iff_eq, Option.some.injEq, Json.num.injEq]
  · rename_i hother
    refine ⟨nofun, fun h => ?_⟩
    subst h
    exact absurd rfl (hother x)

end WorkflowBoard
