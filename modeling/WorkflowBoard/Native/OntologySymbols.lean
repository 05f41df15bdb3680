import Mathlib.Data.List.Sort
import WorkflowBoard.ForStd.InsertMap

/-!
# Definitions and symbols (`modules/ontology/extraction/extract-file.ts`, `persist.ts`)

The definitions of a file are captured in any order; sorted by their ranges, a stack gives each the
definition around it. What a definition has besides its name and its range, and the other facts of a
file, are left out.
-/

namespace WorkflowBoard.Ontology

/-! ## Definitions of a file -/

/-- A captured definition. -/
structure RawDef where
  name : String
  startByte : Nat
  endByte : Nat
  le : startByte ≤ endByte

structure DefFact where
  qualifiedName : String
  name : String
  startByte : Nat
  endByte : Nat
  parentQualifiedName : Option String

/-- `a.startByte - b.startByte || b.endByte - a.endByte` is not positive. -/
def RawDef.NotAfter (a b : RawDef) : Prop :=
  a.startByte < b.startByte ∨ a.startByte = b.startByte ∧ b.endByte ≤ a.endByte

instance : DecidableRel RawDef.NotAfter := fun a b =>
  inferInstanceAs (Decidable (a.startByte < b.startByte ∨ _ ∧ _))

/-- A definition that is open, on the stack. -/
structure OpenDef where
  endByte : Nat
  qualifiedName : String

/-- A turn of the loop: the definitions that are over are popped, the one on top is the parent. -/
def nestDef (stack : List OpenDef) (raw : RawDef) : List OpenDef × DefFact :=
  let stack := stack.dropWhile fun top => top.endByte ≤ raw.startByte
  let parent := stack.head?
  let qualifiedName := match parent with
    | some p => p.qualifiedName ++ "." ++ raw.name
    | none => raw.name
  ({ endByte := raw.endByte, qualifiedName } :: stack,
    { qualifiedName, name := raw.name, startByte := raw.startByte, endByte := raw.endByte
      parentQualifiedName := parent.map (·.qualifiedName) })

def nestDefs : List OpenDef → List RawDef → List DefFact
  | _, [] => []
  | stack, raw :: raws =>
    let (stack, fact) := nestDef stack raw
    fact :: nestDefs stack raws

/-- The definitions that `extractFile` returns. -/
def extractDefs (rawDefs : List RawDef) : List DefFact :=
  nestDefs [] (rawDefs.insertionSort RawDef.NotAfter)

/-- The edges to the definitions of a file, `src_id` and `dst_id`, as `persistFactBundles` makes
    them one after the other. A name that is not there yet gives `undefined`. -/
def declareDefs (nodeId : String → String) (fileNodeId : String) :
    InsertMap String String → List DefFact → List (Option String × String)
  | _, [] => []
  | nodeIdByQualifiedName, d :: defs =>
    let id := nodeId d.qualifiedName
    let known := nodeIdByQualifiedName.set d.qualifiedName id
    let srcId := match d.parentQualifiedName with
      | none => some fileNodeId
      | some parent => if parent = "" then some fileNodeId else known.get parent
    (srcId, id) :: declareDefs nodeId fileNodeId known defs

end WorkflowBoard.Ontology
