import Mathlib.Data.Set.Basic
import WorkflowBoard.ForStd.Words
import WorkflowBoard.Native.QaCron

/-!
# The grammar of cron expressions

The grammar that the head of `qa-cron.ts` documents, and what `parseCron` makes of a text. The
parser reads a number as far as its digits go and a range as far as its second part, so that it
accepts more: the texts that are sentences once they are tidied. And it reads a number from
`overflow` on as infinite, so that it refuses such a step.
-/

namespace WorkflowBoard.Qa

/-! ## The grammar -/

/-- Decimal digits that write the number. -/
def IsNumeral (cs : List Char) (n : Nat) : Prop :=
  cs ≠ [] ∧ (∀ c ∈ cs, c.isDigit = true) ∧ decimal cs = n

/-- A member of a comma list: from where to where in which steps. Which numbers may be steps is
    left open. -/
inductive Segment (Step : Nat → Prop) (min max : Int) : List Char → Int → Int → Nat → Prop
  | star : Segment Step min max ['*'] min max 1
  | value {as : List Char} {a : Nat} (ha : IsNumeral as a) (hmin : min ≤ a) (hmax : a ≤ max) :
      Segment Step min max as a a 1
  | range {as bs : List Char} {a b : Nat} (ha : IsNumeral as a) (hb : IsNumeral bs b)
      (hmin : min ≤ a) (hab : a ≤ b) (hmax : b ≤ max) :
      Segment Step min max (as ++ '-' :: bs) a b 1
  | rangeStep {as bs ns : List Char} {a b n : Nat} (ha : IsNumeral as a) (hb : IsNumeral bs b)
      (hn : IsNumeral ns n) (hmin : min ≤ a) (hab : a ≤ b) (hmax : b ≤ max) (hstep : Step n) :
      Segment Step min max (as ++ '-' :: bs ++ '/' :: ns) a b n
  | starStep {ns : List Char} {n : Nat} (hn : IsNumeral ns n) (hstep : Step n) :
      Segment Step min max ('*' :: '/' :: ns) min max n

/-- `lo`, `lo + n`, … up to `hi`. -/
def steps (lo hi : Int) (n : Nat) : Set Int := {v | ∃ i : Nat, v = lo + n * i ∧ v ≤ hi}

/-- A comma list and its values. -/
inductive Field (Step : Nat → Prop) (min max : Int) : List (List Char) → Set Int → Prop
  | one {seg : List Char} {lo hi : Int} {n : Nat} (h : Segment Step min max seg lo hi n) :
      Field Step min max [seg] (steps lo hi n)
  | more {seg : List Char} {lo hi : Int} {n : Nat} {segs : List (List Char)} {vs : Set Int}
      (h : Segment Step min max seg lo hi n) (hrest : Field Step min max segs vs) :
      Field Step min max (seg :: segs) (steps lo hi n ∪ vs)

structure CronSets where
  minute : Set Int
  hour : Set Int
  dom : Set Int
  month : Set Int
  dow : Set Int

/-- Five words, each a comma list within its bounds. What is read of a member of a list, `read`, is
    the member itself in the grammar. -/
structure SentenceBy (Step : Nat → Prop) (read : List Char → List Char) (s : String)
    (sets : CronSets) : Prop where
  fields : ∃ m h dom mon dow, Words isJsSpace s.toList [m, h, dom, mon, dow] ∧
    Field Step 0 59 ((m.splitOn ',').map read) sets.minute ∧
    Field Step 0 23 ((h.splitOn ',').map read) sets.hour ∧
    Field Step 1 31 ((dom.splitOn ',').map read) sets.dom ∧
    Field Step 1 12 ((mon.splitOn ',').map read) sets.month ∧
    Field Step 0 6 ((dow.splitOn ',').map read) sets.dow

/-- The documented grammar. -/
def Sentence (s : String) (sets : CronSets) : Prop := SentenceBy (1 ≤ ·) id s sets

/-! ## What the parser reads -/

/-- The digits at the start, behind a plus sign. -/
def tidyNumber : List Char → List Char
  | '+' :: cs => cs.takeWhile Char.isDigit
  | cs => cs.takeWhile Char.isDigit

/-- A base: nothing stands for `*`, of a range the first two parts count, and a single value with a
    step is a range from the value to itself. -/
def tidyBase (base : List Char) (stepped : Bool) : List Char :=
  if base = ['*'] ∨ base = [] then ['*']
  else if '-' ∈ base then
    tidyNumber ((base.splitOn '-').getD 0 []) ++ '-' :: tidyNumber ((base.splitOn '-').getD 1 [])
  else if stepped then tidyNumber base ++ '-' :: tidyNumber base
  else tidyNumber base

/-- A member of a comma list without what the parser passes over. -/
def tidySegment (seg : List Char) : List Char :=
  let base := seg.takeWhile (· ≠ '/')
  if seg = [] then []
  else if '/' ∈ seg then tidyBase base true ++ '/' :: tidyNumber (seg.drop (base.length + 1))
  else tidyBase base false

/-- The digits of the step of a member. -/
def stepDigits (seg : List Char) : List Char :=
  tidyNumber (seg.drop ((seg.takeWhile (· ≠ '/')).length + 1))

/-- A sentence once it is tidied. -/
def TidySentence (s : String) (sets : CronSets) : Prop := SentenceBy (1 ≤ ·) tidySegment s sets

/-- The members of the comma lists of a text. -/
def IsMember (s : String) (seg : List Char) : Prop :=
  ∃ w ∈ words isJsSpace s.toList, seg ∈ w.splitOn ','

/-- There is nothing to tidy. -/
def Tidy (s : String) : Prop := ∀ seg, IsMember s seg → tidySegment seg = seg

/-- No step is read as infinite. -/
def FiniteSteps (s : String) : Prop :=
  ∀ seg, IsMember s seg → '/' ∈ seg → decimal (stepDigits seg) < overflow

/-! ## The promise -/

def CronFields.sets (f : CronFields) : CronSets where
  minute := {v | v ∈ f.minute}
  hour := {v | v ∈ f.hour}
  dom := {v | v ∈ f.dom}
  month := {v | v ∈ f.month}
  dow := {v | v ∈ f.dow}

/-- The parser accepts the text just when it is a sentence of the grammar, and with its values. -/
structure KeepsGrammar (s : String) : Prop where
  accepts : (∃ f, parseCron s = .ok f) ↔ ∃ sets, Sentence s sets
  values : ∀ f sets, parseCron s = .ok f → Sentence s sets → f.sets = sets

end WorkflowBoard.Qa
