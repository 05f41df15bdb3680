import Mathlib.Algebra.BigOperators.Group.List.Basic
import Mathlib.Algebra.Ring.Nat

/-!
# Strings of the runtime

The string operations the services share: `trim` removes the white space and line
terminators of ECMAScript, and `length` and `slice` count UTF-16 units. `toLowerCase` is modelled by
`String.toLower`, which lowers ASCII letters only; no other character becomes one of the words that
the services look for.
-/

namespace WorkflowBoard

/-- White space and line terminators of ECMAScript, what `trim` removes. -/
def isJsSpace (c : Char) : Bool :=
  c.val ∈ [0x9, 0xA, 0xB, 0xC, 0xD, 0x20, 0xA0, 0x1680, 0x2028, 0x2029, 0x202F, 0x205F, 0x3000,
    0xFEFF] || (0x2000 ≤ c.val && c.val ≤ 0x200A)

/-- `s.trim()` on the characters of a string. -/
def jsTrim (s : String) : List Char :=
  ((s.toList.dropWhile isJsSpace).reverse.dropWhile isJsSpace).reverse

/-- `s.trim()`. -/
def trimText (s : String) : String := String.ofList (jsTrim s)

/-- The UTF-16 units of a character. -/
def utf16Width (c : Char) : Nat := if c.toNat < 0x10000 then 1 else 2

/-- `s.length`. -/
def utf16Length (s : String) : Nat := (s.toList.map utf16Width).sum

/-- `s.slice(0, n)`: the longest start of whole characters in `n` UTF-16 units. -/
def sliceText (n : Nat) (s : String) : String :=
  String.ofList (go n s.toList)
where
  go (n : Nat) : List Char → List Char
    | [] => []
    | c :: cs => if utf16Width c ≤ n then c :: go (n - utf16Width c) cs else []

end WorkflowBoard
