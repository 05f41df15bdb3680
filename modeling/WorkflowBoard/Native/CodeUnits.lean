import WorkflowBoard.Native.JsString

/-!
# Strings as code units

A string of the runtime is a list of UTF-16 code units, of which two that belong together may be
torn apart. Where a service cuts, joins or searches a text of any kind, the model works on these.
-/

namespace WorkflowBoard

/-- A string of the runtime. -/
abbrev CodeUnits := List UInt16

/-- The code units of a character. -/
def charUnits (c : Char) : CodeUnits :=
  if c.toNat < 0x10000 then [c.toNat.toUInt16]
  else [(0xD800 + (c.toNat - 0x10000) / 0x400).toUInt16,
    (0xDC00 + (c.toNat - 0x10000) % 0x400).toUInt16]

/-- The code units of a text of the source. -/
def units (s : String) : CodeUnits := s.toList.flatMap charUnits

namespace CodeUnits

/-- White space and line terminators of ECMAScript: what `trim` removes, and `\s`. -/
def isSpace (u : UInt16) : Bool :=
  u ∈ [0x9, 0xA, 0xB, 0xC, 0xD, 0x20, 0xA0, 0x1680, 0x2028, 0x2029, 0x202F, 0x205F, 0x3000,
    0xFEFF] || (0x2000 ≤ u && u ≤ 0x200A)

/-- `s.trim()`. -/
def trim (s : CodeUnits) : CodeUnits :=
  ((s.dropWhile isSpace).reverse.dropWhile isSpace).reverse

/-- `s.startsWith(head)`. -/
def startsWith (s head : CodeUnits) : Bool := head.isPrefixOf s

/-- `s.slice(0, end)`; a negative end counts from the end. -/
def sliceTo (s : CodeUnits) (stop : Int) : CodeUnits :=
  s.take (if stop < 0 then s.length + stop else stop).toNat

theorem infix_of_trim (s : CodeUnits) : s.trim <:+: s := by
  have hright :
      ((s.dropWhile isSpace).reverse.dropWhile isSpace).reverse <+: s.dropWhile isSpace := by
    rw [← List.reverse_suffix, List.reverse_reverse]
    exact List.dropWhile_suffix _
  exact hright.isInfix.trans (List.dropWhile_suffix _).isInfix

theorem infix_of_sliceTo (s : CodeUnits) (stop : Int) : s.sliceTo stop <:+: s :=
  (List.take_prefix _ _).isInfix

end CodeUnits

end WorkflowBoard
