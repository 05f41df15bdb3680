import Mathlib.Data.List.TakeWhile
import WorkflowBoard.Native.JsString

/-!
# White space

What `trim` removes and what it leaves as it is.
-/

namespace WorkflowBoard

variable {c d : Char} {cs ds : List Char} {s : String}

theorem not_isJsSpace (h : 0x21 ≤ c.val.toNat ∧ c.val.toNat ≤ 0x7e) : isJsSpace c = false := by
  have hne : ∀ n : UInt32, n.toNat < 0x21 ∨ 0x7e < n.toNat → c.val ≠ n := by
    rintro n hn rfl
    omega
  have hout : ¬ (0x2000 : UInt32) ≤ c.val := by
    rw [UInt32.le_iff_toNat_le]
    have hbound : (0x2000 : UInt32).toNat = 0x2000 := rfl
    omega
  simp only [isJsSpace, List.mem_cons, List.not_mem_nil, or_false, hout, Bool.or_eq_false_iff,
    decide_eq_false_iff_not, Bool.false_and, decide_false, and_true, not_or]
  and_intros <;> exact hne _ (by decide)

theorem isJsSpace_of_isDigit (h : c.isDigit = true) : isJsSpace c = false := by
  simp only [Char.isDigit, Bool.and_eq_true, decide_eq_true_eq, ge_iff_le,
    UInt32.le_iff_toNat_le] at h
  have hzero : '0'.val.toNat = 48 := rfl
  have hnine : '9'.val.toNat = 57 := rfl
  exact not_isJsSpace (by omega)

theorem toLower_of_isJsSpace (h : isJsSpace c = true) : c.toLower = c := by
  unfold Char.toLower
  split
  · rename_i hupper
    simp only [ge_iff_le, UInt32.le_iff_toNat_le] at hupper
    have hA : 'A'.val.toNat = 65 := rfl
    have hZ : 'Z'.val.toNat = 90 := rfl
    rw [not_isJsSpace (by omega)] at h
    cases h
  · rfl

theorem dropWhile_no_space (h : ∀ c ∈ cs, isJsSpace c = false) : cs.dropWhile isJsSpace = cs := by
  cases cs with
  | nil => rfl
  | cons c cs => simp [h c List.mem_cons_self]

theorem jsTrim_of_no_space (h : ∀ c ∈ cs, isJsSpace c = false) :
    jsTrim (String.ofList cs) = cs := by
  have hreverse : ∀ c ∈ cs.reverse, isJsSpace c = false := fun c hc => h c (List.mem_reverse.mp hc)
  unfold jsTrim
  rw [String.toList_ofList, dropWhile_no_space h, dropWhile_no_space hreverse, List.reverse_reverse]

theorem not_isJsSpace_head_dropWhile (h : ds.dropWhile isJsSpace = c :: cs) :
    isJsSpace c = false := by
  have hhead := List.head?_dropWhile_not isJsSpace ds
  rw [h] at hhead
  exact hhead

/-- Text between characters that are no space has nothing to trim. -/
theorem trimText_eq_self (hfirst : s.toList = c :: cs) (hc : isJsSpace c = false)
    (hlast : s.toList.reverse = d :: ds) (hd : isJsSpace d = false) : trimText s = s := by
  have hleft : s.toList.dropWhile isJsSpace = s.toList := by
    rw [hfirst, List.dropWhile_cons, hc]
    rfl
  have hright : s.toList.reverse.dropWhile isJsSpace = s.toList.reverse := by
    rw [hlast, List.dropWhile_cons, hd]
    rfl
  rw [trimText, jsTrim, hleft, hright, List.reverse_reverse, String.ofList_toList]

theorem exists_jsTrim (s : String) : ∃ lead trail, s.toList = lead ++ (jsTrim s ++ trail) ∧
    (∀ c ∈ lead, isJsSpace c = true) ∧ ∀ c ∈ trail, isJsSpace c = true := by
  have hlead := List.takeWhile_append_dropWhile (p := isJsSpace) (l := s.toList)
  have htrail := List.takeWhile_append_dropWhile (p := isJsSpace)
    (l := (s.toList.dropWhile isJsSpace).reverse)
  refine ⟨s.toList.takeWhile isJsSpace,
    ((s.toList.dropWhile isJsSpace).reverse.takeWhile isJsSpace).reverse, ?_, ?_, ?_⟩
  · rw [jsTrim, ← List.reverse_append, htrail, List.reverse_reverse, hlead]
  · exact fun c hc => List.mem_takeWhile_imp hc
  · exact fun c hc => List.mem_takeWhile_imp (List.mem_reverse.mp hc)

theorem isJsSpace_of_trimText (h : trimText s = "") : ∀ c ∈ s.toList, isJsSpace c = true := by
  obtain ⟨lead, trail, hs, hlead, htrail⟩ := exists_jsTrim s
  have hempty : jsTrim s = [] := String.ofList_eq_empty_iff.mp h
  rw [hs, hempty, List.nil_append]
  intro c hc
  obtain hc | hc := List.mem_append.mp hc
  · exact hlead c hc
  · exact htrail c hc

end WorkflowBoard
