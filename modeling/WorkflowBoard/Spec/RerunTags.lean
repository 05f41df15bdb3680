import WorkflowBoard.Native.QaRerunLoop
import WorkflowBoard.Spec.WhiteSpace

/-!
# The generation tag of a rerun

The generation of a rerun is written into the tags of the ticket it files and read from there when
the ticket is done. `normalizeTags` drops a tag behind the thirtieth and a second spelling of one
it has, so the generation comes back where the policy's own tags leave room for it.
-/

namespace WorkflowBoard.Qa

open WorkflowBoard.Tickets

/-! ## Plain text -/

variable {cs : List Char} {n : Nat}

/-- A character that is neither white space nor wider than one unit. -/
def isPlain (c : Char) : Bool := !isJsSpace c && c.toNat < 0x10000

theorem isPlain_of_isDigit {c : Char} (h : c.isDigit = true) : isPlain c = true := by
  have hspace := isJsSpace_of_isDigit h
  simp only [Char.isDigit, Bool.and_eq_true, decide_eq_true_eq, UInt32.le_iff_toNat_le] at h
  have hnine : ('9' : Char).val.toNat = 57 := rfl
  have hwidth : c.toNat < 0x10000 := by
    show c.val.toNat < _
    omega
  simp [isPlain, hspace, hwidth]

theorem not_isJsSpace_of_isPlain {c : Char} (h : isPlain c = true) : isJsSpace c = false := by
  simp only [isPlain, Bool.and_eq_true, Bool.not_eq_true'] at h
  exact h.1

theorem collapseSpaces_plain (h : ∀ c ∈ cs, isPlain c = true) : collapseSpaces cs = cs := by
  induction cs with
  | nil => rfl
  | cons c cs ih =>
    have hc := h c List.mem_cons_self
    simp only [isPlain, Bool.and_eq_true, Bool.not_eq_true'] at hc
    have ih := ih fun d hd => h d (List.mem_cons_of_mem c hd)
    unfold collapseSpaces at ih ⊢
    simp [hc.1, ih]

theorem sliceText_plain (h : ∀ c ∈ cs, isPlain c = true) (hn : cs.length ≤ n) :
    sliceText n (String.ofList cs) = String.ofList cs := by
  have hgo : sliceText.go n cs = cs := by
    induction cs generalizing n with
    | nil => rfl
    | cons c cs ih =>
      have hc := h c List.mem_cons_self
      simp only [isPlain, Bool.and_eq_true, decide_eq_true_eq] at hc
      have hwidth : utf16Width c = 1 := if_pos hc.2
      rw [List.length_cons] at hn
      simp only [sliceText.go, hwidth]
      rw [if_pos (by omega), ih (fun d hd => h d (List.mem_cons_of_mem c hd)) (by omega)]
  simp [sliceText, hgo]

theorem normalizeTag_plain (h : ∀ c ∈ cs, isPlain c = true) (hlen : cs.length ≤ maxTagLength) :
    normalizeTag (String.ofList cs) = String.ofList cs := by
  unfold normalizeTag
  have htrim := jsTrim_of_no_space fun c hc => not_isJsSpace_of_isPlain (h c hc)
  rw [htrim, collapseSpaces_plain h, sliceText_plain h hlen]

/-! ## Numbers -/

/-- A generation that a number of the runtime holds exactly. -/
def maxSafeInteger : Nat := 2 ^ 53 - 1

theorem safe_lt_overflow : maxSafeInteger < overflow := by
  decide +kernel

/-- The digits of a number are read as that number. -/
theorem parseInt_toDigits {n : Nat} (hsafe : n ≤ maxSafeInteger) :
    parseInt (Nat.toDigits 10 n) = some (n : Int) := by
  have hdigit : ∀ c ∈ Nat.toDigits 10 n, c.isDigit = true :=
    fun c hc => Nat.isDigit_of_mem_toDigits (by omega) (by omega) hc
  have hall : (Nat.toDigits 10 n).takeWhile Char.isDigit = Nat.toDigits 10 n :=
    List.takeWhile_eq_self_iff.mpr hdigit
  have hvalue : decimal (Nat.toDigits 10 n) = n := by
    have := Nat.ofDigitChars_ten_toDigits (n := n)
    rw [Nat.ofDigitChars_eq_foldl] at this
    refine Eq.trans ?_ this
    exact List.foldl_ext _ _ _ fun m c _ => by rw [Nat.mul_comm]
  have hdigits : parseInt.digits (Nat.toDigits 10 n) = some n := by
    have hsmall : ¬overflow ≤ n := by
      have := safe_lt_overflow
      omega
    unfold parseInt.digits
    simp only [hall, hvalue, Nat.toDigits_ne_nil, hsmall, or_self, if_false]
  unfold parseInt
  rw [dropWhile_no_space fun c hc => isJsSpace_of_isDigit (hdigit c hc)]
  split
  · rename_i cs hcs
    have := hdigit '-' (by rw [hcs]; exact List.mem_cons_self)
    cases this
  · rename_i cs hcs
    have := hdigit '+' (by rw [hcs]; exact List.mem_cons_self)
    cases this
  · rw [hdigits]
    rfl

/-! ## The generation tag -/

theorem toList_rerunTag (generation : Nat) :
    (rerunTag generation).toList = rerunTagPrefix.toList ++ Nat.toDigits 10 generation := by
  simp [rerunTag]

variable {generation : Nat}

/-- A generation tag is normal. -/
theorem normalizeTag_rerunTag (h : generation ≤ maxSafeInteger) :
    normalizeTag (rerunTag generation) = rerunTag generation := by
  have hlen : (Nat.toDigits 10 generation).length ≤ 16 := by
    rw [Nat.length_toDigits_le_iff (by omega) (by omega)]
    unfold maxSafeInteger at h
    omega
  have hplain : ∀ c ∈ (rerunTag generation).toList, isPlain c = true := by
    intro c hc
    rw [toList_rerunTag, List.mem_append] at hc
    rcases hc with hc | hc
    · have hprefix : rerunTagPrefix.toList.all isPlain = true := by decide
      exact List.all_eq_true.mp hprefix c hc
    · exact isPlain_of_isDigit (Nat.isDigit_of_mem_toDigits (by omega) (by omega) hc)
  have htag := normalizeTag_plain hplain (by
    rw [toList_rerunTag, List.length_append]
    have hprefix : rerunTagPrefix.toList.length = 9 := by decide
    unfold maxTagLength
    omega)
  rwa [String.ofList_toList] at htag

theorem startsWith_rerunTag (generation : Nat) :
    startsWith rerunTagPrefix (rerunTag generation) = true := by
  simp [startsWith, toList_rerunTag]

theorem tagRest_rerunTag (generation : Nat) :
    tagRest rerunTagPrefix (rerunTag generation) = Nat.toDigits 10 generation := by
  have hlen : rerunTagPrefix.length = rerunTagPrefix.toList.length := by decide
  unfold tagRest
  rw [toList_rerunTag, hlen, List.drop_left]

/-- The generation of a tag is read, unless another tag has a higher one. -/
theorem le_parseGeneration_of_mem {tags : List String}
    (hsafe : generation ≤ maxSafeInteger) (h : rerunTag generation ∈ tags) :
    generation ≤ parseGeneration tags := by
  have hfold : ∀ (tags : List String) (gen : Nat), gen ≤ tags.foldl (fun gen t =>
      if startsWith rerunTagPrefix t then
        max gen (((parseInt (tagRest rerunTagPrefix t)).getD 0).toNat) else gen) gen := by
    intro tags
    induction tags with
    | nil => exact fun gen => Nat.le_refl gen
    | cons t tags ih =>
      intro gen
      rw [List.foldl_cons]
      refine le_trans ?_ (ih _)
      split
      · exact Nat.le_max_left ..
      · exact Nat.le_refl _
  obtain ⟨before, after, rfl⟩ := List.append_of_mem h
  unfold parseGeneration
  rw [List.foldl_append, List.foldl_cons, if_pos (startsWith_rerunTag generation),
    tagRest_rerunTag, parseInt_toDigits hsafe]
  exact le_trans (Nat.le_max_right _ _) (hfold after _)

/-! ## The tags of a ticket -/

/-- A last tag that there is room for, and no other spelling of, stays. -/
theorem mem_normalizeTags_last {u : Unicode} {raw : List String} {last : String}
    (hne : normalizeTag last ≠ "") (hroom : raw.length < maxTags)
    (hnew : ∀ t ∈ raw, u.lower (normalizeTag t) ≠ u.lower (normalizeTag last)) :
    normalizeTag last ∈ normalizeTags u (raw ++ [last]) := by
  have hgo : ∀ (out raw : List String), out.length + raw.length < maxTags →
      (∀ t ∈ out, u.lower t ≠ u.lower (normalizeTag last)) →
      (∀ t ∈ raw, u.lower (normalizeTag t) ≠ u.lower (normalizeTag last)) →
      normalizeTag last ∈ normalizeTags.go u out (raw ++ [last]) := by
    intro out raw
    -- Induction on the tags before it; what is out so far never fills the list.
    induction raw generalizing out with
    | nil =>
      intro _ hout _
      have hfresh : u.lower (normalizeTag last) ∉ out.map u.lower := by
        simp only [List.mem_map, not_exists, not_and]
        exact hout
      simp only [List.nil_append, normalizeTags.go, hne, hfresh, or_self, if_false]
      split <;> simp
    | cons t raw ih =>
      intro hroom hout hraw
      rw [List.length_cons] at hroom
      have hrest : ∀ t ∈ raw, u.lower (normalizeTag t) ≠ u.lower (normalizeTag last) :=
        fun t ht => hraw t (List.mem_cons_of_mem _ ht)
      simp only [List.cons_append, normalizeTags.go]
      split
      · exact ih out (by omega) hout hrest
      · rw [if_neg (by simp; omega)]
        refine ih _ (by simp; omega) (fun t' ht' => ?_) hrest
        rcases List.mem_append.mp ht' with ht' | ht'
        · exact hout t' ht'
        · rw [List.mem_singleton.mp ht']
          exact hraw t List.mem_cons_self
  unfold normalizeTags
  exact hgo [] raw (by rwa [List.length_nil, Nat.zero_add]) nofun hnew

/-- The policy's tags leave room for a generation tag, and none is another spelling of one. -/
def ResultPolicy.leavesRoom (w : QaWorld) (p : ResultPolicy) : Bool :=
  let tags := (buildTags w.unicode p.on_failure_ticket w.scenario_id 0).filter
    fun t => !startsWith rerunTagPrefix t
  tags.length < maxTags &&
    tags.all fun t => !startsWith rerunTagPrefix (w.unicode.lower (normalizeTag t))

/-- The generation read from a filed ticket is that of its run, or a higher one. -/
theorem le_parseGeneration {w : QaWorld} {p : ResultPolicy} {project : Option String} {now : Date}
    (hlower : ∀ g, w.unicode.lower (rerunTag g) = rerunTag g) (hroom : p.leavesRoom w = true)
    (hsafe : generation ≤ maxSafeInteger) :
    generation ≤ parseGeneration (failureTicket w p generation project now).tags := by
  rcases Nat.eq_zero_or_pos generation with rfl | hpos
  · exact Nat.zero_le _
  · simp only [ResultPolicy.leavesRoom, Bool.and_eq_true, decide_eq_true_eq] at hroom
    have hnormal := normalizeTag_rerunTag hsafe
    have hbuild : buildTags w.unicode p.on_failure_ticket w.scenario_id generation =
        (buildTags w.unicode p.on_failure_ticket w.scenario_id 0).filter
          (fun t => !startsWith rerunTagPrefix t) ++ [rerunTag generation] := by
      unfold buildTags
      rw [if_pos hpos, if_neg (Nat.lt_irrefl 0)]
    apply le_parseGeneration_of_mem hsafe
    show rerunTag generation ∈ normalizeTags w.unicode
      (buildTags w.unicode p.on_failure_ticket w.scenario_id generation)
    rw [hbuild]
    have hne : normalizeTag (rerunTag generation) ≠ "" := by
      rw [hnormal]
      intro hempty
      have hstart := startsWith_rerunTag generation
      rw [hempty] at hstart
      revert hstart
      decide
    have hmem := mem_normalizeTags_last (u := w.unicode) hne hroom.1 fun t ht heq => by
      have hspelling := List.all_eq_true.mp hroom.2 t ht
      rw [heq, hnormal, hlower, startsWith_rerunTag] at hspelling
      cases hspelling
    rwa [hnormal] at hmem

end WorkflowBoard.Qa
