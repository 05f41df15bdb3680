import WorkflowBoard.Spec.CronGrammar
import WorkflowBoard.Spec.WhiteSpace

/-!
# Members of a comma list

How the parser reads a number, and that it reads a member of a comma list of a cron field as the
grammar does once the member is tidied.
-/

namespace WorkflowBoard.Qa

variable {Step : Nat → Prop} {min max lo hi : Int} {as bs cs ds ns seg base : List Char} {n : Nat}

/-! ## Characters -/

/-- Digits only. -/
def AllDigits (cs : List Char) : Prop := ∀ c ∈ cs, c.isDigit = true

theorem AllDigits.not_mem (h : AllDigits cs) {c : Char} (hc : c.isDigit = false) : c ∉ cs :=
  fun hmem => Bool.noConfusion ((h c hmem).symm.trans hc)

theorem AllDigits.dash (h : AllDigits cs) : '-' ∉ cs := h.not_mem rfl

theorem AllDigits.slash (h : AllDigits cs) : '/' ∉ cs := h.not_mem rfl

theorem AllDigits.star (h : AllDigits cs) : '*' ∉ cs := h.not_mem rfl

theorem IsNumeral.allDigits (h : IsNumeral cs n) : AllDigits cs := h.2.1

theorem allDigits_takeWhile (cs : List Char) : AllDigits (cs.takeWhile Char.isDigit) := by
  induction cs with
  | nil => nofun
  | cons c cs ih =>
    rw [List.takeWhile_cons]
    split
    · rename_i hc
      exact List.forall_mem_cons.mpr ⟨hc, ih⟩
    · nofun

theorem allDigits_tidyNumber (cs : List Char) : AllDigits (tidyNumber cs) := by
  unfold tidyNumber
  split <;> exact allDigits_takeWhile _

theorem tidyNumber_of_allDigits (h : AllDigits cs) : tidyNumber cs = cs := by
  have hplus : cs.head? ≠ some '+' := fun hhead =>
    h.not_mem rfl (List.mem_of_mem_head? (Option.mem_def.mpr hhead))
  unfold tidyNumber
  split
  · exact absurd rfl hplus
  · exact List.takeWhile_eq_self_iff.mpr h

/-! ## Numbers -/

theorem digits_eq_some : parseInt.digits cs = some n ↔
    IsNumeral (cs.takeWhile Char.isDigit) n ∧ n < overflow := by
  unfold parseInt.digits IsNumeral
  dsimp only
  rw [Option.ite_none_left_eq_some]
  constructor
  · rintro ⟨hne, hn⟩
    cases hn
    rw [not_or, Nat.not_le] at hne
    exact ⟨⟨hne.1, allDigits_takeWhile cs, rfl⟩, hne.2⟩
  · rintro ⟨⟨hne, _, rfl⟩, hlt⟩
    exact ⟨not_or.mpr ⟨hne, Nat.not_le.mpr hlt⟩, rfl⟩

theorem parseInt_eq_some (hspace : ∀ c ∈ cs, isJsSpace c = false) (hminus : '-' ∉ cs.head?)
    {v : Int} :
    parseInt cs = some v ↔ ∃ n, IsNumeral (tidyNumber cs) n ∧ n < overflow ∧ v = n := by
  have hmap : ∀ ds : List Char, ((parseInt.digits ds).map Int.ofNat) = some v ↔
      ∃ n, IsNumeral (ds.takeWhile Char.isDigit) n ∧ n < overflow ∧ v = n := by
    intro ds
    simp only [Option.map_eq_some_iff, digits_eq_some, and_assoc]
    exact exists_congr fun n => and_congr_right fun _ => and_congr_right fun _ => eq_comm
  unfold parseInt tidyNumber
  rw [dropWhile_no_space hspace]
  split
  · exact absurd rfl hminus
  · exact hmap _
  · rename_i hplus
    split
    · exact (hplus _ rfl).elim
    · exact hmap _

/-- A step that is not read as infinite. -/
def IsFiniteStep (n : Nat) : Prop := 1 ≤ n ∧ n < overflow

/-- A positive number; what stands behind a minus sign is none. -/
theorem parseInt_pos (hspace : ∀ c ∈ cs, isJsSpace c = false) {v : Int} :
    (parseInt cs).filter (0 < ·) = some v ↔
      ∃ n, IsNumeral (tidyNumber cs) n ∧ IsFiniteStep n ∧ v = n := by
  rw [Option.filter_eq_some_iff, decide_eq_true_eq]
  by_cases hminus : '-' ∈ cs.head?
  · obtain ⟨rest, rfl⟩ : ∃ rest, cs = '-' :: rest := by
      cases cs with
      | nil => cases hminus
      | cons c rest => exact ⟨rest, by rw [Option.some.inj hminus]⟩
    constructor
    · rintro ⟨hparse, hpos⟩
      unfold parseInt at hparse
      rw [dropWhile_no_space hspace] at hparse
      obtain ⟨m, hdigits, hv⟩ := Option.map_eq_some_iff.mp hparse
      obtain ⟨a, _, ha⟩ := Option.bind_eq_some_iff.mp hdigits
      obtain rfl : (a : Int) = m := Option.some.inj ha
      omega
    · rintro ⟨n, hn, _⟩
      exact absurd (show tidyNumber ('-' :: rest) = [] from rfl) hn.1
  · rw [parseInt_eq_some hspace hminus]
    constructor
    · rintro ⟨⟨n, hn, hlt, rfl⟩, hpos⟩
      exact ⟨n, hn, ⟨by omega, hlt⟩, rfl⟩
    · rintro ⟨n, hn, ⟨hpos, hlt⟩, rfl⟩
      exact ⟨⟨n, hn, hlt, rfl⟩, by omega⟩

/-! ## Members of a comma list -/

theorem mem_range_dash (as bs : List Char) : '-' ∈ as ++ '-' :: bs :=
  List.mem_append_right as List.mem_cons_self

theorem mem_rangeStep_dash (as bs ns : List Char) : '-' ∈ as ++ '-' :: bs ++ '/' :: ns :=
  List.mem_append_left _ (mem_range_dash as bs)

theorem mem_rangeStep_slash (as bs ns : List Char) : '/' ∈ as ++ '-' :: bs ++ '/' :: ns :=
  List.mem_append_right _ List.mem_cons_self

theorem star_inv (h : Segment Step min max ['*'] lo hi n) : lo = min ∧ hi = max ∧ n = 1 := by
  generalize hseg : ['*'] = seg at h
  cases h with
  | star => exact ⟨rfl, rfl, rfl⟩
  | value ha => exact absurd (hseg ▸ List.mem_cons_self) ha.allDigits.star
  | range => exact absurd (hseg ▸ mem_range_dash _ _) (by decide)
  | rangeStep => exact absurd (hseg ▸ mem_rangeStep_dash _ _ _) (by decide)
  | starStep => cases hseg

theorem value_inv (hds : AllDigits ds) (h : Segment Step min max ds lo hi n) :
    ∃ a : Nat, IsNumeral ds a ∧ min ≤ a ∧ (a : Int) ≤ max ∧ lo = a ∧ hi = a ∧ n = 1 := by
  cases h with
  | star => exact absurd List.mem_cons_self hds.star
  | value ha hmin hmax => exact ⟨_, ha, hmin, hmax, rfl, rfl, rfl⟩
  | range => exact absurd (mem_range_dash _ _) hds.dash
  | rangeStep => exact absurd (mem_rangeStep_dash _ _ _) hds.dash
  | starStep => exact absurd List.mem_cons_self hds.star

theorem range_inv (has : AllDigits as) (hbs : AllDigits bs)
    (h : Segment Step min max (as ++ '-' :: bs) lo hi n) :
    ∃ a b : Nat, IsNumeral as a ∧ IsNumeral bs b ∧ min ≤ a ∧ a ≤ b ∧ (b : Int) ≤ max ∧
      lo = a ∧ hi = b ∧ n = 1 := by
  have hslash : '/' ∉ as ++ '-' :: bs := by
    simp [has.slash, hbs.slash]
  generalize hseg : as ++ '-' :: bs = seg at h hslash
  cases h with
  | star => exact absurd (hseg ▸ mem_range_dash as bs) (by decide)
  | value ha => exact absurd (hseg ▸ mem_range_dash as bs) ha.allDigits.dash
  | @range as' bs' a b ha hb hmin hab hmax =>
    obtain ⟨rfl, -, rfl⟩ := (List.append_cons_inj_of_notMem ha.allDigits.dash hb.allDigits.dash).mp
      hseg.symm
    exact ⟨a, b, ha, hb, hmin, hab, hmax, rfl, rfl, rfl⟩
  | rangeStep => exact absurd (mem_rangeStep_slash _ _ _) hslash
  | starStep => exact absurd (by simp) hslash

theorem rangeStep_inv (has : AllDigits as) (hbs : AllDigits bs) (hns : AllDigits ns)
    (h : Segment Step min max (as ++ '-' :: bs ++ '/' :: ns) lo hi n) :
    ∃ a b : Nat, IsNumeral as a ∧ IsNumeral bs b ∧ IsNumeral ns n ∧ min ≤ a ∧ a ≤ b ∧
      (b : Int) ≤ max ∧ lo = a ∧ hi = b ∧ Step n := by
  generalize hseg : as ++ '-' :: bs ++ '/' :: ns = seg at h
  cases h with
  | star => exact absurd (hseg ▸ mem_rangeStep_dash as bs ns) (by decide)
  | value ha => exact absurd (hseg ▸ mem_rangeStep_dash as bs ns) ha.allDigits.dash
  | @range as' bs' a b ha hb =>
    have hslash := hseg ▸ mem_rangeStep_slash as bs ns
    simp [ha.allDigits.slash, hb.allDigits.slash] at hslash
  | @rangeStep as' bs' ns' a b n ha hb hn hmin hab hmax hstep =>
    have hbase : '/' ∉ as' ++ '-' :: bs' := by
      simp [ha.allDigits.slash, hb.allDigits.slash]
    obtain ⟨hrange, -, rfl⟩ :=
      (List.append_cons_inj_of_notMem hbase hn.allDigits.slash).mp hseg.symm
    obtain ⟨rfl, -, rfl⟩ :=
      (List.append_cons_inj_of_notMem ha.allDigits.dash hb.allDigits.dash).mp hrange
    exact ⟨a, b, ha, hb, hn, hmin, hab, hmax, rfl, rfl, hstep⟩
  | starStep =>
    have hstar : '*' ∉ as ++ '-' :: bs ++ '/' :: ns := by
      simp [has.star, hbs.star, hns.star]
    exact absurd (hseg ▸ List.mem_cons_self) hstar

theorem starStep_inv (hns : AllDigits ns) (h : Segment Step min max ('*' :: '/' :: ns) lo hi n) :
    lo = min ∧ hi = max ∧ IsNumeral ns n ∧ Step n := by
  have hdash : '-' ∉ '*' :: '/' :: ns := by
    simp [hns.dash]
  generalize hseg : '*' :: '/' :: ns = seg at h hdash
  cases h with
  | star => cases hseg
  | value ha => exact absurd (hseg ▸ List.mem_cons_self) ha.allDigits.star
  | range => exact absurd (mem_range_dash _ _) hdash
  | rangeStep => exact absurd (mem_rangeStep_dash _ _ _) hdash
  | starStep hn hstep =>
    obtain rfl := (List.cons.inj (List.cons.inj hseg).2).2
    exact ⟨rfl, rfl, hn, hstep⟩

theorem not_segment_nil (lo hi : Int) (n : Nat) : ¬Segment Step min max [] lo hi n := by
  intro h
  generalize hseg : [] = seg at h
  cases h with
  | star => cases hseg
  | value ha => exact ha.1 hseg.symm
  | range => simp at hseg
  | rangeStep => simp at hseg
  | starStep => cases hseg

/-! ## What the parser makes of a member -/

/-- A base is parsed to these bounds, and they are within those of the field. -/
def InBounds (part base : List Char) (min max lo hi : Int) : Prop :=
  segmentBounds part base min max = .ok (lo, hi) ∧ min ≤ lo ∧ hi ≤ max ∧ lo ≤ hi

variable {part : List Char}

theorem inBounds_star (hle : min ≤ max) (hbase : base = ['*'] ∨ base = []) :
    InBounds part base min max lo hi ↔ lo = min ∧ hi = max := by
  unfold InBounds segmentBounds
  dsimp only
  rw [if_pos hbase, Except.ok.injEq, Prod.mk.injEq]
  constructor
  · rintro ⟨⟨rfl, rfl⟩, -⟩
    exact ⟨rfl, rfl⟩
  · rintro ⟨rfl, rfl⟩
    exact ⟨⟨rfl, rfl⟩, Int.le_refl _, Int.le_refl _, hle⟩

/-- A part of a range has no minus sign and no white space. -/
theorem part_plain (hspace : ∀ c ∈ base, isJsSpace c = false) (i : Nat) :
    (∀ c ∈ (base.splitOn '-').getD i [], isJsSpace c = false) ∧
      '-' ∉ ((base.splitOn '-').getD i []).head? := by
  rw [List.getD_eq_getElem?_getD]
  cases hi : (base.splitOn '-')[i]? with
  | none => exact ⟨nofun, nofun⟩
  | some cs =>
    have hmem : cs ∈ base.splitOnP (· == '-') := List.mem_of_getElem? hi
    refine ⟨fun c hc => hspace c (mem_splitOnP hmem hc).1, fun hhead => ?_⟩
    cases (mem_splitOnP hmem (List.mem_of_mem_head? hhead)).2

/-- Both ends of a range are numbers within the bounds. -/
theorem inBounds_range (hspace : ∀ c ∈ base, isJsSpace c = false)
    (hoverflow : max < overflow) (hstar : ¬(base = ['*'] ∨ base = [])) (hdash : '-' ∈ base) :
    InBounds part base min max lo hi ↔
      ∃ a b : Nat, IsNumeral (tidyNumber ((base.splitOn '-').getD 0 [])) a ∧
        IsNumeral (tidyNumber ((base.splitOn '-').getD 1 [])) b ∧
        min ≤ a ∧ a ≤ b ∧ (b : Int) ≤ max ∧ lo = a ∧ hi = b := by
  obtain ⟨hspace₀, hminus₀⟩ := part_plain hspace 0
  obtain ⟨hspace₁, hminus₁⟩ := part_plain hspace 1
  unfold InBounds segmentBounds
  dsimp only
  rw [if_neg hstar, if_pos hdash]
  simp only [bind_eq_ok, orThrow_eq_ok, pure_eq_ok, Prod.mk.injEq,
    parseInt_eq_some hspace₀ hminus₀, parseInt_eq_some hspace₁ hminus₁]
  constructor
  · rintro ⟨⟨_, ⟨a, ha, -, rfl⟩, _, ⟨b, hb, -, rfl⟩, rfl, rfl⟩, hmin, hmax, hle⟩
    exact ⟨a, b, ha, hb, hmin, Int.ofNat_le.mp hle, hmax, rfl, rfl⟩
  · rintro ⟨a, b, ha, hb, hmin, hab, hmax, rfl, rfl⟩
    exact ⟨⟨a, ⟨a, ha, by omega, rfl⟩, b, ⟨b, hb, by omega, rfl⟩, rfl, rfl⟩, hmin, hmax,
      Int.ofNat_le.mpr hab⟩

theorem inBounds_value (hspace : ∀ c ∈ base, isJsSpace c = false)
    (hoverflow : max < overflow) (hstar : ¬(base = ['*'] ∨ base = [])) (hdash : '-' ∉ base) :
    InBounds part base min max lo hi ↔
      ∃ a : Nat, IsNumeral (tidyNumber base) a ∧ min ≤ a ∧ (a : Int) ≤ max ∧ lo = a ∧ hi = a := by
  have hminus : '-' ∉ base.head? := fun hhead => hdash (List.mem_of_mem_head? hhead)
  unfold InBounds segmentBounds
  dsimp only
  rw [if_neg hstar, if_neg hdash]
  simp only [bind_eq_ok, orThrow_eq_ok, pure_eq_ok, Prod.mk.injEq,
    parseInt_eq_some hspace hminus]
  constructor
  · rintro ⟨⟨_, ⟨a, ha, -, rfl⟩, rfl, rfl⟩, hmin, hmax, -⟩
    exact ⟨a, ha, hmin, hmax, rfl, rfl⟩
  · rintro ⟨a, ha, hmin, hmax, rfl, rfl⟩
    exact ⟨⟨a, ⟨a, ha, by omega, rfl⟩, rfl, rfl⟩, hmin, hmax, Int.le_refl _⟩

/-- A tidied base without a step denotes the bounds that the parser reads of it. -/
theorem segment_base (part : List Char) (hspace : ∀ c ∈ base, isJsSpace c = false)
    (hle : min ≤ max) (hoverflow : max < overflow) :
    Segment Step min max (tidyBase base false) lo hi n ↔
      InBounds part base min max lo hi ∧ n = 1 := by
  unfold tidyBase
  by_cases hstar : base = ['*'] ∨ base = []
  · rw [if_pos hstar, inBounds_star hle hstar]
    constructor
    · intro h
      obtain ⟨hlo, hhi, hn⟩ := star_inv h
      exact ⟨⟨hlo, hhi⟩, hn⟩
    · rintro ⟨⟨rfl, rfl⟩, rfl⟩
      exact .star
  rw [if_neg hstar]
  by_cases hdash : '-' ∈ base
  · rw [if_pos hdash, inBounds_range hspace hoverflow hstar hdash]
    constructor
    · intro h
      obtain ⟨a, b, ha, hb, hmin, hab, hmax, hlo, hhi, hn⟩ :=
        range_inv (allDigits_tidyNumber _) (allDigits_tidyNumber _) h
      exact ⟨⟨a, b, ha, hb, hmin, hab, hmax, hlo, hhi⟩, hn⟩
    · rintro ⟨⟨a, b, ha, hb, hmin, hab, hmax, rfl, rfl⟩, rfl⟩
      exact .range ha hb hmin hab hmax
  · rw [if_neg hdash, if_neg (by decide), inBounds_value hspace hoverflow hstar hdash]
    constructor
    · intro h
      obtain ⟨a, ha, hmin, hmax, hlo, hhi, hn⟩ := value_inv (allDigits_tidyNumber _) h
      exact ⟨⟨a, ha, hmin, hmax, hlo, hhi⟩, hn⟩
    · rintro ⟨⟨a, ha, hmin, hmax, rfl, rfl⟩, rfl⟩
      exact .value ha hmin hmax

theorem segment_stepped (part : List Char) (hspace : ∀ c ∈ base, isJsSpace c = false)
    (hle : min ≤ max) (hoverflow : max < overflow) (hns : AllDigits ns) :
    Segment Step min max (tidyBase base true ++ '/' :: ns) lo hi n ↔
      InBounds part base min max lo hi ∧ IsNumeral ns n ∧ Step n := by
  unfold tidyBase
  by_cases hstar : base = ['*'] ∨ base = []
  · rw [if_pos hstar, inBounds_star hle hstar]
    constructor
    · intro h
      obtain ⟨hlo, hhi, hn⟩ := starStep_inv hns h
      exact ⟨⟨hlo, hhi⟩, hn⟩
    · rintro ⟨⟨rfl, rfl⟩, hn, hstep⟩
      exact .starStep hn hstep
  rw [if_neg hstar]
  by_cases hdash : '-' ∈ base
  · rw [if_pos hdash, inBounds_range hspace hoverflow hstar hdash]
    constructor
    · intro h
      obtain ⟨a, b, ha, hb, hn, hmin, hab, hmax, hlo, hhi, hstep⟩ :=
        rangeStep_inv (allDigits_tidyNumber _) (allDigits_tidyNumber _) hns h
      exact ⟨⟨a, b, ha, hb, hmin, hab, hmax, hlo, hhi⟩, hn, hstep⟩
    · rintro ⟨⟨a, b, ha, hb, hmin, hab, hmax, rfl, rfl⟩, hn, hstep⟩
      exact .rangeStep ha hb hn hmin hab hmax hstep
  · rw [if_neg hdash, if_pos rfl, inBounds_value hspace hoverflow hstar hdash]
    constructor
    · intro h
      obtain ⟨a, b, ha, hb, hn, hmin, hab, hmax, rfl, rfl, hstep⟩ :=
        rangeStep_inv (allDigits_tidyNumber _) (allDigits_tidyNumber _) hns h
      -- Both ends are the value.
      obtain rfl : a = b := ha.2.2.symm.trans hb.2.2
      exact ⟨⟨a, ha, hmin, hmax, rfl, rfl⟩, hn, hstep⟩
    · rintro ⟨⟨a, ha, hmin, hmax, rfl, rfl⟩, hn, hstep⟩
      exact .rangeStep ha ha hn hmin (Nat.le_refl a) hmax hstep

/-- What a tidied member denotes: the bounds that the parser reads, and its step. -/
theorem segment_tidy (hspace : ∀ c ∈ seg, isJsSpace c = false) (hle : min ≤ max)
    (hoverflow : max < overflow) :
    Segment Step min max (tidySegment seg) lo hi n ↔
      seg ≠ [] ∧ InBounds seg (seg.takeWhile (· ≠ '/')) min max lo hi ∧
        if '/' ∈ seg then IsNumeral (stepDigits seg) n ∧ Step n else n = 1 := by
  have hbase : ∀ c ∈ seg.takeWhile (· ≠ '/'), isJsSpace c = false :=
    fun c hc => hspace c ((List.takeWhile_sublist _).subset hc)
  unfold tidySegment
  dsimp only
  by_cases hne : seg = []
  · rw [if_pos hne]
    exact ⟨fun h => absurd h (not_segment_nil lo hi n), fun h => absurd hne h.1⟩
  rw [if_neg hne]
  by_cases hslash : '/' ∈ seg
  · rw [if_pos hslash, if_pos hslash,
      segment_stepped seg hbase hle hoverflow (allDigits_tidyNumber _)]
    exact ⟨fun h => ⟨hne, h⟩, And.right⟩
  · rw [if_neg hslash, if_neg hslash, segment_base seg hbase hle hoverflow]
    exact ⟨fun h => ⟨hne, h⟩, And.right⟩

/-- The parser reads a member as the grammar reads it tidied. -/
theorem parseSegment_ok {raw : String} {vs : List Int} (hspace : ∀ c ∈ seg, isJsSpace c = false)
    (hle : min ≤ max) (hoverflow : max < overflow) :
    parseSegment raw min max seg = .ok vs ↔
      ∃ lo hi n, Segment IsFiniteStep min max (tidySegment seg) lo hi n ∧
        vs = stepRange lo hi n := by
  simp only [segment_tidy hspace hle hoverflow]
  unfold parseSegment
  dsimp only
  by_cases hslash : '/' ∈ seg
  · have hrest : ∀ c ∈ seg.drop ((seg.takeWhile (· ≠ '/')).length + 1), isJsSpace c = false :=
      fun c hc => hspace c (List.mem_of_mem_drop hc)
    simp only [if_pos hslash, bind_eq_ok, orThrow_eq_ok, pure_eq_ok, require_eq_ok,
      decide_eq_true_eq, Bool.and_eq_true, and_assoc, parseInt_pos hrest]
    constructor
    · rintro ⟨_, hne, _, ⟨n, hn, hstep, rfl⟩, ⟨lo, hi⟩, hbounds, _, hmin, hmax, hlohi, rfl⟩
      exact ⟨lo, hi, n, hne, ⟨hbounds, hmin, hmax, hlohi⟩, hn, hstep, rfl⟩
    · rintro ⟨lo, hi, n, hne, ⟨hbounds, hmin, hmax, hlohi⟩, hn, hstep, rfl⟩
      exact ⟨(), hne, n, ⟨n, hn, hstep, rfl⟩, (lo, hi), hbounds, (), hmin, hmax, hlohi, rfl⟩
  · simp only [if_neg hslash, bind_eq_ok, pure_eq_ok, require_eq_ok,
      decide_eq_true_eq, Bool.and_eq_true, and_assoc]
    constructor
    · rintro ⟨_, hne, _, ⟨⟩, ⟨lo, hi⟩, hbounds, _, hmin, hmax, hlohi, rfl⟩
      exact ⟨lo, hi, 1, hne, ⟨hbounds, hmin, hmax, hlohi⟩, rfl, rfl⟩
    · rintro ⟨lo, hi, _, hne, ⟨hbounds, hmin, hmax, hlohi⟩, rfl, rfl⟩
      exact ⟨(), hne, 1, rfl, (lo, hi), hbounds, (), hmin, hmax, hlohi, rfl⟩

/-! ## Members that are written by the grammar -/

theorem AllDigits.ne_star (h : AllDigits base) (hne : base ≠ []) : ¬(base = ['*'] ∨ base = []) := by
  rintro (rfl | hnil)
  · exact h.star List.mem_cons_self
  · exact hne hnil

theorem IsNumeral.tidyBase (h : IsNumeral as n) : tidyBase as false = as := by
  unfold Qa.tidyBase
  rw [if_neg (h.allDigits.ne_star h.1), if_neg h.allDigits.dash, if_neg (by decide),
    tidyNumber_of_allDigits h.allDigits]

theorem tidyBase_range (ha : AllDigits as) (hb : AllDigits bs) (stepped : Bool) :
    tidyBase (as ++ '-' :: bs) stepped = as ++ '-' :: bs := by
  have hstar : ¬(as ++ '-' :: bs = ['*'] ∨ as ++ '-' :: bs = []) := by
    rintro (h | h)
    · exact absurd (h ▸ mem_range_dash as bs) (by decide)
    · simp at h
  have hsplit : (as ++ '-' :: bs).splitOn '-' = [as, bs] := by
    rw [List.splitOn_append_cons_self_of_not_mem ha.dash, List.splitOn_eq_singleton hb.dash]
  unfold tidyBase
  rw [if_neg hstar, if_pos (mem_range_dash as bs), hsplit]
  rw [List.getD_cons_zero, List.getD_cons_succ, List.getD_cons_zero,
    tidyNumber_of_allDigits ha, tidyNumber_of_allDigits hb]

theorem tidySegment_base (hne : base ≠ []) (hslash : '/' ∉ base) :
    tidySegment base = tidyBase base false := by
  have hbase : base.takeWhile (· ≠ '/') = base :=
    List.takeWhile_eq_self_iff.mpr fun c hc => decide_eq_true fun h => hslash (h ▸ hc)
  unfold tidySegment
  rw [if_neg hne, if_neg hslash, hbase]

theorem tidySegment_stepped (hslash : '/' ∉ base) (hns : AllDigits ns) :
    tidySegment (base ++ '/' :: ns) = tidyBase base true ++ '/' :: ns := by
  have hbase : (base ++ '/' :: ns).takeWhile (· ≠ '/') = base := by
    have hall : ∀ c ∈ base, decide (c ≠ '/') = true :=
      fun c hc => decide_eq_true fun h => hslash (h ▸ hc)
    rw [List.takeWhile_append_of_pos hall]
    simp
  have hdrop : (base ++ '/' :: ns).drop (base.length + 1) = ns := by
    rw [← List.drop_drop, List.drop_left]
    rfl
  unfold tidySegment
  rw [if_neg (by simp), if_pos (by simp), hbase, hdrop, tidyNumber_of_allDigits hns]

/-- There is nothing to tidy in what the grammar writes. -/
theorem Segment.tidy (h : Segment Step min max seg lo hi n) : tidySegment seg = seg := by
  cases h with
  | star => rfl
  | value ha => rw [tidySegment_base ha.1 ha.allDigits.slash, ha.tidyBase]
  | range ha hb =>
    rw [tidySegment_base (by simp) (by simp [ha.allDigits.slash, hb.allDigits.slash]),
      tidyBase_range ha.allDigits hb.allDigits]
  | rangeStep ha hb hn =>
    rw [tidySegment_stepped (by simp [ha.allDigits.slash, hb.allDigits.slash]) hn.allDigits,
      tidyBase_range ha.allDigits hb.allDigits]
  | starStep hn =>
    have hstar : '/' ∉ ['*'] := by decide
    exact tidySegment_stepped hstar hn.allDigits

end WorkflowBoard.Qa
