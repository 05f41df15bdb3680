import WorkflowBoard.Spec.CronSegments

/-!
# What `parseCron` accepts

It accepts the texts that are sentences once they are tidied, with finite steps, and with the values
of that sentence. So it keeps to the documented grammar on a text exactly if such a text needs no
tidying just when its steps are finite.
-/

namespace WorkflowBoard.Qa

variable {Step : Nat → Prop} {min max : Int} {s : String}

/-! ## Values -/

variable {n : Nat} {lo hi : Int} {seg : List Char} {segs : List (List Char)} {sets : CronSets}
  {read read' : List Char → List Char}

theorem mem_stepRange {lo hi v : Int} (hn : 1 ≤ n) :
    v ∈ stepRange lo hi n ↔ v ∈ steps lo hi n := by
  have hpos : (0 : Int) < n := Int.natCast_pos.mpr hn
  have hbound : ∀ i : Nat, i < ((hi - lo) / n + 1).toNat ↔ lo + n * i ≤ hi := by
    intro i
    rw [Int.lt_toNat, Int.lt_add_one_iff, Int.le_ediv_iff_mul_le hpos, Int.mul_comm]
    omega
  simp only [stepRange, List.mem_map, List.mem_range, hbound, steps, Set.mem_ofPred_eq]
  constructor
  · rintro ⟨i, hi, rfl⟩
    exact ⟨i, rfl, hi⟩
  · rintro ⟨i, rfl, hi⟩
    exact ⟨i, hi, rfl⟩

theorem Segment.le (hle : min ≤ max) (h : Segment Step min max seg lo hi n) : lo ≤ hi := by
  cases h with
  | star => exact hle
  | value => exact Int.le_refl _
  | range _ _ _ hab => exact Int.ofNat_le.mpr hab
  | rangeStep _ _ _ _ hab => exact Int.ofNat_le.mpr hab
  | starStep => exact hle

theorem Segment.bounds (h : Segment Step min max seg lo hi n) : min ≤ lo ∧ hi ≤ max := by
  cases h with
  | star => exact ⟨Int.le_refl _, Int.le_refl _⟩
  | value _ hmin hmax => exact ⟨hmin, hmax⟩
  | range _ _ hmin _ hmax => exact ⟨hmin, hmax⟩
  | rangeStep _ _ _ hmin _ hmax => exact ⟨hmin, hmax⟩
  | starStep => exact ⟨Int.le_refl _, Int.le_refl _⟩

theorem Segment.one_le (hstep : ∀ n, Step n → 1 ≤ n)
    (h : Segment Step min max seg lo hi n) : 1 ≤ n := by
  cases h with
  | star => exact Nat.le_refl 1
  | value => exact Nat.le_refl 1
  | range => exact Nat.le_refl 1
  | rangeStep _ _ _ _ _ _ hn => exact hstep _ hn
  | starStep _ hn => exact hstep _ hn

theorem start_mem_steps (hle : lo ≤ hi) (n : Nat) : lo ∈ steps lo hi n :=
  ⟨0, by simp, hle⟩

theorem Field.nonempty {values : Set Int} (hle : min ≤ max)
    (h : Field Step min max segs values) : values.Nonempty := by
  cases h with
  | one h => exact ⟨_, start_mem_steps (h.le hle) _⟩
  | more h => exact ⟨_, Or.inl (start_mem_steps (h.le hle) _)⟩

theorem Field.bounds {values : Set Int}
    (h : Field Step min max segs values) : ∀ v ∈ values, min ≤ v ∧ v ≤ max := by
  have step : ∀ {seg : List Char} {lo hi : Int} {n : Nat}, Segment Step min max seg lo hi n →
      ∀ v ∈ steps lo hi n, min ≤ v ∧ v ≤ max := by
    rintro seg lo hi n h v ⟨i, rfl, hv⟩
    obtain ⟨hmin, hmax⟩ := h.bounds
    have hsteps : 0 ≤ (n : Int) * i := Int.mul_nonneg (Int.natCast_nonneg n) (Int.natCast_nonneg i)
    omega
  induction h with
  | one h => exact step h
  | more h _ ih => exact fun v hv => hv.elim (step h v) (ih v)

/-! ## Fields -/

theorem except_mapM_eq_ok {ε α β : Type} {f : α → Except ε β} {l : List α} {bs : List β} :
    l.mapM f = .ok bs ↔ List.Forall₂ (fun a b => f a = .ok b) l bs := by
  induction l generalizing bs with
  | nil =>
    rw [List.mapM_nil, pure_eq_ok]
    constructor
    · rintro rfl
      exact .nil
    · rintro ⟨⟩
      rfl
  | cons a l ih =>
    simp only [List.mapM_cons, bind_eq_ok, pure_eq_ok]
    constructor
    · rintro ⟨b, hb, bs, hbs, rfl⟩
      exact .cons hb (ih.mp hbs)
    · rintro (_ | ⟨hb, hbs⟩)
      exact ⟨_, hb, _, ih.mpr hbs, rfl⟩

theorem mapM_congr_mem {ε α β : Type} {f g : α → Except ε β} {l : List α}
    (h : ∀ a ∈ l, f a = g a) : l.mapM f = l.mapM g := by
  induction l with
  | nil => rfl
  | cons a l ih =>
    obtain ⟨ha, hl⟩ := List.forall_mem_cons.mp h
    rw [List.mapM_cons, List.mapM_cons, ha, ih hl]

theorem values_stepRange
    (h : Segment IsFiniteStep min max seg lo hi n) : {v | v ∈ stepRange lo hi n} = steps lo hi n :=
  Set.ext fun _ => mem_stepRange (h.one_le fun _ hn => hn.1)

/-- A comma list that is parsed part by part is a field once it is tidied. -/
theorem field_of_forall₂ {raw : String} {parts : List (List Char)} {vss : List (List Int)}
    (hspace : ∀ part ∈ parts, ∀ c ∈ part, isJsSpace c = false) (hle : min ≤ max)
    (hoverflow : max < overflow) (hne : parts ≠ [])
    (h : List.Forall₂ (fun part vs => parseSegment raw min max part = .ok vs) parts vss) :
    Field IsFiniteStep min max (parts.map tidySegment) {v | v ∈ vss.flatten} := by
  induction h with
  | nil => exact absurd rfl hne
  | @cons part vs parts vss hpart hparts ih =>
    obtain ⟨hspace, hspaces⟩ := List.forall_mem_cons.mp hspace
    obtain ⟨lo, hi, n, hseg, rfl⟩ := (parseSegment_ok hspace hle hoverflow).mp hpart
    cases hparts with
    | nil =>
      have hvalues : {v | v ∈ [stepRange lo hi n].flatten} = steps lo hi n := by
        rw [List.flatten_singleton, values_stepRange hseg]
      rw [hvalues]
      exact .one hseg
    | @cons _ vs' _ vss' hpart' hparts' =>
      have hvalues : {v | v ∈ (stepRange lo hi n :: vs' :: vss').flatten} =
          steps lo hi n ∪ {v | v ∈ (vs' :: vss').flatten} := by
        rw [List.flatten_cons, ← values_stepRange hseg]
        exact Set.ext fun v => List.mem_append
      rw [hvalues]
      exact .more hseg (ih hspaces (List.cons_ne_nil _ _))

theorem forall₂_of_field {raw : String} {parts : List (List Char)} {values : Set Int}
    (hspace : ∀ part ∈ parts, ∀ c ∈ part, isJsSpace c = false) (hle : min ≤ max)
    (hoverflow : max < overflow)
    (h : Field IsFiniteStep min max (parts.map tidySegment) values) :
    ∃ vss, List.Forall₂ (fun part vs => parseSegment raw min max part = .ok vs) parts vss ∧
      {v | v ∈ vss.flatten} = values := by
  generalize hsegs : parts.map tidySegment = segs at h
  induction h generalizing parts with
  | @one seg lo hi n h =>
    obtain ⟨part, rfl, rfl⟩ := List.map_eq_singleton_iff.mp hsegs
    refine ⟨[stepRange lo hi n], .cons ?_ .nil, ?_⟩
    · exact (parseSegment_ok (hspace part List.mem_cons_self) hle hoverflow).mpr ⟨lo, hi, n, h, rfl⟩
    · rw [List.flatten_singleton, values_stepRange h]
  | @more seg lo hi n segs vs h hrest ih =>
    obtain ⟨part, parts, rfl, rfl, rfl⟩ := List.map_eq_cons_iff.mp hsegs
    obtain ⟨hspace, hspaces⟩ := List.forall_mem_cons.mp hspace
    obtain ⟨vss, hvss, hvalues⟩ := ih hspaces rfl
    refine ⟨stepRange lo hi n :: vss, .cons ?_ hvss, ?_⟩
    · exact (parseSegment_ok hspace hle hoverflow).mpr ⟨lo, hi, n, h, rfl⟩
    · rw [List.flatten_cons, ← hvalues, ← values_stepRange h]
      exact Set.ext fun v => List.mem_append

theorem part_no_space {w part : List Char} (hw : ∀ c ∈ w, isJsSpace c = false)
    (hpart : part ∈ w.splitOn ',') : ∀ c ∈ part, isJsSpace c = false :=
  fun c hc => hw c (mem_splitOnP (p := (· == ',')) hpart hc).1

/-- The parser reads a field as the grammar reads it tidied. -/
theorem parseField_ok {w : List Char} (hspace : ∀ c ∈ w, isJsSpace c = false) (hle : min ≤ max)
    (hoverflow : max < overflow) {values : Set Int} :
    Field IsFiniteStep min max ((w.splitOn ',').map tidySegment) values ↔
      ∃ vs, parseField w min max = .ok vs ∧ {v | v ∈ vs} = values := by
  have hparts : ∀ part ∈ w.splitOn ',', ∀ c ∈ part, isJsSpace c = false :=
    fun part hpart => part_no_space hspace hpart
  have htrim : (w.splitOn ',').mapM (fun part => parseSegment (String.ofList w) min max
      (jsTrim (String.ofList part))) =
      (w.splitOn ',').mapM (parseSegment (String.ofList w) min max) :=
    mapM_congr_mem fun part hpart => by rw [jsTrim_of_no_space (hparts part hpart)]
  unfold parseField
  dsimp only
  rw [htrim]
  simp only [bind_eq_ok, except_mapM_eq_ok, require_eq_ok, pure_eq_ok,
    decide_eq_true_eq]
  constructor
  · intro h
    obtain ⟨vss, hvss, rfl⟩ := forall₂_of_field hparts hle hoverflow h
    obtain ⟨v, hv⟩ := h.nonempty hle
    exact ⟨vss.flatten, ⟨vss, hvss, (), List.ne_nil_of_mem hv, rfl⟩, rfl⟩
  · rintro ⟨_, ⟨vss, hvss, _, -, rfl⟩, rfl⟩
    exact field_of_forall₂ hparts hle hoverflow (List.splitOn_ne_nil _ _) hvss

/-! ## Sentences -/

theorem words_jsTrim (s : String) : words isJsSpace (jsTrim s) = words isJsSpace s.toList := by
  obtain ⟨lead, trail, hs, hlead, htrail⟩ := exists_jsTrim s
  rw [hs, words_gap hlead, words_trail htrail]

theorem cronWords_eq_five {s : String} {m h dom mon dow : List Char} :
    cronWords s = [m, h, dom, mon, dow] ↔ Words isJsSpace s.toList [m, h, dom, mon, dow] := by
  rw [words_iff, ← words_jsTrim]
  unfold cronWords
  split
  · rename_i hnil
    have hwords : words isJsSpace ([] : List Char) = [] := words_blank nofun
    rw [hnil, hwords]
    exact ⟨nofun, nofun⟩
  · exact eq_comm

theorem lt_overflow {max : Int} (hmax : max ≤ 59) : max < overflow := by
  have hlt : 59 < overflow := by decide +kernel
  omega

/-- What the parser accepts, with its values: the texts that are sentences with finite steps once
    they are tidied. -/
theorem parseCron_ok {s : String}:
    SentenceBy IsFiniteStep tidySegment s sets ↔ ∃ f, parseCron s = .ok f ∧ f.sets = sets := by
  constructor
  · rintro ⟨m, h, dom, mon, dow, hwords, hm, hh, hdom, hmon, hdow⟩
    have hspace := fun w hw => (hwords.not_sep w hw).2
    simp only [List.forall_mem_cons] at hspace
    obtain ⟨hsm, hsh, hsdom, hsmon, hsdow, -⟩ := hspace
    rw [parseField_ok hsm (by decide) (lt_overflow (by decide))] at hm
    rw [parseField_ok hsh (by decide) (lt_overflow (by decide))] at hh
    rw [parseField_ok hsdom (by decide) (lt_overflow (by decide))] at hdom
    rw [parseField_ok hsmon (by decide) (lt_overflow (by decide))] at hmon
    rw [parseField_ok hsdow (by decide) (lt_overflow (by decide))] at hdow
    obtain ⟨minute, hm, hminute⟩ := hm
    obtain ⟨hour, hh, hhour⟩ := hh
    obtain ⟨days, hdom, hdays⟩ := hdom
    obtain ⟨month, hmon, hmonth⟩ := hmon
    obtain ⟨weekdays, hdow, hweekdays⟩ := hdow
    refine ⟨⟨minute, hour, days, month, weekdays, dom ≠ ['*'], dow ≠ ['*']⟩, ?_, ?_⟩
    · unfold parseCron
      rw [cronWords_eq_five.mpr hwords]
      simp only [bind_eq_ok, pure_eq_ok]
      exact ⟨minute, hm, hour, hh, days, hdom, month, hmon, weekdays, hdow, rfl⟩
    · unfold CronFields.sets
      rw [hminute, hhour, hdays, hmonth, hweekdays]
  · rintro ⟨f, hparse, rfl⟩
    unfold parseCron at hparse
    split at hparse
    · rename_i m h dom mon dow hfive
      have hwords := cronWords_eq_five.mp hfive
      have hspace := fun w hw => (hwords.not_sep w hw).2
      simp only [List.forall_mem_cons] at hspace
      obtain ⟨hsm, hsh, hsdom, hsmon, hsdow, -⟩ := hspace
      simp only [bind_eq_ok, pure_eq_ok] at hparse
      obtain ⟨minute, hm, hour, hh, days, hdom, month, hmon, weekdays, hdow, rfl⟩ := hparse
      exact ⟨m, h, dom, mon, dow, hwords,
        (parseField_ok hsm (by decide) (lt_overflow (by decide))).mpr ⟨minute, hm, rfl⟩,
        (parseField_ok hsh (by decide) (lt_overflow (by decide))).mpr ⟨hour, hh, rfl⟩,
        (parseField_ok hsdom (by decide) (lt_overflow (by decide))).mpr ⟨days, hdom, rfl⟩,
        (parseField_ok hsmon (by decide) (lt_overflow (by decide))).mpr ⟨month, hmon, rfl⟩,
        (parseField_ok hsdow (by decide) (lt_overflow (by decide))).mpr ⟨weekdays, hdow, rfl⟩⟩
    · cases hparse

/-! ## What keeps a sentence a sentence -/

/-- The bounds of a field. -/
structure IsBounds (min max : Int) : Prop where
  le : min ≤ max
  small : max ≤ 59

theorem Field.imp {Step' : Nat → Prop} {values : Set Int}
    (hsegs : ∀ seg ∈ segs, ∀ lo hi n, Segment Step min max (read seg) lo hi n →
      Segment Step' min max (read' seg) lo hi n)
    (h : Field Step min max (segs.map read) values) :
    Field Step' min max (segs.map read') values := by
  generalize hmap : segs.map read = parts at h
  induction h generalizing segs with
  | one h =>
    obtain ⟨seg, rfl, rfl⟩ := List.map_eq_singleton_iff.mp hmap
    exact .one (hsegs seg List.mem_cons_self _ _ _ h)
  | more h _ ih =>
    obtain ⟨seg, segs, rfl, rfl, rfl⟩ := List.map_eq_cons_iff.mp hmap
    obtain ⟨hseg, hsegs⟩ := List.forall_mem_cons.mp hsegs
    exact .more (hseg _ _ _ h) (ih hsegs rfl)

theorem Field.exists_segment {read : List Char → List Char}
    {values : Set Int} (h : Field Step min max (segs.map read) values) :
    ∀ seg ∈ segs, ∃ lo hi n, Segment Step min max (read seg) lo hi n := by
  generalize hmap : segs.map read = parts at h
  induction h generalizing segs with
  | one h =>
    obtain ⟨seg, rfl, rfl⟩ := List.map_eq_singleton_iff.mp hmap
    exact List.forall_mem_singleton.mpr ⟨_, _, _, h⟩
  | more h _ ih =>
    obtain ⟨seg, segs, rfl, rfl, rfl⟩ := List.map_eq_cons_iff.mp hmap
    exact List.forall_mem_cons.mpr ⟨⟨_, _, _, h⟩, ih rfl⟩

theorem SentenceBy.imp {Step' : Nat → Prop}
    (hsegs : ∀ seg, IsMember s seg → ∀ min max, IsBounds min max → ∀ lo hi n,
      Segment Step min max (read seg) lo hi n → Segment Step' min max (read' seg) lo hi n)
    (h : SentenceBy Step read s sets) : SentenceBy Step' read' s sets := by
  obtain ⟨m, h, dom, mon, dow, hwords, hm, hh, hdom, hmon, hdow⟩ := h
  have hmember : ∀ w ∈ [m, h, dom, mon, dow], ∀ seg ∈ w.splitOn ',', IsMember s seg :=
    fun w hw seg hseg => ⟨w, hwords.eq ▸ hw, hseg⟩
  simp only [List.forall_mem_cons] at hmember
  obtain ⟨hm', hh', hdom', hmon', hdow', -⟩ := hmember
  exact ⟨m, h, dom, mon, dow, hwords,
    hm.imp fun seg hseg => hsegs seg (hm' seg hseg) 0 59 ⟨by decide, by decide⟩,
    hh.imp fun seg hseg => hsegs seg (hh' seg hseg) 0 23 ⟨by decide, by decide⟩,
    hdom.imp fun seg hseg => hsegs seg (hdom' seg hseg) 1 31 ⟨by decide, by decide⟩,
    hmon.imp fun seg hseg => hsegs seg (hmon' seg hseg) 1 12 ⟨by decide, by decide⟩,
    hdow.imp fun seg hseg => hsegs seg (hdow' seg hseg) 0 6 ⟨by decide, by decide⟩⟩

theorem SentenceBy.exists_segment {read : List Char → List Char}
    (h : SentenceBy Step read s sets) : ∀ seg, IsMember s seg →
      ∃ min max lo hi n, IsBounds min max ∧ Segment Step min max (read seg) lo hi n := by
  obtain ⟨m, h, dom, mon, dow, hwords, hm, hh, hdom, hmon, hdow⟩ := h
  rintro seg ⟨w, hw, hseg⟩
  rw [← hwords.eq] at hw
  have key : ∀ {min max : Int} {values : Set Int}, IsBounds min max →
      Field Step min max ((w.splitOn ',').map read) values →
      ∃ min max lo hi n, IsBounds min max ∧ Segment Step min max (read seg) lo hi n := by
    intro min max values hbounds hfield
    obtain ⟨lo, hi, n, hsegment⟩ := hfield.exists_segment seg hseg
    exact ⟨min, max, lo, hi, n, hbounds, hsegment⟩
  simp only [List.mem_cons, List.not_mem_nil, or_false] at hw
  obtain rfl | rfl | rfl | rfl | rfl := hw
  · exact key ⟨by decide, by decide⟩ hm
  · exact key ⟨by decide, by decide⟩ hh
  · exact key ⟨by decide, by decide⟩ hdom
  · exact key ⟨by decide, by decide⟩ hmon
  · exact key ⟨by decide, by decide⟩ hdow

theorem IsMember.no_space (h : IsMember s seg) :
    ∀ c ∈ seg, isJsSpace c = false := by
  obtain ⟨w, hw, hseg⟩ := h
  have hwords : Words isJsSpace s.toList (words isJsSpace s.toList) := words_iff.mpr rfl
  exact part_no_space (hwords.not_sep w hw).2 hseg

/-- A tidied member has a finite step if its step is not read as infinite. -/
theorem finite_segment (hspace : ∀ c ∈ seg, isJsSpace c = false) (hbounds : IsBounds min max) :
    Segment IsFiniteStep min max (tidySegment seg) lo hi n ↔
      Segment (1 ≤ ·) min max (tidySegment seg) lo hi n ∧
        ('/' ∈ seg → decimal (stepDigits seg) < overflow) := by
  have hmax := lt_overflow hbounds.small
  rw [segment_tidy hspace hbounds.le hmax, segment_tidy hspace hbounds.le hmax]
  by_cases hslash : '/' ∈ seg
  · rw [if_pos hslash, if_pos hslash]
    constructor
    · rintro ⟨hne, hin, hn, hone, hlt⟩
      exact ⟨⟨hne, hin, hn, hone⟩, fun _ => hn.2.2 ▸ hlt⟩
    · rintro ⟨⟨hne, hin, hn, hone⟩, hlt⟩
      exact ⟨hne, hin, hn, hone, hn.2.2 ▸ hlt hslash⟩
  · rw [if_neg hslash, if_neg hslash]
    exact ⟨fun h => ⟨h, fun h => absurd h hslash⟩, And.left⟩

theorem finite_sentence :
    SentenceBy IsFiniteStep tidySegment s sets ↔ TidySentence s sets ∧ FiniteSteps s := by
  constructor
  · intro h
    refine ⟨h.imp fun seg hseg _ _ hbounds _ _ _ hsegment => ?_, fun seg hseg hslash => ?_⟩
    · exact ((finite_segment hseg.no_space hbounds).mp hsegment).1
    · obtain ⟨_, _, _, _, _, hbounds, hsegment⟩ := h.exists_segment seg hseg
      exact ((finite_segment hseg.no_space hbounds).mp hsegment).2 hslash
  · rintro ⟨h, hfinite⟩
    refine h.imp fun seg hseg _ _ hbounds _ _ _ hsegment => ?_
    exact (finite_segment hseg.no_space hbounds).mpr ⟨hsegment, hfinite seg hseg⟩

theorem sentence_iff_tidy : Sentence s sets ↔ TidySentence s sets ∧ Tidy s := by
  constructor
  · intro h
    have htidy : Tidy s := by
      intro seg hseg
      obtain ⟨_, _, _, _, _, -, hsegment⟩ := h.exists_segment seg hseg
      exact hsegment.tidy
    refine ⟨h.imp fun seg hseg _ _ _ _ _ _ hsegment => ?_, htidy⟩
    rw [htidy seg hseg]
    exact hsegment
  · rintro ⟨h, htidy⟩
    refine h.imp fun seg hseg _ _ _ _ _ _ hsegment => ?_
    rw [htidy seg hseg] at hsegment
    exact hsegment

/-- The parser keeps to the grammar on a text exactly if, where the tidied text is a sentence, the
    text needed no tidying just when its steps are finite. -/
theorem keepsGrammar_iff (s : String) :
    KeepsGrammar s ↔ ((∃ sets, TidySentence s sets) → (Tidy s ↔ FiniteSteps s)) := by
  have haccepts : (∃ f, parseCron s = .ok f) ↔ (∃ sets, TidySentence s sets) ∧ FiniteSteps s := by
    constructor
    · rintro ⟨f, hf⟩
      obtain ⟨htidy, hfinite⟩ := finite_sentence.mp (parseCron_ok.mpr ⟨f, hf, rfl⟩)
      exact ⟨⟨_, htidy⟩, hfinite⟩
    · rintro ⟨⟨sets, htidy⟩, hfinite⟩
      obtain ⟨f, hf, -⟩ := parseCron_ok.mp (finite_sentence.mpr ⟨htidy, hfinite⟩)
      exact ⟨f, hf⟩
  have hsentence : (∃ sets, Sentence s sets) ↔ (∃ sets, TidySentence s sets) ∧ Tidy s := by
    simp only [sentence_iff_tidy, exists_and_right]
  -- Both read the same values of the same tidied text.
  have hvalues : ∀ f sets, parseCron s = .ok f → Sentence s sets → f.sets = sets := by
    intro f sets hf hsets
    obtain ⟨htidy, -⟩ := sentence_iff_tidy.mp hsets
    obtain ⟨-, hfinite⟩ := haccepts.mp ⟨f, hf⟩
    obtain ⟨f', hf', rfl⟩ := parseCron_ok.mp (finite_sentence.mpr ⟨htidy, hfinite⟩)
    rw [Except.ok.inj (hf.symm.trans hf')]
  constructor
  · rintro ⟨h, -⟩ htidy
    rw [haccepts, hsentence] at h
    exact ⟨fun ht => (h.mpr ⟨htidy, ht⟩).2, fun hf => (h.mp ⟨htidy, hf⟩).2⟩
  · intro h
    refine ⟨?_, hvalues⟩
    rw [haccepts, hsentence]
    exact and_congr_right fun htidy => (h htidy).symm

/-- A number is read as far as its digits go: the parser accepts a typo. -/
theorem not_keepsGrammar : ¬KeepsGrammar "5x * * * *" := by
  intro h
  have hvalid : (parseCron "5x * * * *").toOption.isSome = true := by decide +kernel
  obtain ⟨f, hf⟩ := Option.isSome_iff_exists.mp hvalid
  obtain ⟨sets, hsets⟩ := h.accepts.mp ⟨f, except_toOption_eq_some.mp hf⟩
  have hmember : IsMember "5x * * * *" ['5', 'x'] :=
    ⟨['5', 'x'], by decide +kernel, by decide +kernel⟩
  exact absurd ((sentence_iff_tidy.mp hsets).2 _ hmember) (by decide)

end WorkflowBoard.Qa
