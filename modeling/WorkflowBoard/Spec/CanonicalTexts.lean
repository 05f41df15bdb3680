import WorkflowBoard.ForStd.ReadOff
import WorkflowBoard.Native.CanonicalJson

/-!
# Canonical JSON can be read in one way only

The first unit of a text tells the kind of the value, a string ends at the first quotation mark that
is not escaped, a number ends where its units do, and the parts of a list or an object lie between
commas that are outside all of them (`canonicalJson_readsOff`).
-/

namespace WorkflowBoard.Marketing

variable {ν : Type*} {number : NumberText ν}

/-! ## Strings -/

/-- How `quoteBody` writes the units at the front of a string. -/
inductive Piece : CodeUnits → CodeUnits → Prop where
  | pair {u v : UInt16} (hu : isLead u = true) (hv : isTrail v = true) : Piece [u, v] [u, v]
  | letter {u l : UInt16} (h : (u, l) ∈ shortEscapes) : Piece [u] [backslash, l]
  | unicode (u : UInt16) : Piece [u] (unicodeEscape u)
  | plain {u : UInt16} (hlead : isLead u = false) (hquote : u ≠ quoteMark)
      (hslash : u ≠ backslash) : Piece [u] [u]

theorem mem_of_lookup {u l : UInt16} {table : List (UInt16 × UInt16)}
    (h : table.lookup u = some l) : (u, l) ∈ table := by
  induction table with
  | nil => cases h
  | cons p table ih =>
    rw [List.lookup_cons] at h
    split at h
    · rename_i heq
      cases h
      rw [beq_iff_eq.mp heq]
      exact List.mem_cons_self
    · exact List.mem_cons_of_mem _ (ih h)

theorem piece_quoteUnit (u : UInt16) : Piece [u] (quoteUnit u) := by
  unfold quoteUnit
  split
  · rename_i letter hletter
    exact .letter (mem_of_lookup hletter)
  · rename_i hnone
    split
    · exact .unicode u
    · rename_i hplain
      simp only [Bool.or_eq_true, not_or, Bool.not_eq_true] at hplain
      refine .plain hplain.1.2 ?_ ?_
      · rintro rfl
        exact absurd hnone (by decide)
      · rintro rfl
        exact absurd hnone (by decide)

/-- The body of a string that is not empty starts with a piece. -/
theorem exists_piece {s : CodeUnits} (hs : s ≠ []) :
    ∃ c p tail, Piece c p ∧ s = c ++ tail ∧ quoteBody s = p ++ quoteBody tail ∧
      tail.length < s.length := by
  match s with
  | [u] => exact ⟨[u], quoteUnit u, [], piece_quoteUnit u, rfl, by simp [quoteBody], by simp⟩
  | u :: v :: rest =>
    by_cases hpair : (isLead u && isTrail v) = true
    · obtain ⟨hu, hv⟩ := Bool.and_eq_true_iff.mp hpair
      refine ⟨[u, v], [u, v], rest, .pair hu hv, rfl, ?_, ?_⟩
      · simp [quoteBody, hpair]
      · show rest.length < rest.length + 2
        omega
    · refine ⟨[u], quoteUnit u, v :: rest, piece_quoteUnit u, rfl, ?_, by simp⟩
      rw [quoteBody, if_neg hpair]

theorem hexUnit_inj {m n : Nat} (hm : m < 16) (hn : n < 16) (h : hexUnit m = hexUnit n) :
    m = n := by
  have hall : ∀ m < 16, ∀ n < 16, hexUnit m = hexUnit n → m = n := by decide
  exact hall m hm n hn h

variable {rest rest' : CodeUnits}

theorem unicodeEscape_inj {u v : UInt16}
    (h : unicodeEscape u ++ rest = unicodeEscape v ++ rest') : u = v ∧ rest = rest' := by
  simp only [unicodeEscape, List.cons_append, List.nil_append, List.cons.injEq, true_and] at h
  obtain ⟨h1, h2, h3, h4, hrest⟩ := h
  have hu := u.toNat_lt
  have hv := v.toNat_lt
  have d1 := hexUnit_inj (by omega) (by omega) h1
  have d2 := hexUnit_inj (by omega) (by omega) h2
  have d3 := hexUnit_inj (by omega) (by omega) h3
  have d4 := hexUnit_inj (by omega) (by omega) h4
  exact ⟨UInt16.toNat_inj.mp (by omega), hrest⟩

theorem shortEscapes_inj {u v l : UInt16} (hu : (u, l) ∈ shortEscapes)
    (hv : (v, l) ∈ shortEscapes) : u = v := by
  have hall :
      (shortEscapes.all fun p => shortEscapes.all fun q => p.2 ≠ q.2 || p.1 = q.1) = true := by
    decide
  have hp := List.all_eq_true.mp (List.all_eq_true.mp hall _ hu) _ hv
  simpa using hp

theorem shortEscapes_ne {u l : UInt16} (h : (u, l) ∈ shortEscapes) : l ≠ 0x75 := by
  have hall : (shortEscapes.all fun p => p.2 ≠ 0x75) = true := by decide
  simpa using List.all_eq_true.mp hall _ h

theorem Piece.head {c p : CodeUnits} (h : Piece c p) :
    ∃ u tail, p = u :: tail ∧ u ≠ quoteMark := by
  cases h with
  | pair hu hv =>
    refine ⟨_, _, rfl, ?_⟩
    rintro rfl
    exact absurd hu (by decide)
  | letter h => exact ⟨_, _, rfl, by decide⟩
  | unicode u => exact ⟨_, _, rfl, by decide⟩
  | plain _ hquote _ => exact ⟨_, _, rfl, hquote⟩

theorem isLead_backslash : isLead backslash = false := by decide

theorem Piece.inj {c c' p p' rest rest' : CodeUnits} (h : Piece c p) (h' : Piece c' p')
    (heq : p ++ rest = p' ++ rest') : c = c' ∧ rest = rest' := by
  cases h with
  | pair hu hv =>
    cases h' with
    | pair hu' hv' => simp_all
    | letter h' =>
      obtain rfl := (List.cons.inj heq).1
      simp [isLead_backslash] at hu
    | unicode u' =>
      obtain rfl := (List.cons.inj heq).1
      simp [isLead_backslash] at hu
    | plain hlead _ _ =>
      obtain rfl := (List.cons.inj heq).1
      simp [hlead] at hu
  | letter h =>
    cases h' with
    | pair hu' hv' =>
      obtain rfl := (List.cons.inj heq).1
      simp [isLead_backslash] at hu'
    | letter h' =>
      simp only [List.cons_append, List.nil_append, List.cons.injEq, true_and] at heq
      obtain ⟨rfl, rfl⟩ := heq
      exact ⟨by rw [shortEscapes_inj h h'], rfl⟩
    | unicode u' =>
      simp only [unicodeEscape, List.cons_append, List.nil_append, List.cons.injEq,
        true_and] at heq
      exact absurd heq.1 (shortEscapes_ne h)
    | plain _ _ hslash => exact absurd (List.cons.inj heq).1.symm hslash
  | unicode u =>
    cases h' with
    | pair hu' hv' =>
      obtain rfl := (List.cons.inj heq).1
      simp [isLead_backslash] at hu'
    | letter h' =>
      simp only [unicodeEscape, List.cons_append, List.nil_append, List.cons.injEq,
        true_and] at heq
      exact absurd heq.1.symm (shortEscapes_ne h')
    | unicode u' =>
      obtain ⟨rfl, rfl⟩ := unicodeEscape_inj heq
      exact ⟨rfl, rfl⟩
    | plain _ _ hslash => exact absurd (List.cons.inj heq).1.symm hslash
  | plain hlead hquote hslash =>
    cases h' with
    | pair hu' hv' =>
      obtain rfl := (List.cons.inj heq).1
      simp [hlead] at hu'
    | letter h' => exact absurd (List.cons.inj heq).1 hslash
    | unicode u' => exact absurd (List.cons.inj heq).1 hslash
    | plain _ _ _ => simpa using heq

/-- A string ends at the first mark that is not escaped. -/
theorem quoteBody_inj {s s' rest rest' : CodeUnits}
    (h : quoteBody s ++ quoteMark :: rest = quoteBody s' ++ quoteMark :: rest') :
    s = s' ∧ rest = rest' := by
  induction hn : s.length using Nat.strong_induction_on generalizing s s' with
  | _ n ih =>
    by_cases hs : s = []
    · subst hs
      by_cases hs' : s' = []
      · subst hs'
        simpa [quoteBody] using h
      · obtain ⟨c', p', tail', hpiece', rfl, hbody', -⟩ := exists_piece hs'
        obtain ⟨u, l, rfl, hu⟩ := hpiece'.head
        rw [hbody'] at h
        exact absurd (List.cons.inj h).1.symm hu
    · obtain ⟨c, p, tail, hpiece, rfl, hbody, hlt⟩ := exists_piece hs
      by_cases hs' : s' = []
      · subst hs'
        obtain ⟨u, l, rfl, hu⟩ := hpiece.head
        rw [hbody] at h
        exact absurd (List.cons.inj h).1 hu
      · obtain ⟨c', p', tail', hpiece', rfl, hbody', -⟩ := exists_piece hs'
        rw [hbody, hbody', List.append_assoc, List.append_assoc] at h
        obtain ⟨rfl, htail⟩ := hpiece.inj hpiece' h
        obtain ⟨rfl, rfl⟩ := ih _ (hn ▸ hlt) htail rfl
        exact ⟨rfl, rfl⟩

theorem quoted_inj {s s' rest rest' : CodeUnits} (h : quoted s ++ rest = quoted s' ++ rest') :
    s = s' ∧ rest = rest' := by
  apply quoteBody_inj
  simpa [quoted] using h

/-! ## Values -/

namespace JsValue

@[elab_as_elim]
theorem rec_parts {P : JsValue ν → Prop} (undefined : P .undefined) (null : P .null)
    (bool : ∀ b, P (.bool b)) (num : ∀ x, P (.num x)) (str : ∀ s, P (.str s))
    (arr : ∀ items, (∀ v ∈ items, P v) → P (.arr items))
    (obj : ∀ fields, (∀ f ∈ fields, P f.2) → P (.obj fields)) : ∀ v, P v
  | .undefined => undefined
  | .null => null
  | .bool b => bool b
  | .num x => num x
  | .str s => str s
  | .arr items => arr items fun v _ => rec_parts undefined null bool num str arr obj v
  | .obj fields => obj fields fun f _ => rec_parts undefined null bool num str arr obj f.2
termination_by v => sizeOf v
decreasing_by
  · have hlt := List.sizeOf_lt_of_mem (by assumption)
    simp only [JsValue.arr.sizeOf_spec]
    omega
  · have hlt := List.sizeOf_lt_of_mem (by assumption)
    obtain ⟨key, v⟩ := f
    simp only [JsValue.obj.sizeOf_spec, Prod.mk.sizeOf_spec] at hlt ⊢
    omega

end JsValue

theorem canonicalItems_eq (items : List (JsValue ν)) :
    canonicalItems number items = items.map (canonicalJson number) := by
  induction items with
  | nil => rfl
  | cons v items ih => rw [canonicalItems, ih, List.map_cons]

theorem canonicalEntries_eq (fields : List (CodeUnits × JsValue ν)) :
    canonicalEntries number fields =
      (fields.filter fun f => !f.2.isUndefined).map fun f => (f.1, canonicalJson number f.2) := by
  induction fields with
  | nil => rfl
  | cons f fields ih =>
    cases hf : f.2.isUndefined with
    | true => simp [canonicalEntries, hf, ih]
    | false => simp [canonicalEntries, hf, ih]

/-! ## One way to read a text -/

/-- The texts of values. -/
def IsText (number : NumberText ν) (t : CodeUnits) : Prop := ∃ v, t = canonicalJson number v

/-- What can stand behind a value: nothing that would go on a number. -/
def EndsText (rest : CodeUnits) : Prop := ∀ u ∈ rest.head?, isNumeralUnit u = false

/-- The kind of value that a unit starts. -/
def kindOf (u : UInt16) : Nat :=
  if isNumeralUnit u then 0 else u.toNat

def JsValue.kind : JsValue ν → Nat
  | .undefined => 0x6E
  | .null => 0x6E
  | .bool true => 0x74
  | .bool false => 0x66
  | .num _ => 0
  | .str _ => 0x22
  | .arr _ => 0x5B
  | .obj _ => 0x7B

/-- The first unit of a text tells the kind of the value. -/
theorem kind_head (number : NumberText ν) (v : JsValue ν) :
    ∃ u l, canonicalJson number v = u :: l ∧ kindOf u = v.kind := by
  have hnull : units "null" = [0x6E, 0x75, 0x6C, 0x6C] := by decide
  have htrue : units "true" = [0x74, 0x72, 0x75, 0x65] := by decide
  have hfalse : units "false" = [0x66, 0x61, 0x6C, 0x73, 0x65] := by decide
  cases v with
  | undefined => exact ⟨_, _, hnull, rfl⟩
  | null => exact ⟨_, _, hnull, rfl⟩
  | bool b =>
    cases b with
    | true => exact ⟨_, _, htrue, rfl⟩
    | false => exact ⟨_, _, hfalse, rfl⟩
  | num x =>
    obtain ⟨u, l, hl⟩ := List.exists_cons_of_ne_nil (number.ne_nil x)
    refine ⟨u, l, by rw [canonicalJson, hl], ?_⟩
    have hu := number.numeral x u (by rw [hl]; exact List.mem_cons_self)
    simp [kindOf, hu, JsValue.kind]
  | str s => exact ⟨_, _, by rw [canonicalJson, quoted], rfl⟩
  | arr items => exact ⟨_, _, by rw [canonicalJson, bracketed], rfl⟩
  | obj fields => exact ⟨_, _, by rw [canonicalJson, objectText, bracketed], rfl⟩

theorem kind_eq {v w : JsValue ν}
    (h : canonicalJson number v ++ rest = canonicalJson number w ++ rest') : v.kind = w.kind := by
  obtain ⟨u, l, hv, hkind⟩ := kind_head number v
  obtain ⟨u', l', hw, hkind'⟩ := kind_head number w
  rw [hv, hw] at h
  rw [← hkind, ← hkind', (List.cons.inj h).1]

theorem number_readsOff {x y : ν} (hrest : EndsText rest)
    (hrest' : EndsText rest') (h : number.text x ++ rest = number.text y ++ rest') :
    x = y ∧ rest = rest' := by
  have htake : ∀ (z : ν) (rest : CodeUnits), EndsText rest →
      (number.text z ++ rest).takeWhile isNumeralUnit = number.text z := by
    intro z rest hrest
    rw [List.takeWhile_append_of_pos (number.numeral z)]
    cases rest with
    | nil => simp
    | cons u rest => simp [hrest u (by simp)]
  have htext : number.text x = number.text y := by
    rw [← htake x rest hrest, ← htake y rest' hrest', h]
  rw [htext] at h
  exact ⟨number.inj htext, List.append_cancel_left h⟩

/-- A word of an entry: a key, a colon and a value. -/
theorem entry_readsOff {key text : CodeUnits} (h : ReadsOff (IsText number) EndsText text) :
    ReadsOff (fun w => ∃ key text, IsText number text ∧ w = quoted key ++ colon :: text) EndsText
      (quoted key ++ colon :: text) := by
  have hkey : ReadsOff (fun w => ∃ key, w = quoted key) (fun _ => True) (quoted key) := by
    rintro _ rest rest' ⟨key', rfl⟩ - - heq
    obtain ⟨rfl, rfl⟩ := quoted_inj heq
    exact ⟨rfl, rfl⟩
  apply (hkey.append (h.cons colon)).mono
  rintro w ⟨key', text', htext', rfl⟩
  exact ⟨quoted key', colon :: text', ⟨key', rfl⟩, ⟨text', htext', rfl⟩, rfl⟩

theorem entry_inj {e e' : CodeUnits × CodeUnits}
    (h : quoted e.1 ++ colon :: e.2 = quoted e'.1 ++ colon :: e'.2) : e = e' := by
  obtain ⟨hkey, htext⟩ := quoted_inj h
  exact Prod.ext hkey (List.cons.inj htext).2

theorem endsText_cons {u : UInt16} (hu : isNumeralUnit u = false) (rest : CodeUnits) :
    EndsText (u :: rest) := by
  intro x hx
  obtain rfl : u = x := by simpa using hx
  exact hu

/-- The text of a value with a fixed text, or of a number or a string, can be read off. -/
theorem readsOff_of_kind {v : JsValue ν}
    (h : ∀ w rest rest', v.kind = w.kind → EndsText rest → EndsText rest' →
      canonicalJson number v ++ rest = canonicalJson number w ++ rest' →
      canonicalJson number v = canonicalJson number w) :
    ReadsOff (IsText number) EndsText (canonicalJson number v) := by
  rintro _ rest rest' ⟨w, rfl⟩ hrest hrest' heq
  have htext := h w rest rest' (kind_eq heq) hrest hrest' heq
  rw [htext] at heq
  exact ⟨htext, List.append_cancel_left heq⟩

/-- The texts of the parts of a list, with what stands behind it. -/
theorem bracketed_inj {W : CodeUnits → Prop} {opening closing : UInt16} {ts ts' : List CodeUnits}
    (hclosing : isNumeralUnit closing = false) (hcomma : comma ≠ closing)
    (hstart : ∀ w, W w → ∃ u l, w = u :: l ∧ u ≠ closing) (hW : ∀ t ∈ ts, W t)
    (hts : ∀ t ∈ ts, ReadsOff W EndsText t) (hW' : ∀ t ∈ ts', W t)
    (h : bracketed opening closing ts ++ rest = bracketed opening closing ts' ++ rest') :
    ts = ts' ∧ rest = rest' := by
  apply eq_of_separated hcomma (endsText_cons (by decide)) (endsText_cons hclosing) hstart hW hts
    hW'
  simpa [bracketed] using h

theorem isText_start (w : CodeUnits) (hw : IsText number w) : ∃ u l, w = u :: l ∧ u ≠ 0x5D := by
  obtain ⟨v, rfl⟩ := hw
  obtain ⟨u, l, hu, hk⟩ := kind_head number v
  refine ⟨u, l, hu, ?_⟩
  rintro rfl
  have hbracket : kindOf 0x5D = 0x5D := by decide
  rw [hbracket] at hk
  cases v with
  | bool b => cases b <;> simp [JsValue.kind] at hk
  | _ => simp [JsValue.kind] at hk

/-- The texts of the entries of an object, in the order in which they are written. -/
def entryTexts (number : NumberText ν) (fields : List (CodeUnits × JsValue ν)) : List CodeUnits :=
  ((canonicalEntries number fields).insertionSort KeyLe).map fun e => quoted e.1 ++ colon :: e.2

theorem mem_entryTexts {fields : List (CodeUnits × JsValue ν)} {t : CodeUnits}
    (h : t ∈ entryTexts number fields) :
    ∃ f ∈ fields, t = quoted f.1 ++ colon :: canonicalJson number f.2 := by
  obtain ⟨e, he, rfl⟩ := List.mem_map.mp h
  rw [List.mem_insertionSort, canonicalEntries_eq] at he
  obtain ⟨f, hf, rfl⟩ := List.mem_map.mp he
  exact ⟨f, List.mem_of_mem_filter hf, rfl⟩

/-- Where the items of a list can be read off, a text determines theirs. -/
theorem arr_inj {items items' : List (JsValue ν)}
    (hread : ∀ v ∈ items, ReadsOff (IsText number) EndsText (canonicalJson number v))
    (h : canonicalJson number (.arr items) ++ rest = canonicalJson number (.arr items') ++ rest') :
    items.map (canonicalJson number) = items'.map (canonicalJson number) := by
  rw [canonicalJson, canonicalJson, canonicalItems_eq, canonicalItems_eq] at h
  have hword : ∀ items : List (JsValue ν), ∀ t ∈ items.map (canonicalJson number),
      IsText number t := by
    intro items t ht
    obtain ⟨v, -, rfl⟩ := List.mem_map.mp ht
    exact ⟨v, rfl⟩
  have htexts : ∀ t ∈ items.map (canonicalJson number), ReadsOff (IsText number) EndsText t := by
    intro t ht
    obtain ⟨v, hv, rfl⟩ := List.mem_map.mp ht
    exact hread v hv
  exact (bracketed_inj (by decide) (by decide) isText_start (hword items) htexts (hword items')
    h).1

theorem obj_inj {fields fields' : List (CodeUnits × JsValue ν)}
    (hread : ∀ f ∈ fields, ReadsOff (IsText number) EndsText (canonicalJson number f.2))
    (h : canonicalJson number (.obj fields) ++ rest =
      canonicalJson number (.obj fields') ++ rest') :
    entryTexts number fields = entryTexts number fields' := by
  change bracketed 0x7B 0x7D (entryTexts number fields) ++ rest =
    bracketed 0x7B 0x7D (entryTexts number fields') ++ rest' at h
  let IsEntry (w : CodeUnits) : Prop :=
    ∃ key text, IsText number text ∧ w = quoted key ++ colon :: text
  have hword : ∀ fields : List (CodeUnits × JsValue ν), ∀ t ∈ entryTexts number fields,
      IsEntry t := by
    intro fields t ht
    obtain ⟨f, -, rfl⟩ := mem_entryTexts ht
    exact ⟨f.1, _, ⟨f.2, rfl⟩, rfl⟩
  have htexts : ∀ t ∈ entryTexts number fields, ReadsOff IsEntry EndsText t := by
    intro t ht
    obtain ⟨f, hf, rfl⟩ := mem_entryTexts ht
    exact entry_readsOff (hread f hf)
  have hstart : ∀ w, IsEntry w → ∃ u l, w = u :: l ∧ u ≠ 0x7D := by
    rintro _ ⟨key, text, -, rfl⟩
    exact ⟨quoteMark, _, rfl, by decide⟩
  exact (bracketed_inj (by decide) (by decide) hstart (hword fields) htexts (hword fields') h).1

/-- Every text can be read off in front of a comma, a bracket or the end. -/
theorem canonicalJson_readsOff (v : JsValue ν) :
    ReadsOff (IsText number) EndsText (canonicalJson number v) := by
  induction v using JsValue.rec_parts with
  | undefined =>
    apply readsOff_of_kind
    intro w rest rest' hkind _ _ _
    cases w with
    | undefined => rfl
    | null => rfl
    | bool b => cases b <;> simp [JsValue.kind] at hkind
    | _ => simp [JsValue.kind] at hkind
  | null =>
    apply readsOff_of_kind
    intro w rest rest' hkind _ _ _
    cases w with
    | undefined => rfl
    | null => rfl
    | bool b => cases b <;> simp [JsValue.kind] at hkind
    | _ => simp [JsValue.kind] at hkind
  | bool b =>
    apply readsOff_of_kind
    intro w rest rest' hkind _ _ _
    cases w with
    | bool c => cases b <;> cases c <;> simp [JsValue.kind] at hkind <;> rfl
    | _ => cases b <;> simp [JsValue.kind] at hkind
  | num x =>
    apply readsOff_of_kind
    intro w rest rest' hkind hrest hrest' heq
    cases w with
    | num y =>
      obtain ⟨rfl, -⟩ := number_readsOff hrest hrest' heq
      rfl
    | bool c => cases c <;> simp [JsValue.kind] at hkind
    | _ => simp [JsValue.kind] at hkind
  | str s =>
    apply readsOff_of_kind
    intro w rest rest' hkind _ _ heq
    cases w with
    | str s' =>
      obtain ⟨rfl, -⟩ := quoted_inj heq
      rfl
    | bool c => cases c <;> simp [JsValue.kind] at hkind
    | _ => simp [JsValue.kind] at hkind
  | arr items ih =>
    apply readsOff_of_kind
    intro w rest rest' hkind _ _ heq
    cases w with
    | arr items' =>
      have htexts := arr_inj ih heq
      rw [canonicalJson, canonicalJson, canonicalItems_eq, canonicalItems_eq, htexts]
    | bool c => cases c <;> simp [JsValue.kind] at hkind
    | _ => simp [JsValue.kind] at hkind
  | obj fields ih =>
    apply readsOff_of_kind
    intro w rest rest' hkind _ _ heq
    cases w with
    | obj fields' =>
      have htexts := obj_inj ih heq
      show bracketed 0x7B 0x7D (entryTexts number fields) = _
      rw [htexts]
      rfl
    | bool c => cases c <;> simp [JsValue.kind] at hkind
    | _ => simp [JsValue.kind] at hkind

end WorkflowBoard.Marketing
