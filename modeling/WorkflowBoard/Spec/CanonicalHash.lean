import WorkflowBoard.ForStd.List
import WorkflowBoard.Spec.CanonicalTexts

/-!
# Canonical JSON determines the value

Two values have the same canonical JSON exactly if they are the same up to the order of keys, at
every depth (`canonicalJson_eq_iff`). So no approval of a spend request covers another request.
-/

namespace WorkflowBoard.Marketing

variable {ν : Type*} {number : NumberText ν}

/-! ## Values that are the same -/

namespace JsValue

/-- The value of a field, if it is there and is not `undefined`. -/
def get (fields : List (CodeUnits × JsValue ν)) (key : CodeUnits) : Option (JsValue ν) :=
  ((fields.filter fun f => !f.2.isUndefined).find? fun f => f.1 = key).map Prod.snd

/-- The same up to the order of keys, at every depth. A field that is `undefined` is missing;
    anywhere else `undefined` is written as `null`. -/
inductive Same : JsValue ν → JsValue ν → Prop where
  | nothing {v w : JsValue ν} (hv : v = .undefined ∨ v = .null) (hw : w = .undefined ∨ w = .null) :
      Same v w
  | bool (b : Bool) : Same (.bool b) (.bool b)
  | num (x : ν) : Same (.num x) (.num x)
  | str (s : CodeUnits) : Same (.str s) (.str s)
  | arr {items items' : List (JsValue ν)} (h : List.Forall₂ Same items items') :
      Same (.arr items) (.arr items')
  | obj {fields fields' : List (CodeUnits × JsValue ν)}
      (h : ∀ key, Option.Rel Same (get fields key) (get fields' key)) :
      Same (.obj fields) (.obj fields')

theorem uniqueItems_iff {items : List (JsValue ν)} :
    uniqueItems items = true ↔ ∀ v ∈ items, v.uniqueKeys = true := by
  induction items with
  | nil => simp [uniqueItems]
  | cons v items ih => simp [uniqueItems, ih]

variable {fields : List (CodeUnits × JsValue ν)}

theorem uniqueFields_iff :
    uniqueFields fields = true ↔ ∀ f ∈ fields, f.2.uniqueKeys = true := by
  induction fields with
  | nil => simp [uniqueFields]
  | cons f fields ih => simp [uniqueFields, ih]

theorem uniqueKeys_obj :
    uniqueKeys (.obj fields) = true ↔
      (fields.map Prod.fst).Nodup ∧ ∀ f ∈ fields, f.2.uniqueKeys = true := by
  rw [uniqueKeys, Bool.and_eq_true, decide_eq_true_eq, uniqueFields_iff]

end JsValue

/-! ## Equal texts -/

theorem notAfter_total (a b : CodeUnits) : notAfter a b = true ∨ notAfter b a = true := by
  induction a generalizing b with
  | nil => exact .inl rfl
  | cons u a ih =>
    cases b with
    | nil => exact .inr rfl
    | cons v b =>
      simp only [notAfter, Bool.or_eq_true, decide_eq_true_eq, Bool.and_eq_true, beq_iff_eq]
      by_cases heq : u = v
      · subst heq
        exact (ih b).imp (fun h => .inr ⟨rfl, h⟩) fun h => .inr ⟨rfl, h⟩
      · obtain hlt | hlt := UInt16.lt_or_lt_of_ne heq
        · exact .inl (.inl hlt)
        · exact .inr (.inl hlt)

theorem notAfter_trans {a b c : CodeUnits} (hab : notAfter a b = true)
    (hbc : notAfter b c = true) : notAfter a c = true := by
  induction a generalizing b c with
  | nil => rfl
  | cons u a ih =>
    cases b with
    | nil => cases hab
    | cons v b =>
      cases c with
      | nil => cases hbc
      | cons w c =>
        simp only [notAfter, Bool.or_eq_true, decide_eq_true_eq, Bool.and_eq_true,
          beq_iff_eq] at hab hbc ⊢
        obtain hlt | ⟨rfl, hab⟩ := hab
        · obtain hlt' | ⟨rfl, -⟩ := hbc
          · exact .inl (UInt16.lt_trans hlt hlt')
          · exact .inl hlt
        · obtain hlt | ⟨rfl, hbc⟩ := hbc
          · exact .inl hlt
          · exact .inr ⟨rfl, ih hab hbc⟩

theorem notAfter_antisymm {a b : CodeUnits} (hab : notAfter a b = true)
    (hba : notAfter b a = true) : a = b := by
  induction a generalizing b with
  | nil =>
    cases b with
    | nil => rfl
    | cons v b => cases hba
  | cons u a ih =>
    cases b with
    | nil => cases hab
    | cons v b =>
      simp only [notAfter, Bool.or_eq_true, decide_eq_true_eq, Bool.and_eq_true,
        beq_iff_eq] at hab hba
      obtain hlt | ⟨rfl, hab⟩ := hab
      · obtain hlt' | ⟨rfl, -⟩ := hba
        · exact absurd hlt (UInt16.lt_asymm hlt')
        · exact absurd hlt (UInt16.lt_irrefl _)
      · obtain hlt | ⟨-, hba⟩ := hba
        · exact absurd hlt (UInt16.lt_irrefl _)
        · rw [ih hab hba]

instance {β : Type*} : Std.Total (KeyLe (β := β)) := ⟨fun p q => notAfter_total p.1 q.1⟩

instance {β : Type*} : IsTrans (CodeUnits × β) KeyLe := ⟨fun _ _ _ => notAfter_trans⟩

theorem insertionSort_eq_iff {β : Type*} {l l' : List (CodeUnits × β)}
    (hl : (l.map Prod.fst).Nodup) :
    l.insertionSort KeyLe = l'.insertionSort KeyLe ↔ l.Perm l' := by
  constructor
  · intro h
    have hperm := List.perm_insertionSort KeyLe l
    rw [h] at hperm
    exact hperm.symm.trans (List.perm_insertionSort KeyLe l')
  · intro h
    have hantisymm : ∀ p q, p ∈ l.insertionSort KeyLe → q ∈ l'.insertionSort KeyLe →
        KeyLe p q → KeyLe q p → p = q := by
      intro p q hp hq hpq hqp
      rw [List.mem_insertionSort] at hp hq
      exact List.inj_on_of_nodup_map hl hp (h.mem_iff.mpr hq) (notAfter_antisymm hpq hqp)
    apply List.Perm.eq_of_pairwise hantisymm (List.pairwise_insertionSort KeyLe l)
      (List.pairwise_insertionSort KeyLe l')
    exact (List.perm_insertionSort _ _).trans (h.trans (List.perm_insertionSort _ _).symm)

section Fields

variable {fields fields' : List (CodeUnits × JsValue ν)}

theorem keys_canonicalEntries (hkeys : (fields.map Prod.fst).Nodup) :
    ((canonicalEntries number fields).map Prod.fst).Nodup := by
  rw [canonicalEntries_eq, List.map_map]
  exact hkeys.sublist (List.filter_sublist.map Prod.fst)

theorem mem_canonicalEntries (hkeys : (fields.map Prod.fst).Nodup) {key text : CodeUnits} :
    (key, text) ∈ canonicalEntries number fields ↔
      (JsValue.get fields key).map (canonicalJson number) = some text := by
  have hfilter : ((fields.filter fun f => !f.2.isUndefined).map Prod.fst).Nodup :=
    hkeys.sublist (List.filter_sublist.map Prod.fst)
  rw [canonicalEntries_eq, JsValue.get, Option.map_map]
  constructor
  · intro h
    obtain ⟨f, hf, heq⟩ := List.mem_map.mp h
    cases heq
    rw [find?_key_eq_some hfilter hf rfl]
    rfl
  · intro h
    obtain ⟨f, hf, rfl⟩ := Option.map_eq_some_iff.mp h
    have hkey : f.1 = key := by simpa using List.find?_some hf
    exact List.mem_map.mpr ⟨f, List.mem_of_find?_eq_some hf, by rw [hkey]; rfl⟩

/-- Two objects have the same entries exactly if every key has the same text in both. -/
theorem entries_perm_iff (hkeys : (fields.map Prod.fst).Nodup)
    (hkeys' : (fields'.map Prod.fst).Nodup) :
    (canonicalEntries number fields).Perm (canonicalEntries number fields') ↔
      ∀ key, (JsValue.get fields key).map (canonicalJson number) =
        (JsValue.get fields' key).map (canonicalJson number) := by
  rw [List.perm_ext_iff_of_nodup (keys_canonicalEntries hkeys).of_map
    (keys_canonicalEntries hkeys').of_map]
  constructor
  · intro h key
    ext text
    rw [← mem_canonicalEntries hkeys, ← mem_canonicalEntries hkeys', h]
  · rintro h ⟨key, text⟩
    rw [mem_canonicalEntries hkeys, mem_canonicalEntries hkeys', h]

theorem get_eq_some {key : CodeUnits} {v : JsValue ν} (h : JsValue.get fields key = some v) :
    ∃ f ∈ fields, f.2 = v := by
  obtain ⟨f, hf, rfl⟩ := Option.map_eq_some_iff.mp h
  exact ⟨f, List.mem_of_mem_filter (List.mem_of_find?_eq_some hf), rfl⟩

end Fields

variable {fields fields' : List (CodeUnits × JsValue ν)} {items items' : List (JsValue ν)}
  {v w : JsValue ν}

/-- The texts of two objects are equal exactly if every key has the same text in both. -/
theorem objectText_eq_iff
    (hkeys : (fields.map Prod.fst).Nodup) (hkeys' : (fields'.map Prod.fst).Nodup) :
    canonicalJson number (.obj fields) = canonicalJson number (.obj fields') ↔
      ∀ key, (JsValue.get fields key).map (canonicalJson number) =
        (JsValue.get fields' key).map (canonicalJson number) := by
  rw [← entries_perm_iff hkeys hkeys', ← insertionSort_eq_iff (keys_canonicalEntries hkeys)]
  constructor
  · intro h
    have htexts : entryTexts number fields = entryTexts number fields' :=
      obj_inj (fun f _ => canonicalJson_readsOff f.2) (congrArg (· ++ []) h)
    have hinj : Function.Injective fun e : CodeUnits × CodeUnits => quoted e.1 ++ colon :: e.2 :=
      fun _ _ => entry_inj
    exact hinj.list_map htexts
  · intro h
    rw [canonicalJson, canonicalJson, objectText, objectText, h]

/-- The texts of two lists are equal exactly if those of their items are. -/
theorem listText_eq_iff :
    canonicalJson number (.arr items) = canonicalJson number (.arr items') ↔
      items.map (canonicalJson number) = items'.map (canonicalJson number) := by
  constructor
  · intro h
    exact arr_inj (fun v _ => canonicalJson_readsOff v) (congrArg (· ++ []) h)
  · intro h
    rw [canonicalJson, canonicalJson, canonicalItems_eq, canonicalItems_eq, h]

theorem kind_eq_of_text (h : canonicalJson number v = canonicalJson number w) :
    v.kind = w.kind :=
  kind_eq (congrArg (· ++ []) h)

theorem canonicalJson_nothing (hv : v = .undefined ∨ v = .null) :
    canonicalJson number v = canonicalJson number w ↔ v.Same w := by
  have htext : canonicalJson number v = units "null" := by
    obtain rfl | rfl := hv <;> rfl
  have hkind : v.kind = 0x6E := by
    obtain rfl | rfl := hv <;> rfl
  constructor
  · intro h
    have hw := kind_eq_of_text h
    rw [hkind] at hw
    apply JsValue.Same.nothing hv
    cases w with
    | undefined => exact .inl rfl
    | null => exact .inr rfl
    | bool b => cases b <;> simp [JsValue.kind] at hw
    | _ => simp [JsValue.kind] at hw
  · intro h
    have hw : w = .undefined ∨ w = .null := by
      obtain rfl | rfl := hv <;> cases h <;> assumption
    rw [htext]
    obtain rfl | rfl := hw <;> rfl

theorem forall₂_same (ih : ∀ v ∈ items, ∀ w ∈ items',
      (canonicalJson number v = canonicalJson number w ↔ v.Same w)) :
    items.map (canonicalJson number) = items'.map (canonicalJson number) ↔
      List.Forall₂ JsValue.Same items items' := by
  induction items generalizing items' with
  | nil => cases items' <;> simp
  | cons v items ih' =>
    cases items' with
    | nil => simp
    | cons w items' =>
      have hrest := ih' fun x hx y hy =>
        ih x (List.mem_cons_of_mem _ hx) y (List.mem_cons_of_mem _ hy)
      rw [List.map_cons, List.map_cons, List.cons.injEq, List.forall₂_cons, hrest,
        ih v (by simp) w (by simp)]

theorem optionRel_same {a b : Option (JsValue ν)}
    (ih : ∀ v ∈ a, ∀ w ∈ b, (canonicalJson number v = canonicalJson number w ↔ v.Same w)) :
    a.map (canonicalJson number) = b.map (canonicalJson number) ↔
      Option.Rel JsValue.Same a b := by
  cases a with
  | none => cases b <;> simp
  | some v =>
    cases b with
    | none => simp
    | some w => simpa using ih v rfl w rfl

theorem canonicalJson_eq_iff_same (hv : v.uniqueKeys = true) (hw : w.uniqueKeys = true) :
    canonicalJson number v = canonicalJson number w ↔ v.Same w := by
  induction v using JsValue.rec_parts generalizing w with
  | undefined => exact canonicalJson_nothing (.inl rfl)
  | null => exact canonicalJson_nothing (.inr rfl)
  | bool b =>
    constructor
    · intro h
      have hkind := kind_eq_of_text h
      cases w with
      | bool c =>
        obtain rfl : b = c := by cases b <;> cases c <;> simp [JsValue.kind] at hkind <;> rfl
        exact .bool b
      | _ => cases b <;> simp [JsValue.kind] at hkind
    · intro h
      cases h with
      | nothing h _ => simp at h
      | bool => rfl
  | num x =>
    constructor
    · intro h
      have hkind := kind_eq_of_text h
      cases w with
      | num y =>
        obtain rfl : x = y := number.inj h
        exact .num x
      | bool c => cases c <;> simp [JsValue.kind] at hkind
      | _ => simp [JsValue.kind] at hkind
    · intro h
      cases h with
      | nothing h _ => simp at h
      | num => rfl
  | str s =>
    constructor
    · intro h
      have hkind := kind_eq_of_text h
      cases w with
      | str s' =>
        obtain ⟨rfl, -⟩ := quoted_inj (congrArg (· ++ []) h)
        exact .str s
      | bool c => cases c <;> simp [JsValue.kind] at hkind
      | _ => simp [JsValue.kind] at hkind
    · intro h
      cases h with
      | nothing h _ => simp at h
      | str => rfl
  | arr items ih =>
    have hitems := JsValue.uniqueItems_iff.mp hv
    constructor
    · intro h
      have hkind := kind_eq_of_text h
      cases w with
      | arr items' =>
        have hitems' := JsValue.uniqueItems_iff.mp hw
        rw [listText_eq_iff, forall₂_same fun v hv w hw =>
          ih v hv (hitems v hv) (hitems' w hw)] at h
        exact .arr h
      | bool c => cases c <;> simp [JsValue.kind] at hkind
      | _ => simp [JsValue.kind] at hkind
    · intro h
      cases h with
      | nothing h _ => simp at h
      | arr h =>
        have hitems' := JsValue.uniqueItems_iff.mp hw
        rw [listText_eq_iff, forall₂_same fun v hv w hw => ih v hv (hitems v hv) (hitems' w hw)]
        exact h
  | obj fields ih =>
    obtain ⟨hkeys, hfields⟩ := JsValue.uniqueKeys_obj.mp hv
    have hsame : ∀ fields', JsValue.uniqueKeys (.obj fields') = true →
        (canonicalJson number (.obj fields) = canonicalJson number (.obj fields') ↔
          ∀ key, Option.Rel JsValue.Same (JsValue.get fields key) (JsValue.get fields' key)) := by
      intro fields' hw
      obtain ⟨hkeys', hfields'⟩ := JsValue.uniqueKeys_obj.mp hw
      rw [objectText_eq_iff hkeys hkeys']
      refine forall_congr' fun key => optionRel_same ?_
      intro v hv w hw
      obtain ⟨f, hf, rfl⟩ := get_eq_some hv
      obtain ⟨f', hf', rfl⟩ := get_eq_some hw
      exact ih f hf (hfields f hf) (hfields' f' hf')
    constructor
    · intro h
      have hkind := kind_eq_of_text h
      cases w with
      | obj fields' => exact .obj ((hsame fields' hw).mp h)
      | bool c => cases c <;> simp [JsValue.kind] at hkind
      | _ => simp [JsValue.kind] at hkind
    · intro h
      cases h with
      | nothing h _ => simp at h
      | obj h => exact (hsame _ hw).mpr h

/-! ## What an approval covers -/

theorem get_of_mem {fields : List (CodeUnits × JsValue ν)} (hkeys : (fields.map Prod.fst).Nodup)
    {key : CodeUnits} {v : JsValue ν} (h : (key, v) ∈ fields) (hv : v.isUndefined = false) :
    JsValue.get fields key = some v := by
  have hfilter : ((fields.filter fun f => !f.2.isUndefined).map Prod.fst).Nodup :=
    hkeys.sublist (List.filter_sublist.map Prod.fst)
  have hmem : (key, v) ∈ fields.filter fun f => !f.2.isUndefined :=
    List.mem_filter.mpr ⟨h, by simpa using hv⟩
  rw [JsValue.get, find?_key_eq_some hfilter hmem rfl]
  rfl

/-- Objects that are the same have the same value under a key. -/
theorem JsValue.Same.field
    (h : JsValue.Same (.obj fields) (.obj fields')) (hkeys : (fields.map Prod.fst).Nodup)
    (hkeys' : (fields'.map Prod.fst).Nodup) {key : CodeUnits}
    (hv : (key, v) ∈ fields) (hw : (key, w) ∈ fields') (hv' : v.isUndefined = false)
    (hw' : w.isUndefined = false) : v.Same w := by
  cases h with
  | nothing h _ => simp at h
  | obj h =>
    have hkey := h key
    rw [get_of_mem hkeys hv hv', get_of_mem hkeys' hw hw'] at hkey
    cases hkey with
    | some hsame => exact hsame

theorem JsValue.Same.str_eq {s s' : CodeUnits}
    (h : JsValue.Same (.str s : JsValue ν) (.str s')) : s = s' := by
  cases h with
  | nothing h _ => simp at h
  | str => rfl

theorem JsValue.Same.num_eq {x y : ν} (h : JsValue.Same (.num x) (.num y)) : x = y := by
  cases h with
  | nothing h _ => simp at h
  | num => rfl

namespace HashedSpend

variable {request request' : HashedSpend ν}

/-- Every field that is hashed is the same. -/
structure SameFields (request request' : HashedSpend ν) : Prop where
  campaign_id : request.campaign_id = request'.campaign_id
  channel_id : request.channel_id = request'.channel_id
  amount_minor : request.amount_minor = request'.amount_minor
  currency : request.currency = request'.currency
  payee : request.payee = request'.payee
  payeeRef : request.payeeRef = request'.payeeRef
  purpose : request.purpose = request'.purpose
  provider : request.provider = request'.provider
  credential : request.credential = request'.credential
  payload : request.payloadOrEmpty.Same request'.payloadOrEmpty

theorem uniqueKeys_payloadOrEmpty (request : HashedSpend ν) :
    request.payloadOrEmpty.uniqueKeys = true := by
  have hpayload := request.payload.2
  unfold payloadOrEmpty
  cases hp : request.payload.1 with
  | undefined => rfl
  | null => rfl
  | _ =>
    rw [hp] at hpayload
    exact hpayload

theorem isUndefined_payloadOrEmpty (request : HashedSpend ν) :
    request.payloadOrEmpty.isUndefined = false := by
  unfold payloadOrEmpty
  cases request.payload.1 <;> rfl

theorem uniqueKeys_hashed (request : HashedSpend ν) : request.hashed.uniqueKeys = true := by
  have hpayload := uniqueKeys_payloadOrEmpty request
  refine JsValue.uniqueKeys_obj.mpr ⟨?_, ?_⟩
  · show [units "campaign_id", units "channel_id", units "amount_minor", units "currency",
      units "payee", units "payee_ref", units "purpose", units "provider",
      units "provider_credential_id", units "payload"].Nodup
    decide +kernel
  · simp only [entries, List.forall_mem_cons]
    refine ⟨rfl, rfl, rfl, rfl, rfl, rfl, rfl, rfl, ?_, hpayload, by simp⟩
    unfold credentialValue
    cases request.credential <;> rfl

theorem isUndefined_credentialValue (request : HashedSpend ν) :
    request.credentialValue.isUndefined = false := by
  unfold credentialValue
  cases request.credential <;> rfl

theorem credential_eq_of_same (h : request.credentialValue.Same request'.credentialValue) :
    request.credential = request'.credential := by
  unfold credentialValue at h
  cases hid : request.credential with
  | none =>
    cases hid' : request'.credential with
    | none => rfl
    | some id' =>
      rw [hid, hid'] at h
      cases h with
      | nothing _ h => simp at h
  | some id =>
    cases hid' : request'.credential with
    | none =>
      rw [hid, hid'] at h
      cases h with
      | nothing h _ => simp at h
    | some id' =>
      rw [hid, hid'] at h
      rw [h.str_eq]

/-- The fields of two requests that are hashed the same are the same. -/
theorem sameFields_of_same (h : request.hashed.Same request'.hashed) :
    request.SameFields request' := by
  have hfield : ∀ (key : CodeUnits) (v w : JsValue ν), (key, v) ∈ request.entries →
      (key, w) ∈ request'.entries → v.isUndefined = false → w.isUndefined = false → v.Same w :=
    fun key v w => h.field (JsValue.uniqueKeys_obj.mp request.uniqueKeys_hashed).1
      (JsValue.uniqueKeys_obj.mp request'.uniqueKeys_hashed).1
  have htext : ∀ (key : CodeUnits) (s s' : CodeUnits), (key, JsValue.str s) ∈ request.entries →
      (key, JsValue.str s') ∈ request'.entries → s = s' :=
    fun key s s' hs hs' => (hfield key _ _ hs hs' rfl rfl).str_eq
  exact {
    campaign_id := htext (units "campaign_id") _ _ (by simp [entries]) (by simp [entries])
    channel_id := htext (units "channel_id") _ _ (by simp [entries]) (by simp [entries])
    amount_minor := (hfield (units "amount_minor") (.num request.amount_minor)
      (.num request'.amount_minor) (by simp [entries]) (by simp [entries]) rfl rfl).num_eq
    currency := htext (units "currency") _ _ (by simp [entries]) (by simp [entries])
    payee := htext (units "payee") _ _ (by simp [entries]) (by simp [entries])
    payeeRef := htext (units "payee_ref") _ _ (by simp [entries]) (by simp [entries])
    purpose := htext (units "purpose") _ _ (by simp [entries]) (by simp [entries])
    provider := htext (units "provider") _ _ (by simp [entries]) (by simp [entries])
    credential := credential_eq_of_same (hfield (units "provider_credential_id") _ _
      (by simp [entries]) (by simp [entries]) request.isUndefined_credentialValue
      request'.isUndefined_credentialValue)
    payload := hfield (units "payload") _ _ (by simp [entries]) (by simp [entries])
      request.isUndefined_payloadOrEmpty request'.isUndefined_payloadOrEmpty }

/-- Requests with the same fields are hashed the same. -/
theorem hashed_eq_of_sameFields (h : request.SameFields request') :
    canonicalJson number request.hashed = canonicalJson number request'.hashed := by
  have hcredential : request.credentialValue = request'.credentialValue := by
    unfold credentialValue
    rw [h.credential]
  have hpayload : canonicalJson number request.payloadOrEmpty =
      canonicalJson number request'.payloadOrEmpty :=
    (canonicalJson_eq_iff_same request.uniqueKeys_payloadOrEmpty
      request'.uniqueKeys_payloadOrEmpty).mpr h.payload
  have hentries : canonicalEntries number request.entries =
      canonicalEntries number request'.entries := by
    simp only [entries, canonicalEntries, h.campaign_id, h.channel_id, h.amount_minor, h.currency,
      h.payee, h.payeeRef, h.purpose, h.provider, hcredential, hpayload,
      isUndefined_payloadOrEmpty]
  rw [hashed, hashed, canonicalJson, canonicalJson, hentries]

end HashedSpend

/-- Two values have the same canonical JSON exactly if they are the same up to the order of keys at
    every depth; so the texts of two spend requests that are hashed are equal exactly if every field
    that is hashed is the same. -/
theorem canonicalJson_eq_iff (number : NumberText ν) :
    (∀ v w : JsonValue ν,
      canonicalJson number v.1 = canonicalJson number w.1 ↔ v.1.Same w.1) ∧
    ∀ request request' : HashedSpend ν,
      canonicalJson number request.hashed = canonicalJson number request'.hashed ↔
        request.SameFields request' := by
  refine ⟨fun v w => canonicalJson_eq_iff_same v.2 w.2, fun request request' => ⟨?_, ?_⟩⟩
  · intro h
    apply HashedSpend.sameFields_of_same
    exact (canonicalJson_eq_iff_same request.uniqueKeys_hashed request'.uniqueKeys_hashed).mp h
  · exact HashedSpend.hashed_eq_of_sameFields

/-- The numbers of one digit. -/
def oneDigit : NumberText (Fin 10) where
  text d := [0x30 + d.val.toUInt16]
  inj d e := by
    revert d e
    decide
  ne_nil _ := List.cons_ne_nil _ _
  numeral d u hu := by
    obtain rfl := List.mem_singleton.mp hu
    clear hu
    revert d
    decide

/-- `{"b":1,"a":[null]}` and `{"a":[undefined],"b":1,"c":undefined}`. -/
theorem canonicalJson_eq_iff_oneDigit :
    JsValue.Same (.obj [(units "b", .num (1 : Fin 10)), (units "a", .arr [.null])])
      (.obj [(units "a", .arr [.undefined]), (units "b", .num 1), (units "c", .undefined)]) :=
  ((canonicalJson_eq_iff oneDigit).1
    ⟨.obj [(units "b", .num 1), (units "a", .arr [.null])], by decide⟩
    ⟨.obj [(units "a", .arr [.undefined]), (units "b", .num 1), (units "c", .undefined)],
      by decide⟩).mp (by decide +kernel)

end WorkflowBoard.Marketing
