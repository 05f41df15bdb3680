import WorkflowBoard.Spec.PlanUnits

/-!
# Ceiling plans and their check

What it takes for a stored plan to pass the check, that each plan the server builds passes it, and
when a plan that passes raises the ceiling by the approved amount: the check compares doubles, the
executor sends integers.
-/

namespace WorkflowBoard.Marketing

variable {env : SpendEnv} {coerce : Json → Option ℚ} {cardFields : PlanRow → List String}
  {row : PlanRow} {provider : CeilingProvider}

/-! ## What the check asks -/

/-- A stored plan that fits its request but for the amount, for these ends in units of the provider
    and in minor units, as far as doubles tell them apart. -/
structure EndsFit (env : SpendEnv) (row : PlanRow) (provider : CeilingProvider)
    (lo hi a b : Int) : Prop where
  kind : isText (row.payload.get "plan") "raise_ceiling" = true
  own_provider : isText (row.payload.get "provider") provider.code = true
  currency : isText (row.payload.get "currency") row.currency = true
  target : ∃ target, parseDirectRef provider row.payee_ref = .ok target ∧
    ∀ entry ∈ target,
      (row.payload.get "target").any (fun t => isText (t.get entry.1) entry.2) = true
  field : isText (row.payload.get "field") (provider.units env).field = true
  fingerprint : ∃ s, row.payload.get "credential_fingerprint" = some (.str s) ∧
    isFingerprint s = true
  lo_read : parseProviderInt (row.payload.get "from") "plan from" = .ok lo
  hi_read : parseProviderInt (row.payload.get "to") "plan to" = .ok hi
  raises : lo < hi
  lo_minor : (provider.units env).toMinor lo row.currency = .ok a
  hi_minor : (provider.units env).toMinor hi row.currency = .ok b
  from_minor : row.payload.get "from_minor" = some (.num (numberOf a))
  to_minor : row.payload.get "to_minor" = some (.num (numberOf b))

/-- The difference of the ends in doubles is the amount as well. -/
structure Consistent (env : SpendEnv) (row : PlanRow) (provider : CeilingProvider)
    (lo hi a b : Int) : Prop extends EndsFit env row provider lo hi a b where
  amount : roundDouble (numberOf b - numberOf a) = row.amount_minor

theorem problemIf_eq_nil {bad : Bool} {problem : String} :
    problemIf bad problem = [] ↔ bad = false := by
  cases bad <;> simp [problemIf]

variable {plan : Json} {toMinor : Int → Except MarketingError Int} {target : List (String × String)}

theorem convertsBadly_ok {lo hi : Int} :
    convertsBadly toMinor plan lo hi = .ok false ↔ ∃ a b, toMinor lo = .ok a ∧
      toMinor hi = .ok b ∧ plan.get "from_minor" = some (.num (numberOf a)) ∧
      plan.get "to_minor" = some (.num (numberOf b)) := by
  unfold convertsBadly
  rw [bind_eq_ok]
  constructor
  · rintro ⟨a, ha, h⟩
    split at h
    · rename_i hfrom
      simp only [bind_eq_ok, pure_eq_ok, Bool.not_eq_false'] at h
      obtain ⟨b, hb, hto⟩ := h
      exact ⟨a, b, ha, hb, isNumber_iff.mp hfrom, isNumber_iff.mp hto⟩
    · cases h
  · rintro ⟨a, b, ha, hb, hfrom, hto⟩
    refine ⟨a, ha, ?_⟩
    rw [if_pos (isNumber_iff.mpr hfrom)]
    simp only [bind_eq_ok, pure_eq_ok, Bool.not_eq_false']
    exact ⟨b, hb, isNumber_iff.mpr hto⟩

theorem amountProblems_eq_nil :
    amountProblems coerce row toMinor plan = [] ↔ ∃ lo hi a b : Int,
      parseProviderInt (plan.get "from") "plan from" = .ok lo ∧
      parseProviderInt (plan.get "to") "plan to" = .ok hi ∧ lo < hi ∧
      toMinor lo = .ok a ∧ toMinor hi = .ok b ∧
      plan.get "from_minor" = some (.num (numberOf a)) ∧
      plan.get "to_minor" = some (.num (numberOf b)) ∧
      roundDouble (numberOf b - numberOf a) = row.amount_minor := by
  unfold amountProblems
  dsimp only
  split
  · rename_i e hends
    constructor
    · nofun
    · rintro ⟨lo, hi, _, _, hlo, hhi, -⟩
      rw [hlo, hhi] at hends
      cases hends
  · rename_i lo hi hends
    simp only [bind_eq_ok, pure_eq_ok, Prod.mk.injEq] at hends
    obtain ⟨_, hlo, _, hhi, rfl, rfl⟩ := hends
    rw [List.append_eq_nil_iff, problemIf_eq_nil, decide_eq_false_iff_not, Int.not_le]
    constructor
    · rintro ⟨hlt, h⟩
      split at h
      · cases h
      · rename_i bad hbad
        rw [List.append_eq_nil_iff, problemIf_eq_nil, problemIf_eq_nil] at h
        obtain ⟨rfl, hraise⟩ := h
        obtain ⟨a, b, ha, hb, hfrom, hto⟩ := convertsBadly_ok.mp hbad
        refine ⟨_, _, a, b, hlo, hhi, hlt, ha, hb, hfrom, hto, ?_⟩
        simpa [planRaise, toNumber, hfrom, hto] using hraise
    · rintro ⟨lo', hi', a, b, hlo', hhi', hlt, ha, hb, hfrom, hto, hraise⟩
      rw [hlo, Except.ok.injEq] at hlo'
      rw [hhi, Except.ok.injEq] at hhi'
      subst hlo' hhi'
      have hbad := convertsBadly_ok.mpr ⟨a, b, ha, hb, hfrom, hto⟩
      refine ⟨hlt, ?_⟩
      rw [hbad]
      dsimp only
      rw [List.append_eq_nil_iff, problemIf_eq_nil, problemIf_eq_nil]
      refine ⟨rfl, ?_⟩
      simpa [planRaise, toNumber, hfrom, hto] using hraise

theorem fingerprintProblem_eq_nil : fingerprintProblem plan = [] ↔
    ∃ s, plan.get "credential_fingerprint" = some (.str s) ∧ isFingerprint s = true := by
  unfold fingerprintProblem
  split
  · rename_i s hs
    rw [problemIf_eq_nil, Bool.not_eq_false', hs]
    simp
  · rename_i hother
    exact ⟨nofun, fun ⟨s, hs, _⟩ => absurd hs (hother s)⟩

theorem targetProblems_eq_nil :
    targetProblems plan target = [] ↔ ∀ entry ∈ target,
      (plan.get "target").any (fun t => isText (t.get entry.1) entry.2) = true := by
  unfold targetProblems
  rw [List.flatMap_eq_nil_iff]
  refine forall₂_congr fun entry _ => ?_
  rw [problemIf_eq_nil, Bool.not_eq_false']

theorem ceilingPlanProblems_eq_nil : ceilingPlanProblems env coerce row provider = [] ↔
    ∃ lo hi a b, Consistent env row provider lo hi a b := by
  unfold ceilingPlanProblems
  dsimp only
  cases hkind : isText (row.payload.get "plan") "raise_ceiling" with
  | false =>
    refine ⟨by rintro ⟨⟩, ?_⟩
    rintro ⟨_, _, _, _, h⟩
    rw [h.kind] at hkind
    cases hkind
  | true =>
    simp only [Bool.not_true, Bool.false_eq_true, if_false, List.append_eq_nil_iff,
      problemIf_eq_nil, Bool.not_eq_false', fingerprintProblem_eq_nil, amountProblems_eq_nil]
    constructor
    · rintro ⟨⟨⟨⟨⟨hprovider, hcurrency⟩, hsame⟩, hfield⟩, hfingerprint⟩, lo, hi, a, b, hlo, hhi,
        hlt, ha, hb, hfrom, hto, hraise⟩
      refine ⟨lo, hi, a, b, ⟨hkind, hprovider, hcurrency, ?_, hfield, hfingerprint,
        hlo, hhi, hlt, ha, hb, hfrom, hto⟩, hraise⟩
      split at hsame
      · cases hsame
      · rename_i target htarget
        exact ⟨target, htarget, targetProblems_eq_nil.mp hsame⟩
    · rintro ⟨lo, hi, a, b, h⟩
      refine ⟨⟨⟨⟨⟨h.own_provider, h.currency⟩, ?_⟩, h.field⟩, h.fingerprint⟩,
        lo, hi, a, b, h.lo_read, h.hi_read, h.raises, h.lo_minor, h.hi_minor, h.from_minor,
        h.to_minor, h.amount⟩
      obtain ⟨target, htarget, hentries⟩ := h.target
      rw [htarget]
      exact targetProblems_eq_nil.mpr hentries

/-- A stored ceiling plan passes the check if it fits its request, one of a ceiling provider. -/
theorem directPlanProblems_eq_nil (hkind : isText (row.payload.get "plan") "raise_ceiling" = true) :
    directPlanProblems env coerce cardFields row = [] ↔
      ∃ provider : CeilingProvider, row.provider = provider.provider ∧
        ∃ lo hi a b, Consistent env row provider lo hi a b := by
  unfold directPlanProblems
  have hcard : isText (row.payload.get "plan") "issue_card" = false := by
    rw [isText_iff] at hkind
    rw [hkind]
    rfl
  split
  · rename_i hprovider
    rw [ceilingPlanProblems_eq_nil]
    constructor
    · exact fun h => ⟨.metaAds, hprovider, h⟩
    · rintro ⟨provider, hsame, h⟩
      cases provider with
      | metaAds => exact h
      | googleAds => cases hprovider.symm.trans hsame
  · rename_i hprovider
    rw [ceilingPlanProblems_eq_nil]
    constructor
    · exact fun h => ⟨.googleAds, hprovider, h⟩
    · rintro ⟨provider, hsame, h⟩
      cases provider with
      | metaAds => cases hprovider.symm.trans hsame
      | googleAds => exact h
  · rename_i hprovider
    unfold cardPlanProblems
    rw [hcard]
    refine ⟨nofun, ?_⟩
    rintro ⟨provider, hsame, -⟩
    cases provider <;> cases hprovider.symm.trans hsame
  · rename_i hprovider
    refine ⟨nofun, ?_⟩
    rintro ⟨provider, hsame, -⟩
    cases provider <;> cases hprovider.symm.trans hsame
  · rename_i hprovider
    refine ⟨nofun, ?_⟩
    rintro ⟨provider, hsame, -⟩
    cases provider <;> cases hprovider.symm.trans hsame

/-! ## Amounts in doubles -/

theorem numberOf_of_safe {n : Int} (h : isSafeInteger n = true) : numberOf n = n := by
  unfold isSafeInteger maxSafeInteger at h
  rw [decide_eq_true_eq] at h
  exact roundDouble_of_le (by omega)

/-- What is a safe integer as a double is that integer. -/
theorem safeMinor_ok {value n : Int} {label : String} (h : safeMinor value label = .ok n) :
    n = value ∧ isSafeInteger value = true ∧ 0 ≤ value := by
  simp only [safeMinor, bind_eq_ok, require_eq_ok, pure_eq_ok, Bool.and_eq_true,
    beq_iff_eq, decide_eq_true_eq] at h
  obtain ⟨_, ⟨⟨hden, hsafe⟩, hnonneg⟩, rfl⟩ := h
  have hint : numberOf value = ((numberOf value).num : ℚ) :=
    ((Rat.den_eq_one_iff _).mp hden).symm
  have hlt : |roundDouble value| < 2 ^ 53 := by
    have hnum : (numberOf value).num.natAbs < 2 ^ 53 := by
      unfold isSafeInteger maxSafeInteger at hsafe
      rw [decide_eq_true_eq] at hsafe
      omega
    have habs : |numberOf value| = ((numberOf value).num.natAbs : ℚ) := by
      rw [hint, ← Int.cast_abs, Int.abs_eq_natAbs]
      simp
    unfold numberOf at habs
    rw [habs]
    exact_mod_cast hnum
  have hvalue : (numberOf value).num = value := by
    have heq : ((numberOf value).num : ℚ) = value := by
      rw [← hint]
      exact eq_of_roundDouble_lt hlt
    exact_mod_cast heq
  exact ⟨hvalue, hvalue ▸ hsafe, hvalue ▸ hnonneg⟩

/-- The digits of an integer are read as that integer. -/
theorem parseProviderInt_toString {n : Int} (h₀ : 0 ≤ n) (h : n ≤ int64Max) (label : String) :
    parseProviderInt (some (.str (toString n))) label = .ok n := by
  obtain ⟨m, rfl⟩ := Int.eq_ofNat_of_zero_le h₀
  have hchars : (toString (m : Int)).toList = Nat.toDigits 10 m := by
    show (Nat.repr m).toList = _
    rw [Nat.repr, String.toList_ofList]
  have hlength : (Nat.toDigits 10 m).length ≤ 19 := by
    unfold int64Max at h
    exact (Nat.length_toDigits_le_iff (by decide) (by decide)).mpr (by omega)
  have hdigit : ∀ c ∈ Nat.toDigits 10 m, c.isDigit = true :=
    fun c hc => Nat.isDigit_of_mem_toDigits (by omega) (by omega) hc
  have hvalue : digitsToNat? (Nat.toDigits 10 m) = some m := by
    have hdecimal := Nat.ofDigitChars_ten_toDigits (n := m)
    rw [Nat.ofDigitChars_eq_foldl] at hdecimal
    unfold digitsToNat?
    rw [if_pos ⟨Nat.toDigits_ne_nil, List.all_eq_true.mpr hdigit⟩, Option.some.injEq]
    refine Eq.trans ?_ hdecimal
    exact List.foldl_ext _ _ _ fun k c _ => by rw [Nat.mul_comm]
  unfold parseProviderInt
  dsimp only
  rw [hchars, if_pos hlength, hvalue]
  rfl

/-! ## The plans that the server builds -/

theorem supported_of_toUnits {u m : Int} {currency : String}
    (h : (provider.units env).toUnits m currency = .ok u) :
    ∃ spec, currencySpec env currency = .ok spec := by
  cases provider with
  | metaAds =>
    unfold CeilingProvider.units minorToMetaUnits at h
    obtain ⟨spec, hspec, -⟩ := bind_eq_ok.mp h
    exact ⟨spec, hspec⟩
  | googleAds =>
    unfold CeilingProvider.units minorToGoogleMicros at h
    obtain ⟨spec, hspec, -⟩ := bind_eq_ok.mp h
    exact ⟨spec, hspec⟩

theorem supported_of_toMinor {u m : Int} {currency : String}
    (h : (provider.units env).toMinor u currency = .ok m) :
    ∃ spec, currencySpec env currency = .ok spec := by
  cases provider with
  | metaAds =>
    unfold CeilingProvider.units metaUnitsToMinor at h
    obtain ⟨spec, hspec, -⟩ := bind_eq_ok.mp h
    exact ⟨spec, hspec⟩
  | googleAds =>
    unfold CeilingProvider.units googleMicrosToMinor at h
    obtain ⟨spec, hspec, -⟩ := bind_eq_ok.mp h
    exact ⟨spec, hspec⟩

/-- Encoder and decoder undo each other; in a currency that is not supported neither gives
    anything. -/
theorem undo_iff (provider : CeilingProvider) (currency : String) (m u : Int) :
    (provider.units env).toUnits m currency = .ok u ↔
      (provider.units env).toMinor u currency = .ok m := by
  constructor
  · intro h
    obtain ⟨spec, hspec⟩ := supported_of_toUnits h
    obtain ⟨p, q, hratio⟩ := isRatio_units hspec provider
    exact hratio.dec_enc h
  · intro h
    obtain ⟨spec, hspec⟩ := supported_of_toMinor h
    obtain ⟨p, q, hratio⟩ := isRatio_units hspec provider
    exact hratio.enc_dec h

theorem lookup_map_str {l : List (String × String)} {key value : String}
    (h : l.lookup key = some value) :
    isText ((Json.obj (l.map fun (key, value) => (key, Json.str value))).get key) value = true := by
  rw [isText_iff]
  unfold Json.get
  dsimp only
  induction l with
  | nil => cases h
  | cons entry l ih =>
    rw [List.lookup_cons] at h
    rw [List.map_cons, List.lookup_cons]
    cases hkey : key == entry.1 with
    | true =>
      rw [hkey] at h
      exact congrArg (some <| Json.str ·) (Option.some.inj h)
    | false =>
      rw [hkey] at h
      exact ih h

/-- The plan that the server builds fits the request that it is built for. -/
theorem consistent_of_build {input : CeilingInput} {plan : CeilingPlan} {ref : String}
    (hplan : buildCeilingPlan env input = .ok plan)
    (hpos : 0 < input.amountMinor) (hsafe : isSafeInteger input.amountMinor = true)
    (href : parseDirectRef input.provider ref = .ok target)
    (htarget : ∀ entry ∈ target, input.target.lookup entry.1 = some entry.2)
    (hfingerprint : isFingerprint input.credentialFingerprint = true) :
    ∃ lo hi a b, Consistent env ⟨input.provider.provider, ref, input.currency, input.amountMinor,
      plan.toJson⟩ input.provider lo hi a b := by
  simp only [buildCeilingPlan, bind_eq_ok, require_eq_ok, pure_eq_ok,
    decide_eq_true_eq] at hplan
  obtain ⟨a, ha, raise, hraise, _, hmax, b, hb, a', ha', b', hb', rfl⟩ := hplan
  obtain ⟨spec, hspec⟩ := supported_of_toMinor ha
  obtain ⟨p, q, hratio⟩ := isRatio_units hspec input.provider
  obtain ⟨rfl, hasafe, ha₀⟩ := safeMinor_ok ha'
  obtain ⟨rfl, hbsafe, hb₀⟩ := safeMinor_ok hb'
  have hsum : b' = a' + input.amountMinor := by
    have hdec := hratio.dec_add ha hraise
    exact Except.ok.inj (hb.symm.trans hdec)
  have hlo : 0 ≤ input.fromUnits := hratio.nonneg_of_dec ha₀ ha
  have hup : 0 < raise := hratio.pos_of_enc hpos hraise
  refine ⟨input.fromUnits, input.fromUnits + raise, a', b', ?_⟩
  refine { toEndsFit := ?_, amount := ?_ }
  constructor
  · rfl
  · exact isText_iff.mpr rfl
  · exact isText_iff.mpr rfl
  · exact ⟨target, href, fun entry hentry => lookup_map_str (htarget entry hentry)⟩
  · exact isText_iff.mpr rfl
  · exact ⟨_, rfl, hfingerprint⟩
  · exact parseProviderInt_toString hlo (by omega) _
  · exact parseProviderInt_toString (by omega) hmax _
  · omega
  · exact ha
  · exact hb
  · rw [numberOf_of_safe hasafe]
    rfl
  · rw [numberOf_of_safe hbsafe]
    rfl
  · rw [numberOf_of_safe hasafe, numberOf_of_safe hbsafe, hsum]
    push_cast
    rw [add_sub_cancel_left]
    exact numberOf_of_safe hsafe

/-- Each plan that the server builds passes the check of its request, and at each provider units and
    minor units of each currency undo each other. -/
theorem built_plans_pass (env : SpendEnv) (coerce : Json → Option ℚ)
    (cardFields : PlanRow → List String) :
    (∀ (input : CeilingInput) (plan : CeilingPlan) (ref : String) (target : List (String × String)),
      buildCeilingPlan env input = .ok plan → 0 < input.amountMinor →
      isSafeInteger input.amountMinor = true →
      parseDirectRef input.provider ref = .ok target →
      (∀ entry ∈ target, input.target.lookup entry.1 = some entry.2) →
      isFingerprint input.credentialFingerprint = true →
      directPlanProblems env coerce cardFields ⟨input.provider.provider, ref, input.currency,
        input.amountMinor, plan.toJson⟩ = []) ∧
    (∀ currency minor units, minorToMetaUnits env minor currency = .ok units ↔
      metaUnitsToMinor env units currency = .ok minor) ∧
    ∀ currency minor micros, minorToGoogleMicros env minor currency = .ok micros ↔
      googleMicrosToMinor env micros currency = .ok minor := by
  refine ⟨?_, fun currency minor units => ?_, fun currency minor micros => ?_⟩
  · intro input plan ref target hplan hpos hsafe href htarget hfingerprint
    refine (directPlanProblems_eq_nil (isText_iff.mpr rfl)).mpr ⟨input.provider, rfl, ?_⟩
    exact consistent_of_build hplan hpos hsafe href htarget hfingerprint
  · exact undo_iff .metaAds currency minor units
  · exact undo_iff .googleAds currency minor micros

/-- ASCII case mapping. -/
def asciiEnv : SpendEnv := ⟨String.toLower, String.toUpper, fun _ => ""⟩

/-- A cap of 1,000 dollars that 300 dollars are asked for. -/
def capInput : CeilingInput where
  provider := .metaAds
  target := [("ad_account_id", "9"), ("campaign_id", "77")]
  targetName := some "Fall promo"
  currency := "USD"
  fromUnits := 100000
  amountMinor := 30000
  credentialFingerprint := "0123456789abcdef"
  test_account := none
  end_date_time := none

/-- The plan built for the cap passes the check. -/
theorem built_plan_passes : ∃ plan, buildCeilingPlan asciiEnv capInput = .ok plan ∧
    directPlanProblems asciiEnv (fun _ => none) (fun _ => [])
      ⟨.metaAds, "act_9/77", "USD", ((30000 : Int) : ℚ), plan.toJson⟩ = [] := by
  have hbuilt : (buildCeilingPlan asciiEnv capInput).toOption.isSome = true := by decide +kernel
  obtain ⟨plan, hplan⟩ := Option.isSome_iff_exists.mp hbuilt
  rw [except_toOption_eq_some] at hplan
  have href : (parseDirectRef .metaAds "act_9/77").toOption =
      some [("ad_account_id", "9"), ("campaign_id", "77")] := by
    decide +kernel
  refine ⟨plan, hplan, (built_plans_pass asciiEnv (fun _ => none) fun _ => []).1 capInput plan
    "act_9/77" _ hplan (by decide) (by decide) (except_toOption_eq_some.mp href) (by decide) ?_⟩
  decide +kernel

/-! ## What a plan that passes raises -/

/-- If the plan passes the check, its ends are apart by the approved amount. -/
def RaisesExactly (env : SpendEnv) (coerce : Json → Option ℚ) (cardFields : PlanRow → List String)
    (row : PlanRow) : Prop :=
  directPlanProblems env coerce cardFields row = [] →
    ∃ (provider : CeilingProvider) (lo hi a b : Int), row.provider = provider.provider ∧
      parseProviderInt (row.payload.get "from") "plan from" = .ok lo ∧
      parseProviderInt (row.payload.get "to") "plan to" = .ok hi ∧
      (provider.units env).toMinor lo row.currency = .ok a ∧
      (provider.units env).toMinor hi row.currency = .ok b ∧
      ((b - a : Int) : ℚ) = row.amount_minor

/-- A plan raises the ceiling by the approved amount or is refused, exactly if no double is rounded
    on the way from its ends to their difference, where this difference is taken for the amount. -/
theorem raisesExactly_iff (hkind : isText (row.payload.get "plan") "raise_ceiling" = true) :
    RaisesExactly env coerce cardFields row ↔
      ∀ (provider : CeilingProvider) (lo hi a b : Int), row.provider = provider.provider →
        EndsFit env row provider lo hi a b →
          roundDouble (numberOf b - numberOf a) = row.amount_minor →
            roundDouble (numberOf b - numberOf a) = ((b - a : Int) : ℚ) := by
  constructor
  · intro h provider lo hi a b hprovider hends hdiff
    have hplan : Consistent env row provider lo hi a b := { hends with amount := hdiff }
    obtain ⟨provider', lo', hi', a', b', hprovider', hlo, hhi, ha, hb, hamount⟩ :=
      h ((directPlanProblems_eq_nil hkind).mpr ⟨provider, hprovider, lo, hi, a, b, hplan⟩)
    obtain rfl : provider = provider' := by
      have hsame := hprovider.symm.trans hprovider'
      cases provider <;> cases provider' <;> first | rfl | cases hsame
    obtain rfl : lo = lo' := Except.ok.inj (hplan.lo_read.symm.trans hlo)
    obtain rfl : hi = hi' := Except.ok.inj (hplan.hi_read.symm.trans hhi)
    obtain rfl : a = a' := Except.ok.inj (hplan.lo_minor.symm.trans ha)
    obtain rfl : b = b' := Except.ok.inj (hplan.hi_minor.symm.trans hb)
    exact hplan.amount.trans hamount.symm
  · intro h hnone
    obtain ⟨provider, hprovider, lo, hi, a, b, hplan⟩ := (directPlanProblems_eq_nil hkind).mp hnone
    exact ⟨provider, lo, hi, a, b, hprovider, hplan.lo_read, hplan.hi_read, hplan.lo_minor,
      hplan.hi_minor,
      (h provider lo hi a b hprovider hplan.toEndsFit hplan.amount).symm.trans hplan.amount⟩

theorem difference_exact {a b : Int} (ha : 0 ≤ a) (hab : a ≤ b) (hb : b ≤ 2 ^ 53) :
    roundDouble (numberOf b - numberOf a) = ((b - a : Int) : ℚ) := by
  unfold numberOf
  rw [roundDouble_of_le (n := a) (by omega), roundDouble_of_le (n := b) (by omega), ← Int.cast_sub]
  exact roundDouble_of_le (by omega)

/-- The plan of a request of which the ends are these, in cents. -/
def capRow (lo hi : String) (from_minor to_minor amount : ℚ) : PlanRow where
  provider := .metaAds
  payee_ref := "act_9/77"
  currency := "USD"
  amount_minor := amount
  payload := .obj [("plan", .str "raise_ceiling"), ("provider", .str "meta_ads"),
    ("target", .obj [("ad_account_id", .str "9"), ("campaign_id", .str "77")]),
    ("field", .str "spend_cap"), ("currency", .str "USD"), ("from", .str lo), ("to", .str hi),
    ("from_minor", .num from_minor), ("to_minor", .num to_minor),
    ("credential_fingerprint", .str "0123456789abcdef")]

theorem eq_of_toOption {ε α : Type} {x : Except ε α} {a b : α} (h : x.toOption = some a)
    (hb : x = .ok b) : b = a :=
  Except.ok.inj (hb.symm.trans (except_toOption_eq_some.mp h))

/-- A raise from 100000 to 130000. -/
theorem raisesExactly_capRow : RaisesExactly asciiEnv (fun _ => none) (fun _ => [])
    (capRow "100000" "130000" 100000 130000 30000) := by
  refine (raisesExactly_iff (by decide +kernel)).mpr fun provider lo hi a b hprovider hplan _ => ?_
  obtain rfl : lo = 100000 := eq_of_toOption (by decide +kernel) hplan.lo_read
  obtain rfl : hi = 130000 := eq_of_toOption (by decide +kernel) hplan.hi_read
  cases provider with
  | metaAds =>
    obtain rfl : a = 100000 := eq_of_toOption (by decide +kernel) hplan.lo_minor
    obtain rfl : b = 130000 := eq_of_toOption (by decide +kernel) hplan.hi_minor
    exact difference_exact (by decide) (by decide) (by decide)
  | googleAds => cases hprovider

/-- Two caps beyond `2 ^ 53` that are one cent apart pass for a request of two. -/
theorem not_raisesExactly : ¬∀ (env : SpendEnv) (coerce : Json → Option ℚ)
    (cardFields : PlanRow → List String) (row : PlanRow),
    isText (row.payload.get "plan") "raise_ceiling" = true →
      RaisesExactly env coerce cardFields row := by
  intro h
  have hraises := h asciiEnv (fun _ => none) (fun _ => [])
    (capRow "9007199254740993" "9007199254740994" 9007199254740992 9007199254740994 2)
    (by decide +kernel)
  obtain ⟨provider, lo, hi, a, b, hprovider, hlo, hhi, ha, hb, hamount⟩ :=
    hraises (by decide +kernel)
  obtain rfl : lo = 9007199254740993 := eq_of_toOption (by decide +kernel) hlo
  obtain rfl : hi = 9007199254740994 := eq_of_toOption (by decide +kernel) hhi
  cases provider with
  | metaAds =>
    obtain rfl : a = 9007199254740993 := eq_of_toOption (by decide +kernel) ha
    obtain rfl : b = 9007199254740994 := eq_of_toOption (by decide +kernel) hb
    exact absurd hamount (by decide +kernel)
  | googleAds => cases hprovider

end WorkflowBoard.Marketing
