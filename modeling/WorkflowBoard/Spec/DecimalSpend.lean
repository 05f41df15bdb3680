import WorkflowBoard.Native.SpendReport

/-!
# Reported spend is rounded up

A well-formed report is a decimal number, of which `decimalSpendMinor` gives the least integer of
minor units that is not below it (`decimalSpendMinor_exact`). So no spend is understated, and what
is returned of an approved amount is never more than what is left.
-/

namespace WorkflowBoard.Marketing

/-- A decimal number: the digits before the point and those behind it. -/
structure Decimal where
  whole : List (Fin 10)
  fraction : List (Fin 10)
  whole_ne : whole ≠ []

def digitUnit (d : Fin 10) : UInt16 := 0x30 + d.val.toUInt16

/-- The integer of some digits, the highest first. -/
def wholeValue (ds : List (Fin 10)) : ℕ := Nat.ofDigits 10 (ds.map Fin.val).reverse

/-- The value of the digits behind a point. -/
def fractionValue : List (Fin 10) → ℚ
  | [] => 0
  | d :: ds => (d.val + fractionValue ds) / 10

namespace Decimal

def value (d : Decimal) : ℚ := wholeValue d.whole + fractionValue d.fraction

/-- How the number is written; a number without a fraction has no point. -/
def text (d : Decimal) : CodeUnits :=
  d.whole.map digitUnit ++ if d.fraction = [] then [] else dot :: d.fraction.map digitUnit

end Decimal

/-! ## Digits -/

variable {s : CodeUnits} {ds : List (Fin 10)}

theorem digitUnit_toNat (d : Fin 10) : (digitUnit d).toNat - 0x30 = d.val := by
  revert d
  decide

theorem isDigitUnit_digitUnit (d : Fin 10) : isDigitUnit (digitUnit d) = true := by
  revert d
  decide

theorem digitUnit_ne_dot (d : Fin 10) : digitUnit d ≠ dot := by
  revert d
  decide

theorem dot_notMem (ds : List (Fin 10)) : dot ∉ ds.map digitUnit := by
  simp [digitUnit_ne_dot]

theorem exists_digitUnit {u : UInt16} (h : isDigitUnit u = true) : ∃ d, digitUnit d = u := by
  simp only [isDigitUnit, Bool.and_eq_true, decide_eq_true_eq, UInt16.le_iff_toNat_le] at h
  have hlow : (0x30 : UInt16).toNat = 0x30 := rfl
  have hhigh : (0x39 : UInt16).toNat = 0x39 := rfl
  refine ⟨⟨u.toNat - 0x30, by omega⟩, ?_⟩
  apply UInt16.toNat_inj.mp
  simp [digitUnit]
  omega

theorem exists_digits (h : s.all isDigitUnit = true) : ∃ ds, s = List.map digitUnit ds := by
  induction s with
  | nil => exact ⟨[], rfl⟩
  | cons u s ih =>
    simp only [List.all_cons, Bool.and_eq_true] at h
    obtain ⟨d, rfl⟩ := exists_digitUnit h.1
    obtain ⟨ds, rfl⟩ := ih h.2
    exact ⟨d :: ds, rfl⟩

theorem digitsValue_map (ds : List (Fin 10)) : digitsValue (ds.map digitUnit) = wholeValue ds := by
  induction ds using List.reverseRecOn with
  | nil => rfl
  | append_singleton ds d ih =>
    simp only [digitsValue, wholeValue] at ih ⊢
    simp only [List.map_append, List.map_singleton, List.foldl_append, List.foldl_cons,
      List.foldl_nil, List.reverse_append, List.reverse_singleton, List.singleton_append,
      Nat.ofDigits_cons, ih, digitUnit_toNat]
    ring

theorem fractionValue_snoc (ds : List (Fin 10)) (d : Fin 10) :
    fractionValue (ds ++ [d]) = fractionValue ds + d.val / 10 ^ (ds.length + 1) := by
  induction ds with
  | nil => simp [fractionValue]
  | cons d' ds ih =>
    simp only [List.cons_append, fractionValue, ih, List.length_cons]
    field_simp
    ring

/-- The digits behind the point, read as an integer. -/
theorem fractionValue_mul (ds : List (Fin 10)) :
    fractionValue ds * 10 ^ ds.length = wholeValue ds := by
  induction ds using List.reverseRecOn with
  | nil => simp [fractionValue, wholeValue]
  | append_singleton ds d ih =>
    have hnext : (wholeValue (ds ++ [d]) : ℚ) = wholeValue ds * 10 + d.val := by
      simp [wholeValue, Nat.ofDigits_cons]
      ring
    rw [hnext, ← ih, fractionValue_snoc, List.length_append, List.length_singleton]
    field_simp
    ring

/-! ## Texts -/

theorem splitOn_text (d : Decimal) : d.text.splitOn dot =
    if d.fraction = [] then [d.whole.map digitUnit]
    else [d.whole.map digitUnit, d.fraction.map digitUnit] := by
  unfold Decimal.text
  split
  · rw [List.append_nil, List.splitOn_eq_singleton (dot_notMem _)]
  · rw [List.splitOn_append_cons_self_of_not_mem (dot_notMem _),
      List.splitOn_eq_singleton (dot_notMem _)]

/-- The check accepts the texts of decimals and no others. -/
theorem isDecimal_iff : isDecimal s = true ↔ ∃ d : Decimal, s = d.text := by
  constructor
  · intro h
    have hjoin : [dot].intercalate (s.splitOn dot) = s := List.intercalate_splitOn dot
    unfold isDecimal at h
    split at h
    · rename_i whole hparts
      simp only [Bool.and_eq_true, decide_eq_true_eq] at h
      obtain ⟨ds, rfl⟩ := exists_digits h.2
      refine ⟨⟨ds, [], by simpa using h.1⟩, ?_⟩
      rw [← hjoin, hparts]
      simp [Decimal.text]
    · rename_i whole fraction hparts
      simp only [Bool.and_eq_true, decide_eq_true_eq] at h
      obtain ⟨⟨⟨hne, hwhole⟩, hne'⟩, hfraction⟩ := h
      obtain ⟨ds, rfl⟩ := exists_digits hwhole
      obtain ⟨ds', rfl⟩ := exists_digits hfraction
      have hds' : ds' ≠ [] := by simpa using hne'
      refine ⟨⟨ds, ds', by simpa using hne⟩, ?_⟩
      rw [← hjoin, hparts]
      simp [Decimal.text, hds', List.intercalate]
    · cases h
  · rintro ⟨d, rfl⟩
    have hdigits : ∀ ds : List (Fin 10), (ds.map digitUnit).all isDigitUnit = true := by
      simp [isDigitUnit_digitUnit]
    unfold isDecimal
    rw [splitOn_text]
    by_cases hnone : d.fraction = []
    · simp [hnone, d.whole_ne, isDigitUnit_digitUnit]
    · simp [hnone, d.whole_ne, isDigitUnit_digitUnit]

/-! ## Rounding -/

/-- The rounding up of `BigInt` division is the ceiling. -/
theorem div_eq_ceil (n : ℕ) {k : ℕ} (hk : 0 < k) : (n + k - 1) / k = ⌈(n : ℚ) / k⌉₊ := by
  apply eq_of_forall_ge_iff
  intro m
  have hcast : (n : ℚ) ≤ m * k ↔ n ≤ m * k := by exact_mod_cast Iff.rfl
  rw [Nat.div_le_iff_le_mul_add_pred hk, Nat.ceil_le, div_le_iff₀ (by exact_mod_cast hk), hcast,
    Nat.mul_comm k m]
  omega

/-- The exponent of a currency. -/
def exponentOf (env : SpendEnv) (currency : String) : ℕ :=
  currencyExponent (env.toUpperCase currency)

theorem decimalSpendMinor_text (env : SpendEnv) (d : Decimal) (currency : String) :
    decimalSpendMinor env (some d.text) currency =
      if 100 < d.text.length then .error ⟨"invalid decimal spend", false⟩
      else safeReportInteger (⌈d.value * 10 ^ exponentOf env currency⌉₊ : ℕ) := by
  have hdecimal : isDecimal d.text = true := isDecimal_iff.mpr ⟨d, rfl⟩
  have hvalue : d.value * 10 ^ exponentOf env currency =
      (((wholeValue d.whole * 10 ^ d.fraction.length + wholeValue d.fraction) *
        10 ^ exponentOf env currency : ℕ) : ℚ) / (10 ^ d.fraction.length : ℕ) := by
    push_cast
    rw [← fractionValue_mul d.fraction, Decimal.value]
    field_simp
  unfold decimalSpendMinor
  dsimp only
  simp only [hdecimal, Bool.not_true, Bool.false_or, decide_eq_true_eq]
  split
  · rfl
  · rw [hvalue, ← div_eq_ceil _ (by positivity), splitOn_text, exponentOf]
    have hzero : digitsValue [0x30] = wholeValue [] := rfl
    by_cases hnone : d.fraction = []
    · simp [hnone, digitsValue_map, hzero]
    · simp [hnone, digitsValue_map]

theorem safeReportInteger_ok {m n : ℕ} :
    safeReportInteger m = .ok n ↔ n = m ∧ n ≤ maxSafeInteger := by
  unfold safeReportInteger
  split
  · simp
    omega
  · simp
    omega

theorem decimalSpendMinor_iff (env : SpendEnv) (currency : String) (value : Option CodeUnits)
    (n : ℕ) : decimalSpendMinor env value currency = .ok n ↔
      ∃ d : Decimal, value = some d.text ∧ d.text.length ≤ 100 ∧
        n = ⌈d.value * 10 ^ exponentOf env currency⌉₊ ∧ n ≤ maxSafeInteger := by
  constructor
  · intro h
    cases value with
    | none => cases h
    | some value =>
      by_cases hdecimal : isDecimal value = true
      · obtain ⟨d, rfl⟩ := isDecimal_iff.mp hdecimal
        rw [decimalSpendMinor_text] at h
        split at h
        · cases h
        · exact ⟨d, rfl, by omega, safeReportInteger_ok.mp h⟩
      · simp [decimalSpendMinor, hdecimal] at h
  · rintro ⟨d, rfl, hlen, hn⟩
    rw [decimalSpendMinor_text, if_neg (by omega)]
    exact safeReportInteger_ok.mpr hn

theorem value_le_of_ok {env : SpendEnv} {currency : String} {d : Decimal} {n : ℕ}
    (h : decimalSpendMinor env (some d.text) currency = .ok n) :
    d.value * 10 ^ exponentOf env currency ≤ n := by
  rw [decimalSpendMinor_text] at h
  split at h
  · cases h
  · rw [(safeReportInteger_ok.mp h).1]
    exact Nat.le_ceil _

/-- A report is accepted if it is a decimal number of at most 100 units whose minor units, rounded
    up, are a safe integer, and gives these; any other value is refused. So the spend is not
    understated, and what is left of a ceiling is not overstated. -/
theorem decimalSpendMinor_exact (env : SpendEnv) (currency : String) :
    (∀ (value : Option CodeUnits) (n : ℕ), decimalSpendMinor env value currency = .ok n ↔
      ∃ d : Decimal, value = some d.text ∧ d.text.length ≤ 100 ∧
        n = ⌈d.value * 10 ^ exponentOf env currency⌉₊ ∧ n ≤ maxSafeInteger) ∧
    ∀ (d : Decimal) (n : ℕ) (ceiling : ℚ), decimalSpendMinor env (some d.text) currency = .ok n →
      d.value * 10 ^ exponentOf env currency ≤ n ∧
        ceiling - n ≤ ceiling - d.value * 10 ^ exponentOf env currency := by
  refine ⟨decimalSpendMinor_iff env currency, fun d n ceiling h => ?_⟩
  have hle := value_le_of_ok h
  exact ⟨hle, by linarith⟩

example : decimalSpendMinor ⟨id, id, fun _ => ""⟩ (some (units "12.341")) "USD" = .ok 1235 := by
  decide +kernel

end WorkflowBoard.Marketing
