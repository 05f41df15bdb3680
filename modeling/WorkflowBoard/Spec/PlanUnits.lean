import WorkflowBoard.Native.PaymentPlan

/-!
# Provider units and minor units

For each currency the units of a provider and minor units stand in a fixed ratio, and one of the
two is a whole multiple of the other. Encoder and decoder of a provider both decide this one
relation, so that each undoes the other and both keep sums.
-/

namespace WorkflowBoard.Marketing

variable {env : SpendEnv} {currency : String} {spec : CurrencySpec} {ε : Type}

/-! ## Ratios -/

/-- Encoder and decoder of amounts that stand in the ratio `p` to `q`. -/
structure IsRatio (p q : Int) (enc dec : Int → Except ε Int) : Prop where
  left : 0 < p
  right : 0 < q
  enc_iff : ∀ m u, enc m = .ok u ↔ u * p = m * q
  dec_iff : ∀ u m, dec u = .ok m ↔ u * p = m * q

variable {p q : Int} {enc dec : Int → Except ε Int}

variable {m u : Int}

section

variable (h : IsRatio p q enc dec)
include h

theorem IsRatio.dec_enc (hu : enc m = .ok u) :
    dec u = .ok m :=
  (h.dec_iff u m).mpr ((h.enc_iff m u).mp hu)

theorem IsRatio.enc_dec (hm : dec u = .ok m) :
    enc m = .ok u :=
  (h.enc_iff m u).mpr ((h.dec_iff u m).mp hm)

/-- What is added before decoding is added after it. -/
theorem IsRatio.dec_add {a m u v : Int} (hu : dec u = .ok a)
    (hv : enc m = .ok v) : dec (u + v) = .ok (a + m) := by
  rw [h.dec_iff] at hu ⊢
  rw [h.enc_iff] at hv
  rw [Int.add_mul, Int.add_mul, hu, hv]

theorem IsRatio.pos_of_enc (hm : 0 < m) (hu : enc m = .ok u) : 0 < u := by
  have heq := (h.enc_iff m u).mp hu
  have hpos : 0 < u * p := heq ▸ Int.mul_pos hm h.right
  exact Int.pos_of_mul_pos_left hpos h.left

theorem IsRatio.nonneg_of_dec (hm : 0 ≤ m) (hu : dec u = .ok m) : 0 ≤ u := by
  have heq := (h.dec_iff u m).mp hu
  have hnonneg : 0 ≤ u * p := heq ▸ Int.mul_nonneg hm (Int.le_of_lt h.right)
  exact Int.nonneg_of_mul_nonneg_left hnonneg h.left

end

/-! ## The two providers -/

theorem exact_div_iff {x y k : Int} (hk : 0 < k) {e : ε} :
    (do require (x.tmod k == 0) e; return x.tdiv k : Except ε Int) = .ok y ↔ x = y * k := by
  simp only [bind_eq_ok, require_eq_ok, pure_eq_ok, beq_iff_eq, exists_const]
  constructor
  · rintro ⟨hmod, rfl⟩
    have hdiv := Int.mul_tdiv_add_tmod x k
    rw [hmod, Int.add_zero, Int.mul_comm] at hdiv
    exact hdiv.symm
  · rintro rfl
    exact ⟨Int.mul_tmod_left y k, Int.mul_tdiv_cancel y hk.ne'⟩

theorem exact_mul_iff {x y k : Int} : (pure (x * k) : Except ε Int) = .ok y ↔ y = x * k := by
  rw [pure_eq_ok]
  exact eq_comm

/-- What the table of currencies keeps: of Meta's units and minor units one is a whole multiple of
    the other, and Google's are the finer ones. -/
theorem table_ok : ∀ entry ∈ paymentCurrencies,
    0 < entry.2.meta_offset ∧ entry.2.meta_offset ≤ 100 ∧ entry.2.exponent ≤ 6 := by
  decide

theorem currencySpec_ok (h : currencySpec env currency = .ok spec) :
    0 < spec.meta_offset ∧ spec.meta_offset ≤ 100 ∧ spec.exponent ≤ 6 := by
  simp only [currencySpec, bind_eq_ok, orThrow_eq_ok, pure_eq_ok] at h
  obtain ⟨_, hlookup, _, -, rfl⟩ := h
  obtain ⟨before, after, htable, -⟩ := List.lookup_eq_some_iff.mp hlookup
  exact table_ok (_, _) (htable ▸ List.mem_append_right before List.mem_cons_self)

theorem ok_bind {α β : Type} (a : α) (f : α → Except ε β) : (Except.ok a >>= f) = f a := rfl

theorem tdiv_pos {a b : Int} (hb : 0 < b) (hle : b ≤ a) : 0 < a.tdiv b := by
  rw [Int.tdiv_eq_ediv_of_nonneg (by omega)]
  have hone : 1 ≤ a / b := Int.le_ediv_of_mul_le hb (by omega)
  omega

/-- The units of a provider and the minor units of a supported currency stand in a fixed ratio. -/
theorem isRatio_units (h : currencySpec env currency = .ok spec) (provider : CeilingProvider) :
    ∃ p q, IsRatio p q ((provider.units env).toUnits · currency)
      ((provider.units env).toMinor · currency) := by
  obtain ⟨hoffset, hsmall, hexp⟩ := currencySpec_ok h
  cases provider with
  | metaAds =>
    have hunit : (0 : Int) < 10 ^ spec.exponent := by positivity
    have hoffset' : (0 : Int) < spec.meta_offset := Int.natCast_pos.mpr hoffset
    by_cases hcoarse : (10 : Int) ^ spec.exponent ≤ spec.meta_offset
    · have hpos := tdiv_pos hunit hcoarse
      refine ⟨1, _, Int.one_pos, hpos, fun m u => ?_, fun u m => ?_⟩
      · unfold CeilingProvider.units minorToMetaUnits
        simp only [h, ok_bind, if_pos hcoarse, Int.mul_one]
        exact exact_mul_iff
      · unfold CeilingProvider.units metaUnitsToMinor
        simp only [h, ok_bind, if_pos hcoarse, Int.mul_one]
        exact exact_div_iff hpos
    · have hpos := tdiv_pos hoffset' (Int.le_of_lt (Int.not_le.mp hcoarse))
      refine ⟨_, 1, hpos, Int.one_pos, fun m u => ?_, fun u m => ?_⟩
      · unfold CeilingProvider.units minorToMetaUnits
        simp only [h, ok_bind, if_neg hcoarse, Int.mul_one, eq_comm (a := u * _)]
        exact exact_div_iff hpos
      · unfold CeilingProvider.units metaUnitsToMinor
        simp only [h, ok_bind, if_neg hcoarse, Int.mul_one, eq_comm (a := u * _)]
        exact exact_mul_iff
  | googleAds =>
    have hpos : (0 : Int) < 10 ^ (6 - spec.exponent) := by positivity
    refine ⟨1, 10 ^ (6 - spec.exponent), Int.one_pos, hpos, fun m u => ?_, fun u m => ?_⟩
    · unfold CeilingProvider.units minorToGoogleMicros
      dsimp only
      rw [h, Int.mul_one]
      exact exact_mul_iff
    · unfold CeilingProvider.units googleMicrosToMinor
      dsimp only
      rw [h, Int.mul_one]
      exact exact_div_iff hpos

end WorkflowBoard.Marketing
