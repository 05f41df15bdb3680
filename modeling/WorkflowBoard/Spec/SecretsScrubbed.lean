import WorkflowBoard.Native.ProviderText

/-!
# Secrets in the texts of providers

A secret that is apart from `[redacted]` and has no white space in it cannot come into being when
parts of a text are replaced, folded or cut (`infix_of_infix_clean`), so that it is enough that the
replacement has removed it once (`providerMessage_hides`).
-/

namespace WorkflowBoard.Marketing.ProviderText

open CodeUnits

variable {secret text : CodeUnits} {secrets : List (Option CodeUnits)} {max : Int}

/-- Folding and cutting a text does not make a secret without blanks. -/
theorem infix_of_infix_clean (hne : secret ≠ []) (hspace : ∀ u ∈ secret, isSpace u = false)
    (h : secret <:+: cleanProviderText (some text) max) : secret <:+: text := by
  have hblank : (0x20 : UInt16) ∉ secret := by
    intro hmem
    have hno := hspace 0x20 hmem
    revert hno
    decide
  have htrim := (h.trans (infix_of_sliceTo _ max)).trans (infix_of_trim _)
  have hfolded := infix_of_infix_replace (apart_singleton hne hblank) htrim
  apply infix_of_infix_map _ hfolded
  -- what was hidden is a blank now, and there is none in the secret
  intro u hu
  split at hu
  · exact absurd hu hblank
  · rename_i hshown
    rw [if_neg hshown]

/-- The loop over the secrets does not make one that is apart from the replacement. -/
theorem infix_of_infix_scrub (hapart : Apart secret redacted)
    (h : secret <:+: scrubSecrets text secrets) : secret <:+: text := by
  induction secrets generalizing text with
  | nil => exact h
  | cons first secrets ih =>
    have hrest := ih h
    dsimp only at hrest
    split at hrest
    · split at hrest
      · exact infix_of_infix_replace hapart hrest
      · exact hrest
    · exact hrest

theorem not_infix_scrub (hmem : some secret ∈ secrets) (hlen : 6 ≤ secret.length)
    (hapart : Apart secret redacted) : ¬ secret <:+: scrubSecrets text secrets := by
  induction secrets generalizing text with
  | nil => cases hmem
  | cons first secrets ih =>
    intro h
    obtain heq | hmem := List.mem_cons.mp hmem
    · -- its own turn removes it, and no later one makes it again
      subst heq
      have hturn : secret <:+: replaceMatches (occurs secret) redacted text := by
        have hrest : secret <:+: if 6 ≤ secret.length then
            replaceMatches (occurs secret) redacted text else text :=
          infix_of_infix_scrub hapart h
        rwa [if_pos hlen] at hrest
      exact not_infix_replace hapart hturn
    · exact ih hmem h

/-- The message shows no secret of at least six units that has no white space in it and is apart
    from `[redacted]`, wherever it stands in the list and whatever else is in there. -/
theorem providerMessage_hides (value : Option CodeUnits) (secrets : List (Option CodeUnits))
    (max : Int) (secret : CodeUnits) (hmem : some secret ∈ secrets) (hlen : 6 ≤ secret.length)
    (hspace : ∀ u ∈ secret, isSpace u = false) (hapart : Apart secret redacted) :
    ¬ secret <:+: providerMessage value secrets max := by
  intro h
  cases value with
  | none =>
    have hnil : secret = [] := List.infix_nil.mp h
    exact hapart.ne_nil hnil
  | some value =>
    have hkeys := infix_of_infix_clean hapart.ne_nil hspace h
    exact not_infix_scrub hmem hlen hapart (infix_of_infix_replace hapart hkeys)

/-- Two secrets that overlap in the text: the remains of one are not the other. -/
theorem providerMessage_hides_overlap :
    ¬ units "abcdefg" <:+: providerMessage (some (units "key\nabcdefghij"))
      [some (units "defghij"), none, some (units "abcdefg")] 300 := by
  have hspace : ((units "abcdefg").all fun u => !isSpace u) = true := by decide
  exact providerMessage_hides _ _ 300 (units "abcdefg") (by decide) (by decide)
    (by simpa using hspace) (by decide)

example : providerMessage (some (units "key\nabcdefghij, sk_live_**34"))
    [some (units "defghij"), none, some (units "abcdefg")] =
      units "key abc[redacted], [redacted]" := by decide +kernel

end WorkflowBoard.Marketing.ProviderText
