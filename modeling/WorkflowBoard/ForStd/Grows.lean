import WorkflowBoard.ForStd.List

/-!
# Tables whose rows stay and change in one way only

`Grows R l l'`: each row of `l` is still at its place in `l'`, related by `R`, and there may be more
rows behind them. With `R` reflexive and transitive, `Grows R` is so as well; each write of a
table has a lemma.
-/

namespace WorkflowBoard

universe u

variable {ρ : Type u} {R : ρ → ρ → Prop} {l l' l'' : List ρ}

/-- The rows of `l` are at their places in `l'`, related by `R`. -/
def Grows (R : ρ → ρ → Prop) (l l' : List ρ) : Prop :=
  ∀ (i : Nat) (r : ρ), l[i]? = some r → ∃ r', l'[i]? = some r' ∧ R r r'

namespace Grows

theorem refl (hR : ∀ r, R r r) (l : List ρ) : Grows R l l := fun _ r hr => ⟨r, hr, hR r⟩

theorem trans (hR : ∀ a b c, R a b → R b c → R a c) (h : Grows R l l') (h' : Grows R l' l'') :
    Grows R l l'' := by
  intro i r hr
  obtain ⟨r', hr', hrr'⟩ := h i r hr
  obtain ⟨r'', hr'', hrr''⟩ := h' i r' hr'
  exact ⟨r'', hr'', hR r r' r'' hrr' hrr''⟩

theorem append (hR : ∀ r, R r r) (l new : List ρ) : Grows R l (l ++ new) := fun _ r hr =>
  ⟨r, (List.getElem?_append_left (lt_of_getElem? hr)).trans hr, hR r⟩

theorem modify (hR : ∀ r, R r r) {i : Nat} {f : ρ → ρ} (hf : ∀ r, l[i]? = some r → R r (f r)) :
    Grows R l (l.modify i f) := by
  intro j r hr
  by_cases hij : i = j
  · subst hij
    exact ⟨f r, getElem?_modify_self hr, hf r hr⟩
  · exact ⟨r, (getElem?_modify_other hij).trans hr, hR r⟩

theorem map {f : ρ → ρ} (hf : ∀ r, R r (f r)) : Grows R l (l.map f) := fun i r hr =>
  ⟨f r, by rw [List.getElem?_map, hr, Option.map_some], hf r⟩

/-- Where no row is new, each row of the later table has one in the earlier that it comes from. -/
theorem back {κ : Type*} {key : ρ → κ} (h : Grows R l l') (hkeys : l'.map key = l.map key)
    {i : Nat} {r' : ρ} (hr' : l'[i]? = some r') :
    ∃ r, l[i]? = some r ∧ R r r' ∧ key r' = key r := by
  have hkey : (l.map key)[i]? = some (key r') := by
    rw [← hkeys, List.getElem?_map, hr', Option.map_some]
  rw [List.getElem?_map] at hkey
  obtain ⟨r, hr, hrr'⟩ := Option.map_eq_some_iff.mp hkey
  obtain ⟨r'', hr'', hrel⟩ := h i r hr
  obtain rfl : r' = r'' := Option.some.inj (hr'.symm.trans hr'')
  exact ⟨r, hr, hrel, hrr'.symm⟩

end Grows

end WorkflowBoard

/-!
# Rows with a revision

Rows have a revision `rev` and something `view` that is read of them. `Snapshot rev view c p`: the
row `p` may be what became of `c`, as the revision never falls and each change of the view raises
it. The relation is a preorder. It says both how a row changes and what a copy that was taken
earlier still tells of the row: a writer that compares revisions before it writes knows the view.
-/

namespace WorkflowBoard

universe u v

variable {ρ : Type u} {β : Type v}

/-- `p` is at least at the revision of `c`, and at the same revision looks the same. -/
structure Snapshot (rev : ρ → Nat) (view : ρ → β) (c p : ρ) : Prop where
  le : rev c ≤ rev p
  same : rev c = rev p → view c = view p

namespace Snapshot

variable {rev : ρ → Nat} {view : ρ → β} {a b c : ρ} {rows rows' : List ρ} {i : Nat}

theorem refl (a : ρ) : Snapshot rev view a a := ⟨Nat.le_refl _, fun _ => rfl⟩

theorem trans (h : Snapshot rev view a b) (h' : Snapshot rev view b c) : Snapshot rev view a c where
  le := Nat.le_trans h.le h'.le
  same heq := by
    have hab : rev a = rev b := Nat.le_antisymm h.le (heq ▸ h'.le)
    rw [h.same hab, h'.same (hab.symm.trans heq)]

theorem of_lt (h : rev a < rev b) : Snapshot rev view a b :=
  ⟨Nat.le_of_lt h, fun heq => absurd heq (Nat.ne_of_lt h)⟩

/-- A copy of the row at `i` that was taken earlier. -/
def Of (rev : ρ → Nat) (view : ρ → β) (rows : List ρ) (i : Nat) (c : ρ) : Prop :=
  ∃ p, rows[i]? = some p ∧ Snapshot rev view c p

theorem Of.grows (h : Of rev view rows i c) (hrows : Grows (Snapshot rev view) rows rows') :
    Of rev view rows' i c := by
  obtain ⟨p, hp, hc⟩ := h
  obtain ⟨p', hp', hpp'⟩ := hrows i p hp
  exact ⟨p', hp', hc.trans hpp'⟩

/-- The row at the revision of the copy looks like it. -/
theorem Of.view_eq (h : Of rev view rows i c) (ha : rows[i]? = some a) (heq : rev a = rev c) :
    view a = view c := by
  obtain ⟨p, hp, hc⟩ := h
  cases hp.symm.trans ha
  exact (hc.same heq.symm).symm

/-- A row is replaced by one that may have become of it. -/
theorem grows_set (ha : rows[i]? = some a) (hab : Snapshot rev view a b) :
    Grows (Snapshot rev view) rows (rows.set i b) := by
  intro j r hr
  by_cases hij : i = j
  · subst hij
    cases ha.symm.trans hr
    exact ⟨b, getElem?_set_self ha, hab⟩
  · exact ⟨r, by rw [List.getElem?_set_ne hij, hr], .refl r⟩

end Snapshot

end WorkflowBoard
