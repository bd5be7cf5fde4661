import Mutagen.Proofs.Config.Validation

/-!
# Modifiers that can be used

The checks compare the bounds of complexity that a configuration gives to a modifier with each
other. A bound that is given alone meets the usual value of the other one only in the modifier, and
the two may be in the wrong order there, so that no complexity lies between them. All else that the
checks pass can be used: likelihoods are probabilities, and there is at least one attempt.
-/
namespace Mutagen

/-! ## Bounds -/

theorem Strategy.minComplexity_le_maxComplexity (s : Strategy) :
    s.minComplexity ≤ s.maxComplexity := by
  cases s <;> decide

theorem Strategy.isProbability_likelihood (s : Strategy) : isProbability s.likelihood = true := by
  cases s <;> decide +kernel

namespace Override

/-- Whether a bound is given alone and goes beyond the usual value of the other one. -/
def Crosses (o : Override) (s : Strategy) : Prop :=
  (o.maxComplexity = Option.none ∧ ∃ low ∈ o.minComplexity, s.maxComplexity < low.toNat) ∨
    (o.minComplexity = Option.none ∧ ∃ high ∈ o.maxComplexity, high.toNat < s.minComplexity)

instance (o : Override) (s : Strategy) : Decidable (o.Crosses s) :=
  inferInstanceAs (Decidable (_ ∨ _))

/-- Bounds that are in order where both are given are in order with the usual ones, unless one of
them crosses the usual value of the other. -/
theorem bounds_le_iff {o : Override} {s : Strategy}
    (hbounds : ∀ low ∈ o.minComplexity, ∀ high ∈ o.maxComplexity, low ≤ high) :
    (o.minComplexity.map UInt32.toNat).getD s.minComplexity ≤
      (o.maxComplexity.map UInt32.toNat).getD s.maxComplexity ↔ ¬o.Crosses s := by
  unfold Crosses
  cases hlow : o.minComplexity with
  | none => cases o.maxComplexity <;> simp [s.minComplexity_le_maxComplexity]
  | some low =>
    cases hhigh : o.maxComplexity with
    | none => simp
    | some high =>
      have hle : low.toNat ≤ high.toNat := hbounds low hlow high hhigh
      simp [hle]

end Override

/-! ## Modifiers -/

namespace Config

variable {c : Config}

/-- A configuration gives a bound alone that goes beyond the usual value of the other one. -/
def CrossesUsual (c : Config) (s : Strategy) : Prop :=
  ∃ o, c.mutation.modifiers.get? s.name = some o ∧ o.Crosses s

theorem crosses_getD_iff {s : Strategy} :
    ((c.mutation.modifiers.get? s.name).getD .none).Crosses s ↔ c.CrossesUsual s := by
  unfold CrossesUsual
  cases c.mutation.modifiers.get? s.name with
  | none => simp [Override.Crosses, Override.none]
  | some o => simp

instance (c : Config) (s : Strategy) : Decidable (c.CrossesUsual s) :=
  decidable_of_iff _ crosses_getD_iff

variable (hvalid : c.Valid) (l : Language) (salt : Bytes) (s : Strategy)
include hvalid

theorem Valid.bounds_modifier :
    (c.modifier l salt s).minComplexity ≤ (c.modifier l salt s).maxComplexity ↔
      ¬c.CrossesUsual s := by
  rw [← crosses_getD_iff]
  exact Override.bounds_le_iff (hvalid.override s).bounds

theorem Valid.isProbability_modifier : isProbability (c.modifier l salt s).likelihood = true := by
  have hlikelihood : ∀ x ∈ ((c.mutation.modifiers.get? s.name).getD .none).likelihood.or
      c.mutation.likelihood, isProbability x = true := by
    intro x hx
    rcases Option.or_eq_some_iff.1 hx with hown | ⟨-, hcommon⟩
    · exact (hvalid.override s).likelihood x hown
    · exact hvalid.likelihood x hcommon
  change isProbability (Option.getD (Option.or _ _) s.likelihood) = true
  cases hx : ((c.mutation.modifiers.get? s.name).getD .none).likelihood.or
      c.mutation.likelihood with
  | none => exact s.isProbability_likelihood
  | some x => exact hlikelihood x hx

omit hvalid in
theorem one_le_attempts_modifier : 1 ≤ (c.modifier l salt s).attempts := Nat.le_max_right _ _

end Config

theorem Registry.modifiersFor_eq (r : Registry) (ext : String) :
    r.modifiersFor ext = (r.languageFor ext).map fun l => r.modifiers l [] := by
  rw [modifiersFor]
  cases r.languageFor ext <;> rfl

namespace Config

/-- A configuration that passes the checks becomes a registry, which gives a modifier for each
strategy that is enabled for the language of an extension. Every one of them has an attempt or more
and a probability for its likelihood. Its bounds are in order if and only if the configuration does
not give one of them alone and beyond the usual value of the other. -/
theorem modifiersFor_usable {c : Config} (hvalid : c.validate = .ok ()) :
    ∃ r, c.registry = .ok r ∧ ∀ ext,
      (r.modifiersFor ext).map (·.map Modifier.strategy) =
          (r.languageFor ext).map r.strategiesFor ∧
        ∀ ms, r.modifiersFor ext = .ok ms → ∀ m ∈ ms,
          (m.minComplexity ≤ m.maxComplexity ↔ ¬c.CrossesUsual m.strategy) ∧
            1 ≤ m.attempts ∧ isProbability m.likelihood = true := by
  have hchecked := validate_eq_ok_iff.1 hvalid
  obtain ⟨r, hr, hreflects⟩ := registry_of_valid hchecked
  refine ⟨r, hr, fun ext => ?_⟩
  rw [Registry.modifiersFor_eq]
  cases r.languageFor ext with
  | error err => exact ⟨rfl, fun _ hms => nomatch hms⟩
  | ok l =>
    have hmodifiers := hreflects.modifiers l []
    refine ⟨?_, ?_⟩
    · change Except.ok ((r.modifiers l []).map Modifier.strategy) = Except.ok (r.strategiesFor l)
      rw [hmodifiers, List.map_map]
      exact congrArg Except.ok (List.map_id _)
    · intro ms hms m hm
      obtain rfl : r.modifiers l [] = ms := Except.ok.inj hms
      rw [hmodifiers] at hm
      obtain ⟨s, -, rfl⟩ := List.mem_map.1 hm
      exact ⟨hchecked.bounds_modifier l [] s, one_le_attempts_modifier l [] s,
        hchecked.isProbability_modifier l [] s⟩

/-- A configuration with some overrides. -/
def overriding (overrides : List (String × Override)) : Config :=
  { initial with mutation := { MutationConfig.initial with modifiers := .ofList overrides } }

/-- Shuffles in longer functions than usual, and exchanged branches in short ones only. -/
def shifted : Config := overriding [
  ("func_pm_ctrl_shuffle",
    { Override.none with minComplexity := some 11, maxComplexity := some 20 }),
  ("func_pm_ctrl_invert_if", { Override.none with maxComplexity := some 5 })]

theorem modifiersFor_usable_shifted :
    shifted.validate = .ok () ∧ ∃ r ms, shifted.registry = .ok r ∧
      r.modifiersFor "py" = .ok ms ∧ ms.length = 14 ∧
      ∀ m ∈ ms, m.minComplexity ≤ m.maxComplexity ∧ 1 ≤ m.attempts ∧
        isProbability m.likelihood = true := by
  have hvalid : shifted.validate = .ok () := Loader.eq_ok_of_isOk (by decide +kernel)
  have hcrosses : ∀ s, ¬shifted.CrossesUsual s := by
    have hall : ∀ s ∈ Strategy.all, ¬shifted.CrossesUsual s := by decide +kernel
    exact fun s => hall s s.mem_all
  have hlength : (shifted.registry.toOption.any fun r =>
      (r.modifiersFor "py").toOption.any fun ms => ms.length == 14) = true := by
    decide +kernel
  obtain ⟨r, hr, husable⟩ := modifiersFor_usable hvalid
  obtain ⟨r', hr', hlength⟩ := exists_ok_of_any hlength
  obtain rfl : r = r' := Except.ok.inj (hr.symm.trans hr')
  obtain ⟨ms, hms, hlength⟩ := exists_ok_of_any hlength
  refine ⟨hvalid, r, ms, hr, hms, beq_iff_eq.1 hlength, fun m hm => ?_⟩
  obtain ⟨hbounds, hrest⟩ := (husable "py").2 ms hms m hm
  exact ⟨hbounds.2 (hcrosses m.strategy), hrest⟩

/-- The checks pass a shuffle for functions of complexity 11 and more, which has no use above 10. -/
theorem crossed_bounds_checked :
    let c := overriding [("func_pm_ctrl_shuffle",
      { Override.none with minComplexity := some 11 })]
    c.validate = .ok () ∧ ∃ r ms, c.registry = .ok r ∧ r.modifiersFor "py" = .ok ms ∧
      ∃ m ∈ ms, m.maxComplexity < m.minComplexity := by
  intro c
  have hvalid : c.validate = .ok () := Loader.eq_ok_of_isOk (by decide +kernel)
  have hcrossed : (c.registry.toOption.any fun r => (r.modifiersFor "py").toOption.any fun ms =>
      ms.any fun m => decide (m.maxComplexity < m.minComplexity)) = true := by
    decide +kernel
  obtain ⟨r, hr, hcrossed⟩ := exists_ok_of_any hcrossed
  obtain ⟨ms, hms, hcrossed⟩ := exists_ok_of_any hcrossed
  obtain ⟨m, hm, hlt⟩ := List.any_eq_true.1 hcrossed
  exact ⟨hvalid, r, ms, hr, hms, m, hm, of_decide_eq_true hlt⟩

end Config
end Mutagen
