import Mutagen.Command.Run
import Mutagen.Proofs.Config.Saved
import Mutagen.Proofs.Mutation.Independence

/-!
# Checked configurations and their registries

A configuration is checked before a registry is made of it, and the registry checks what it is
given once more. The second check refuses nothing that the first one passes, and nothing is
changed on the way: the registry has the seed, the likelihoods and the overrides of the
configuration, and it turns off the languages and the modifiers that the configuration turns off.
-/
namespace Mutagen

/-! ## Names of languages -/

namespace Language

/-- Whether a text names a language, in any case of its letters. -/
def IsNamed (l : Language) (name : String) : Prop := name.toList.map Char.toLower = l.name.toList

instance (l : Language) (name : String) : Decidable (l.IsNamed name) :=
  inferInstanceAs (Decidable (name.toList.map Char.toLower = l.name.toList))

theorem sameAscii_name_iff {l : Language} {name : String} :
    sameAscii l.name name = true ↔ l.IsNamed name := by
  have hlower : l.name.toList.map Char.toLower = l.name.toList := by cases l <;> decide
  rw [sameAscii, hlower, beq_iff_eq, IsNamed, eq_comm]

/-- A text names at most one language. -/
theorem ofName?_eq_some_iff {l : Language} {name : String} :
    ofName? name = some l ↔ l.IsNamed name := by
  constructor
  · intro h
    have hsame := List.find?_some (p := fun k : Language => sameAscii k.name name) h
    exact sameAscii_name_iff.1 hsame
  · intro h
    have hsame : ∀ k : Language, sameAscii k.name name = sameAscii k.name l.name := by
      intro k
      have hlower : l.name.toList.map Char.toLower = l.name.toList := by cases l <;> decide
      rw [sameAscii, sameAscii, hlower, h]
    rw [ofName?, funext hsame]
    cases l <;> decide

end Language

namespace Config

/-! ## What passes the checks -/

theorem checkLikelihood_eq_ok_iff {key : String} {likelihood : Option Float} :
    checkLikelihood key likelihood = .ok () ↔ ∀ x ∈ likelihood, isProbability x = true := by
  cases likelihood with
  | none => simp [checkLikelihood]
  | some x => cases h : isProbability x <;> simp [checkLikelihood, h]

theorem checkBounds_eq_ok_iff {key : String} {low high : Option UInt32} :
    checkBounds key low high = .ok () ↔ ∀ x ∈ low, ∀ y ∈ high, x ≤ y := by
  cases low with
  | none => simp [checkBounds]
  | some x =>
    cases high with
    | none => simp [checkBounds]
    | some y => by_cases h : y < x <;> simp [checkBounds, h, UInt32.not_lt.1, UInt32.not_le.2]

theorem languageOf_eq_ok_iff {key name : String} {l : Language} :
    languageOf key name = .ok l ↔ l.IsNamed name := by
  rw [← Language.ofName?_eq_some_iff, languageOf]
  cases Language.ofName? name with
  | none => simp
  | some k => simp

/-- An override that passes the checks: it is for a known modifier, its likelihood is one, and its
bounds are in order. -/
structure ValidOverride (name : String) (o : Override) : Prop where
  known : (Strategy.ofName? name).isSome = true
  likelihood : ∀ x ∈ o.likelihood, isProbability x = true
  bounds : ∀ low ∈ o.minComplexity, ∀ high ∈ o.maxComplexity, low ≤ high

theorem checkModifier_eq_ok_iff {name : String} {o : Override} :
    checkModifier name o = .ok () ↔ ValidOverride name o := by
  have hchecks : checkModifier name o = .ok () ↔ (Strategy.ofName? name).isSome = true ∧
      checkLikelihood (modifierKey name ++ ".likelihood") o.likelihood = .ok () ∧
      checkBounds (modifierKey name) o.minComplexity o.maxComplexity = .ok () := by
    unfold checkModifier
    cases Strategy.ofName? name with
    | none => simp [bind, Except.bind]
    | some s => exact bind_eq_ok_iff.trans ⟨fun ⟨_, hx, hb⟩ => ⟨rfl, hx, hb⟩,
        fun ⟨_, hx, hb⟩ => ⟨(), hx, hb⟩⟩
  rw [hchecks, checkLikelihood_eq_ok_iff, checkBounds_eq_ok_iff]
  exact ⟨fun ⟨hknown, hx, hb⟩ => ⟨hknown, hx, hb⟩, fun h => ⟨h.known, h.likelihood, h.bounds⟩⟩

theorem forM_eq_ok_iff {α : Type} {f : α → Except ConfigError PUnit} {l : List α} :
    l.forM f = .ok () ↔ ∀ a ∈ l, f a = .ok () := by
  induction l with
  | nil => simp [List.forM, pure, Except.pure]
  | cons a l ih =>
    rw [List.forall_mem_cons, ← ih]
    exact bind_eq_ok_iff.trans ⟨fun ⟨_, ha, hl⟩ => ⟨ha, hl⟩, fun ⟨ha, hl⟩ => ⟨(), ha, hl⟩⟩

/-- A configuration that passes the checks. -/
structure Valid (c : Config) : Prop where
  likelihood : ∀ x ∈ c.mutation.likelihood, isProbability x = true
  modifiers : ∀ e ∈ c.mutation.modifiers.entries, ValidOverride e.1 e.2
  disabled : ∀ name ∈ c.languages.disabled, ∃ l : Language, l.IsNamed name
  extensions : ∀ e ∈ c.languages.extensions.entries, ∃ l : Language, l.IsNamed e.2

/-- The override of a strategy passes the checks, as does the empty one that stands for none. -/
theorem Valid.override {c : Config} (h : c.Valid) (s : Strategy) :
    ValidOverride s.name ((c.mutation.modifiers.get? s.name).getD .none) := by
  cases ho : c.mutation.modifiers.get? s.name with
  | none =>
    exact ⟨by simp [Strategy.ofName?_name], (fun _ hx => nomatch hx), (fun _ hx => nomatch hx)⟩
  | some o =>
    obtain ⟨before, after, hentries, -⟩ := List.lookup_eq_some_iff.1 ho
    exact h.modifiers (s.name, o) (by simp [hentries])

theorem exists_disabledLanguages_iff {c : Config} :
    (∃ ls, c.disabledLanguages = .ok ls) ↔
      ∀ name ∈ c.languages.disabled, ∃ l : Language, l.IsNamed name := by
  simp only [disabledLanguages, exists_mapM_eq_ok_iff, languageOf_eq_ok_iff]

theorem exists_extensionLanguages_iff {c : Config} :
    (∃ ls, c.extensionLanguages = .ok ls) ↔
      ∀ e ∈ c.languages.extensions.entries, ∃ l : Language, l.IsNamed e.2 := by
  have hread : ∀ e : String × String,
      (∃ b, (do pure (e.1, ← languageOf (extensionKey e.1) e.2) :
        Except ConfigError (String × Language)) = .ok b) ↔ ∃ l : Language, l.IsNamed e.2 := by
    intro e
    simp only [bind_eq_ok_iff, languageOf_eq_ok_iff]
    exact ⟨fun ⟨_, l, hl, _⟩ => ⟨l, hl⟩, fun ⟨l, hl⟩ => ⟨_, l, hl, rfl⟩⟩
  rw [extensionLanguages, exists_mapM_eq_ok_iff]
  exact forall₂_congr fun e _ => hread e

theorem validate_eq_ok_iff {c : Config} : c.validate = .ok () ↔ c.Valid := by
  have hchecks : c.validate = .ok () ↔
      checkLikelihood "mutation.likelihood" c.mutation.likelihood = .ok () ∧
      (c.mutation.modifiers.entries.forM fun e => checkModifier e.1 e.2) = .ok () ∧
      (∃ ls, c.disabledLanguages = .ok ls) ∧ ∃ ls, c.extensionLanguages = .ok ls := by
    unfold validate
    simp only [bind_eq_ok_iff]
    constructor
    · rintro ⟨_, hx, _, hm, ls, hls, es, hes, -⟩
      exact ⟨hx, hm, ⟨ls, hls⟩, es, hes⟩
    · rintro ⟨hx, hm, ⟨ls, hls⟩, es, hes⟩
      exact ⟨(), hx, (), hm, ls, hls, es, hes, rfl⟩
  rw [hchecks, checkLikelihood_eq_ok_iff, forM_eq_ok_iff, exists_disabledLanguages_iff,
    exists_extensionLanguages_iff]
  simp only [checkModifier_eq_ok_iff]
  exact ⟨fun ⟨hx, hm, hd, he⟩ => ⟨hx, hm, hd, he⟩,
    fun h => ⟨h.likelihood, h.modifiers, h.disabled, h.extensions⟩⟩

end Config

/-! ## Settings on their way to a modifier -/

/-- A probability is left as it is. -/
theorem clampLikelihood_eq_self {x : Float} (h : isProbability x = true) :
    clampLikelihood x = x :=
  if_pos h

theorem map_clampLikelihood_eq_self {x : Option Float} (h : ∀ p ∈ x, isProbability p = true) :
    x.map clampLikelihood = x := by
  cases x with
  | none => rfl
  | some p => exact congrArg some (clampLikelihood_eq_self (h p rfl))

theorem Strategy.clampLikelihood_likelihood (s : Strategy) :
    clampLikelihood s.likelihood = s.likelihood := by
  cases s <;> decide +kernel

theorem Override.apply_eq (o : Override) (m : Modifier) :
    o.apply m =
      { m with
        likelihood := (o.likelihood.map clampLikelihood).getD m.likelihood
        minComplexity := (o.minComplexity.map UInt32.toNat).getD m.minComplexity
        maxComplexity := (o.maxComplexity.map UInt32.toNat).getD m.maxComplexity
        attempts := (o.attempts.map fun n => max n.toNat 1).getD m.attempts } := by
  unfold apply
  cases o.likelihood <;> cases o.attempts <;> rfl

theorem Registry.configure_eq (r : Registry) (m : Modifier) :
    r.configure m = ((r.overrideOf? m.strategy).getD .none).apply
      { m with likelihood := (r.config.likelihood.map clampLikelihood).getD m.likelihood } := by
  unfold configure
  cases r.config.likelihood with
  | none => cases h : r.overrideOf? m.strategy <;> simp only [h] <;> rfl
  | some x =>
    have hstrategy : (m.setLikelihood x).strategy = m.strategy := rfl
    simp only [hstrategy]
    cases r.overrideOf? m.strategy <;> rfl

/-! ## The registry of a configuration -/

namespace Config

/-- Whether a configuration turns a modifier off. -/
def disables (c : Config) (s : Strategy) : Bool :=
  (c.mutation.modifiers.get? s.name).bind (·.enabled) == some false

/-- The modifier that a configuration asks for: with its override, else with the common likelihood,
else with the usual settings. -/
def modifier (c : Config) (l : Language) (salt : Bytes) (s : Strategy) : Modifier :=
  let o := (c.mutation.modifiers.get? s.name).getD .none
  { strategy := s
    language := l
    likelihood := (o.likelihood.or c.mutation.likelihood).getD s.likelihood
    minComplexity := (o.minComplexity.map UInt32.toNat).getD s.minComplexity
    maxComplexity := (o.maxComplexity.map UInt32.toNat).getD s.maxComplexity
    attempts := max ((o.attempts.map UInt32.toNat).getD s.attempts) 1
    generator := .ofSeed (Seed.derive c.mutation.seed [salt, Text.bytes s.name.toList]) }

end Config

namespace Registry

/-- A registry with the settings of a configuration. -/
structure Reflects (r : Registry) (c : Config) : Prop where
  seed : r.config.seed = c.mutation.seed
  likelihood : r.config.likelihood = c.mutation.likelihood
  overrides : r.config.overrides = c.mutation.modifiers
  disabled : ∀ l, l ∈ r.config.disabled ↔ ∃ name ∈ c.languages.disabled, l.IsNamed name
  strategies : ∀ l, r.strategiesFor l = (Strategy.forLanguage l).filter fun s => !c.disables s
  modifiers : ∀ l salt, r.modifiers l salt = (r.strategiesFor l).map (c.modifier l salt)

theorem isEnabled_eq {r : Registry} {c : Config} (h : r.config.overrides = c.mutation.modifiers)
    (s : Strategy) : r.isEnabled s = !c.disables s := by
  rw [isEnabled, overrideOf?, h, Config.disables]
  cases (c.mutation.modifiers.get? s.name).bind (·.enabled) with
  | none => rfl
  | some b => cases b <;> rfl

/-- With likelihoods that are probabilities no setting is changed. -/
theorem modifier_eq {r : Registry} {c : Config} (hseed : r.config.seed = c.mutation.seed)
    (hlikelihood : r.config.likelihood = c.mutation.likelihood)
    (hoverrides : r.config.overrides = c.mutation.modifiers) (hvalid : c.Valid) (l : Language)
    (salt : Bytes) (s : Strategy) : r.modifier l salt s = c.modifier l salt s := by
  have hprobable := (hvalid.override s).likelihood
  have hoverride : r.overrideOf? s = c.mutation.modifiers.get? s.name := by
    rw [overrideOf?, hoverrides]
  have hstrategy : ∀ seed, (Modifier.ofStrategy s l seed).strategy = s := fun _ => rfl
  rw [modifier, configure_eq, Override.apply_eq, Config.modifier, hstrategy, hoverride, hseed,
    hlikelihood, map_clampLikelihood_eq_self hvalid.likelihood]
  generalize (c.mutation.modifiers.get? s.name).getD .none = o at hprobable
  simp only [map_clampLikelihood_eq_self hprobable, Modifier.ofStrategy,
    s.clampLikelihood_likelihood]
  cases o.likelihood <;> cases o.attempts <;> rfl

end Registry

namespace Config

/-- The registry takes over what a configuration that passes the checks gives to it. -/
theorem registryConfig_of_valid {c : Config} (h : c.Valid) :
    ∃ config r, c.registryConfig = .ok config ∧ Registry.ofConfig config = .ok r ∧
      r.Reflects c := by
  obtain ⟨disabled, hdisabled⟩ := exists_disabledLanguages_iff.2 h.disabled
  obtain ⟨extensions, hextensions⟩ := exists_extensionLanguages_iff.2 h.extensions
  have hconfig : c.registryConfig = .ok {
      seed := c.mutation.seed
      likelihood := c.mutation.likelihood
      overrides := c.mutation.modifiers
      extensions := .ofList (extensions.map fun e => (normalizeExtension e.1, e.2))
      disabled
      maxFileSize := some c.maxFileSize } := by
    rw [registryConfig, validate_eq_ok_iff.2 h, hextensions, hdisabled]
    rfl
  have hknown : ∀ name ∈ c.mutation.modifiers.keys, (Strategy.ofName? name).isSome = true := by
    intro name hname
    obtain ⟨e, he, rfl⟩ := List.mem_map.1 hname
    exact (h.modifiers e he).known
  refine ⟨_, ⟨_, hknown⟩, hconfig, Registry.ofConfig_config ⟨_, hknown⟩, ?_⟩
  refine ⟨rfl, rfl, rfl, ?_, ?_, ?_⟩
  · intro l
    simp only [mem_of_mapM_eq_ok hdisabled, languageOf_eq_ok_iff]
  · intro l
    rw [Registry.strategiesFor, funext (Registry.isEnabled_eq (c := c) rfl)]
  · intro l salt
    exact List.map_congr_left fun s _ => Registry.modifier_eq rfl rfl rfl h l salt s

theorem registry_of_valid {c : Config} (h : c.Valid) : ∃ r, c.registry = .ok r ∧ r.Reflects c := by
  obtain ⟨config, r, hconfig, hr, hreflects⟩ := registryConfig_of_valid h
  exact ⟨r, by rw [registry, hconfig]; simp only [hr], hreflects⟩

/-- A configuration that passes the checks becomes a registry with its settings, and one that does
not is refused with the error of the checks. -/
theorem registryConfig_agrees_with_validate (c : Config) :
    (c.validate = .ok () → ∃ config r, c.registryConfig = .ok config ∧
      Registry.ofConfig config = .ok r ∧ r.Reflects c) ∧
      ∀ e, c.validate = .error e → c.registryConfig = .error e := by
  refine ⟨fun h => registryConfig_of_valid (validate_eq_ok_iff.1 h), ?_⟩
  intro e h
  rw [registryConfig, h]
  rfl

/-- A result that passes a test. -/
theorem exists_ok_of_any {ε α : Type} {x : Except ε α} {p : α → Bool}
    (h : x.toOption.any p = true) : ∃ a, x = .ok a ∧ p a = true := by
  cases x with
  | error err => cases h
  | ok a => exact ⟨a, rfl, h⟩

/-- A configuration without Ruby and without the removal of loops, at a likelihood of its own. -/
def muted : Config :=
  { initial with
    mutation := { MutationConfig.initial with
      likelihood := some 0.5
      modifiers := .ofList [("func_pm_remove_loop", { Override.none with enabled := some false }),
        ("func_pm_op_flip", { Override.none with likelihood := some 1.0 })] }
    languages := { LanguagesConfig.initial with disabled := ["RuBy"] } }

/-- A configuration that turns off a language that there is not. -/
def misspelled : Config :=
  { initial with languages := { LanguagesConfig.initial with disabled := ["ruby", "rubi"] } }

theorem registryConfig_agrees_with_validate_muted :
    (muted.validate = .ok () ∧ ∃ config r, muted.registryConfig = .ok config ∧
      Registry.ofConfig config = .ok r ∧ .ruby ∈ r.config.disabled ∧
      .removeLoops ∉ r.strategiesFor .python ∧ .flipOperators ∈ r.strategiesFor .python) ∧
      misspelled.registryConfig =
        .error (.invalid "languages.disabled" (.unknownLanguage "rubi")) := by
  constructor
  · have hvalid : muted.validate = .ok () := Loader.eq_ok_of_isOk (by decide +kernel)
    obtain ⟨config, r, hconfig, hr, hreflects⟩ :=
      (registryConfig_agrees_with_validate muted).1 hvalid
    refine ⟨hvalid, config, r, hconfig, hr, ?_, ?_, ?_⟩
    · exact (hreflects.disabled .ruby).2 ⟨"RuBy", by decide, by decide⟩
    · rw [hreflects.strategies]
      decide +kernel
    · rw [hreflects.strategies]
      decide +kernel
  · exact (registryConfig_agrees_with_validate misspelled).2 _ rfl

end Config
end Mutagen
