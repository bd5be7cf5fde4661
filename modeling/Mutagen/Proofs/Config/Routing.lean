import Mathlib.Data.List.Forall2
import Mutagen.Proofs.Config.Omission
import Mutagen.Proofs.Config.Validation

/-!
# Which layer routes an extension

Layers are merged by the keys as they are spelled. Only the registry leaves out the dots before an
extension and its capital letters, and of several spellings of one extension it takes the last one
in the order of texts. So a spelling in the upper layer counts unless the lower layer has another
spelling that comes after it.
-/
namespace Mutagen

/-! ## The extensions of a registry -/

theorem Registry.config_of_ofConfig {config : RegistryConfig} {r : Registry}
    (h : ofConfig config = .ok r) : r.config = config := by
  unfold ofConfig at h
  split at h
  · cases h
  · cases h
    rfl

namespace Config

theorem forall₂_of_mapM_eq_ok {α β : Type} {f : α → Except ConfigError β} {l : List α} {bs : List β}
    (h : l.mapM f = .ok bs) : List.Forall₂ (fun a b => f a = .ok b) l bs := by
  induction l generalizing bs with
  | nil =>
    cases h
    exact .nil
  | cons a l ih =>
    rw [List.mapM_cons] at h
    obtain ⟨b, hb, h⟩ := bind_eq_ok_iff.1 h
    obtain ⟨bs', hbs', h⟩ := bind_eq_ok_iff.1 h
    cases h
    exact .cons hb (ih hbs')

/-- An extension that is looked up has the language that its first spelling names. -/
theorem lookup_normalized {entries : List (String × String)} {ls : List (String × Language)}
    (h : List.Forall₂ (fun e b => b.1 = e.1 ∧ Language.ofName? e.2 = some b.2) entries ls)
    (ext : String) :
    (ls.map fun e => (normalizeExtension e.1, e.2)).lookup ext =
      (entries.find? fun e => normalizeExtension e.1 == ext).bind
        fun e => Language.ofName? e.2 := by
  induction h with
  | nil => rfl
  | @cons e b entries ls hb _ ih =>
    obtain ⟨hkey, hname⟩ := hb
    rw [List.map_cons, List.find?_cons, hkey]
    by_cases hext : normalizeExtension e.1 = ext
    · subst hext
      simp [hname]
    · have hne : ext ≠ (normalizeExtension e.1, b.2).1 := Ne.symm hext
      rw [lookup_cons_of_ne hne, ih, beq_false_of_ne hext]

theorem extensions_of_registry {c : Config} {r : Registry} (h : c.registry = .ok r) :
    ∃ ls, c.extensionLanguages = .ok ls ∧
      r.config.extensions = .ofList (ls.map fun e => (normalizeExtension e.1, e.2)) := by
  unfold registry at h
  cases hconfig : c.registryConfig with
  | error err =>
    rw [hconfig] at h
    cases h
  | ok config =>
    simp only [hconfig] at h
    obtain ⟨_, -, hrest⟩ := bind_eq_ok_iff.1 hconfig
    obtain ⟨ls, hls, hrest⟩ := bind_eq_ok_iff.1 hrest
    obtain ⟨disabled, -, hrest⟩ := bind_eq_ok_iff.1 hrest
    cases hrest
    refine ⟨ls, hls, ?_⟩
    cases hr : Registry.ofConfig _ with
    | error err =>
      rw [hr] at h
      cases h
    | ok r' =>
      rw [hr] at h
      cases h
      rw [Registry.config_of_ofConfig hr]

/-- Whether a key is a spelling of an extension. -/
def spells (ext key : String) : Bool := normalizeExtension key == normalizeExtension ext

/-- Of the spellings of an extension in a configuration the last one gives the language. -/
theorem get?_extensions_of_registry {c : Config} {r : Registry} (h : c.registry = .ok r)
    (ext : String) :
    r.config.extensions.get? (normalizeExtension ext) =
      (c.languages.extensions.last? (spells ext)).bind fun e => Language.ofName? e.2 := by
  obtain ⟨ls, hls, hextensions⟩ := extensions_of_registry h
  have hread : List.Forall₂ (fun e b => b.1 = e.1 ∧ Language.ofName? e.2 = some b.2)
      c.languages.extensions.entries ls := by
    refine (forall₂_of_mapM_eq_ok hls).imp fun e b hb => ?_
    obtain ⟨l, hl, hb⟩ := bind_eq_ok_iff.1 hb
    cases hb
    exact ⟨rfl, Language.ofName?_eq_some_iff.2 (languageOf_eq_ok_iff.1 hl)⟩
  rw [hextensions, Table.get?_ofList, ← List.map_reverse,
    lookup_normalized (List.forall₂_reverse_iff.2 hread)]
  rfl

/-! ## Spellings in two layers -/

/-- The last spelling of an extension in a table, when it comes after the given one. -/
structure Outranks (t : Table String) (later ext name : String) : Prop where
  get? : t.get? later = some name
  spelling : normalizeExtension later = normalizeExtension ext
  lt : ext < later
  last : ∀ k ∈ t.keys, normalizeExtension k = normalizeExtension ext → k ≤ later

theorem outranks_iff {t : Table String} {later ext name : String} :
    Outranks t later ext name ↔ t.last? (spells ext) = some (later, name) ∧ ext < later := by
  simp only [Table.last?_eq_some_iff, spells, beq_iff_eq]
  exact ⟨fun h => ⟨⟨h.get?, h.spelling, h.last⟩, h.lt⟩,
    fun ⟨⟨hget, hspelling, hlast⟩, hlt⟩ => ⟨hget, hspelling, hlt, hlast⟩⟩

section

variable {below above : LanguagesConfig} {ext name : String}
  (hsole : ∀ k ∈ above.extensions.keys, normalizeExtension k = normalizeExtension ext → k = ext)
include hsole

/-- A key of merged layers that spells an extension is the one of the upper layer or one of the
lower layer. -/
theorem eq_or_mem_of_spells {k : String} (hk : k ∈ (below.merge above).extensions.keys)
    (hspells : normalizeExtension k = normalizeExtension ext) :
    k = ext ∨ k ∈ below.extensions.keys := by
  obtain ⟨v, hv⟩ := Table.mem_keys_iff.1 hk
  rw [LanguagesConfig.get?_extensions_merge, Option.or_eq_some_iff] at hv
  rcases hv with habove | ⟨-, hbelow⟩
  · exact .inl (hsole k (Table.mem_keys_iff.2 ⟨v, habove⟩) hspells)
  · exact .inr (Table.mem_keys_iff.2 ⟨v, hbelow⟩)

theorem last?_merge_of_outranks {later other : String}
    (h : Outranks below.extensions later ext other) :
    (below.merge above).extensions.last? (spells ext) = some (later, other) := by
  have hnone : above.extensions.get? later = none := by
    by_contra hsome
    obtain ⟨v, hv⟩ := Option.ne_none_iff_exists'.1 hsome
    have heq := hsole later (Table.mem_keys_iff.2 ⟨v, hv⟩) h.spelling
    exact String.lt_irrefl _ (heq ▸ h.lt)
  refine Table.last?_eq_some_iff.2 ⟨?_, beq_iff_eq.2 h.spelling, fun k hk hspells => ?_⟩
  · rw [LanguagesConfig.get?_extensions_merge, hnone, Option.none_or, h.get?]
  · rcases eq_or_mem_of_spells hsole hk (beq_iff_eq.1 hspells) with rfl | hbelow
    · exact String.not_lt.1 (String.lt_asymm h.lt)
    · exact h.last k hbelow (beq_iff_eq.1 hspells)

theorem last?_merge_of_not_outranks (hname : above.extensions.get? ext = some name)
    (h : ∀ later other, ¬Outranks below.extensions later ext other) :
    (below.merge above).extensions.last? (spells ext) = some (ext, name) := by
  refine Table.last?_eq_some_iff.2 ⟨?_, beq_self_eq_true _, fun k hk hspells => ?_⟩
  · rw [LanguagesConfig.get?_extensions_merge, hname, Option.some_or]
  · rcases eq_or_mem_of_spells hsole hk (beq_iff_eq.1 hspells) with rfl | hbelow
    · exact String.le_refl _
    · cases hlast : below.extensions.last? (spells ext) with
      | none => exact absurd hspells (Table.last?_eq_none_iff.1 hlast k hbelow)
      | some e =>
        have hle : e.1 ≤ ext := String.not_lt.1 fun hlt => h e.1 e.2 (outranks_iff.2 ⟨hlast, hlt⟩)
        exact String.le_trans ((Table.last?_eq_some_iff.1 hlast).2.2 k hbelow hspells) hle

end

end Config

/-! ## Routes -/

namespace Registry

/-- A registry routes an extension to a language: every spelling of it and every path with one,
unless the language is turned off. -/
structure Routes (r : Registry) (ext : String) (l : Language) : Prop where
  languageFor : ∀ key, normalizeExtension key = normalizeExtension ext → r.languageFor key =
    if l ∈ r.config.disabled then .error (.unknownExtension (normalizeExtension ext)) else .ok l
  languageForPath : ∀ path key, Path.extension? path = some key →
    normalizeExtension key = normalizeExtension ext → r.languageForPath path =
      if l ∈ r.config.disabled then .error (.unknownExtension (normalizeExtension ext)) else .ok l

theorem languageFor_of_get? {r : Registry} {ext : String} {l : Language}
    (h : r.config.extensions.get? (normalizeExtension ext) = some l) : r.languageFor ext =
      if l ∈ r.config.disabled then .error (.unknownExtension (normalizeExtension ext))
      else .ok l := by
  by_cases hl : l ∈ r.config.disabled <;> simp [languageFor, h, hl, Option.filter_some]

theorem routes_of_get? {r : Registry} {ext : String} {l : Language}
    (h : r.config.extensions.get? (normalizeExtension ext) = some l) : r.Routes ext l := by
  have hroute : ∀ key, normalizeExtension key = normalizeExtension ext → r.languageFor key =
      if l ∈ r.config.disabled then .error (.unknownExtension (normalizeExtension ext))
      else .ok l := by
    intro key hkey
    rw [← hkey] at h ⊢
    exact languageFor_of_get? h
  refine ⟨hroute, fun path key hpath hkey => ?_⟩
  rw [languageForPath, hpath]
  exact hroute key hkey

end Registry

namespace Config

/-- Two layers whose merge passes the checks, and an extension with a single spelling in the upper
layer. The registry routes it to the language of the upper layer, unless the lower layer has
another spelling that comes after the one in the upper layer. Then the last such spelling has its
way. -/
theorem routes_of_upper {below above : Config} {ext name : String}
    (hvalid : (below.merge above).validate = .ok ())
    (hname : above.languages.extensions.get? ext = some name)
    (hsole : ∀ k ∈ above.languages.extensions.keys,
      normalizeExtension k = normalizeExtension ext → k = ext) :
    ∃ r l, (below.merge above).registry = .ok r ∧ r.Reflects (below.merge above) ∧
      l.IsNamed name ∧
      ((∀ later other, Outranks below.languages.extensions later ext other → l.IsNamed other) →
        r.Routes ext l) ∧
      ∀ later other, Outranks below.languages.extensions later ext other →
        ∃ l' : Language, l'.IsNamed other ∧ r.Routes ext l' := by
  have hchecked := validate_eq_ok_iff.1 hvalid
  obtain ⟨r, hr, hreflects⟩ := registry_of_valid hchecked
  have hroutes : ∀ key other (l : Language), l.IsNamed other →
      (below.merge above).languages.extensions.last? (spells ext) = some (key, other) →
      r.Routes ext l := by
    intro key other l hl hlast
    refine Registry.routes_of_get? ?_
    rw [get?_extensions_of_registry hr, hlast]
    exact Language.ofName?_eq_some_iff.2 hl
  have hnamed : ∀ key other, (below.merge above).languages.extensions.get? key = some other →
      ∃ l : Language, l.IsNamed other :=
    fun key other hget => hchecked.extensions _ (Table.get?_eq_some_iff.1 hget)
  have hmerged : (below.merge above).languages.extensions.get? ext = some name := by
    rw [merge, LanguagesConfig.get?_extensions_merge, hname, Option.some_or]
  obtain ⟨l, hl⟩ := hnamed ext name hmerged
  refine ⟨r, l, hr, hreflects, hl, fun hsame => ?_, fun later other hout => ?_⟩
  · by_cases hout : ∃ later other, Outranks below.languages.extensions later ext other
    · obtain ⟨later, other, hout⟩ := hout
      exact hroutes later other l (hsame later other hout) (last?_merge_of_outranks hsole hout)
    · have hnone : ∀ later other, ¬Outranks below.languages.extensions later ext other :=
        fun later other h => hout ⟨later, other, h⟩
      exact hroutes ext name l hl (last?_merge_of_not_outranks hsole hname hnone)
  · have hlast := last?_merge_of_outranks hsole hout
    obtain ⟨l', hl'⟩ := hnamed later other (Table.last?_eq_some_iff.1 hlast).1
    exact ⟨l', hl', hroutes later other l' hl' hlast⟩

/-- A configuration that routes some extensions. -/
def routing (extensions : List (String × String)) : Config :=
  { initial with languages := { LanguagesConfig.initial with extensions := .ofList extensions } }

/-- Capital letters come before small ones, so that the upper layer has its way here. -/
theorem routes_of_upper_small :
    let below := routing [("PYI", "ruby"), ("rbi", "ruby")]
    let above := routing [("pyi", "python")]
    (below.merge above).validate = .ok () ∧ ∃ r, (below.merge above).registry = .ok r ∧
      r.languageFor "PYI" = .ok .python ∧ r.languageForPath "stubs/a.Pyi" = .ok .python := by
  intro below above
  have hvalid : (below.merge above).validate = .ok () := Loader.eq_ok_of_isOk (by decide +kernel)
  have hname : above.languages.extensions.get? "pyi" = some "python" := by decide +kernel
  have hsole : ∀ k ∈ above.languages.extensions.keys,
      normalizeExtension k = normalizeExtension "pyi" → k = "pyi" := by
    decide +kernel
  have hlast : below.languages.extensions.last? (spells "pyi") = some ("PYI", "ruby") := by
    decide +kernel
  obtain ⟨r, l, hr, hreflects, hl, hroutes, -⟩ := routes_of_upper hvalid hname hsole
  obtain rfl : l = .python :=
    Option.some.inj ((Language.ofName?_eq_some_iff.2 hl).symm.trans (by decide +kernel))
  have hnone : ∀ later other, ¬Outranks below.languages.extensions later "pyi" other := by
    intro later other hout
    obtain ⟨hlater, hlt⟩ := outranks_iff.1 hout
    rw [hlast] at hlater
    cases hlater
    exact absurd hlt (by decide +kernel)
  have henabled : Language.python ∉ r.config.disabled := by
    rw [hreflects.disabled]
    decide +kernel
  obtain ⟨hext, hpath⟩ := hroutes fun later other hout => absurd hout (hnone later other)
  refine ⟨hvalid, r, hr, ?_, ?_⟩
  · rw [hext "PYI" (by decide +kernel), if_neg henabled]
  · rw [hpath "stubs/a.Pyi" "Pyi" (by decide +kernel) (by decide +kernel), if_neg henabled]

/-- The lower layer has its way with small letters. -/
theorem lower_layer_routes :
    let below := routing [("pyi", "ruby")]
    let above := routing [("PYI", "python")]
    (below.merge above).validate = .ok () ∧
      above.languages.extensions.get? "PYI" = some "python" ∧
      (∀ k ∈ above.languages.extensions.keys,
        normalizeExtension k = normalizeExtension "PYI" → k = "PYI") ∧
      ∃ r, (below.merge above).registry = .ok r ∧ r.languageFor "PYI" = .ok .ruby := by
  intro below above
  have hvalid : (below.merge above).validate = .ok () := Loader.eq_ok_of_isOk (by decide +kernel)
  have hruby : ((below.merge above).registry.toOption.any fun r =>
      (r.languageFor "PYI").toOption.any (· == .ruby)) = true := by
    decide +kernel
  obtain ⟨r, hr, hruby⟩ := exists_ok_of_any hruby
  obtain ⟨l, hl, hruby⟩ := exists_ok_of_any hruby
  rw [beq_iff_eq.1 hruby] at hl
  exact ⟨hvalid, by decide +kernel, by decide +kernel, r, hr, hl⟩

end Config
end Mutagen
