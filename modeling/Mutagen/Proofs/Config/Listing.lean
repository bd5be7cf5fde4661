import Mutagen.Proofs.Config.Routing
import Mutagen.Proofs.Text.Case

/-!
# The listing of languages and the routes of extensions

The listing shows the own extensions of a language and those that the configuration gives to it. It
is made without a look-up. An extension of one language that the configuration gives to another
one is listed for both, and this is the only way in which the listing and the routes differ.
-/
namespace Mutagen

/-! ## Spellings -/

theorem normalizeExtension_normalizeExtension (ext : String) :
    normalizeExtension (normalizeExtension ext) = normalizeExtension ext := by
  have hstops : ∀ t : Text, (Text.lower (t.dropWhile (· == '.'))).dropWhile (· == '.') =
      Text.lower (t.dropWhile (· == '.')) := by
    intro t
    have hhead := List.head?_dropWhile_not (· == '.') t
    cases ht : t.dropWhile (· == '.') with
    | nil => rfl
    | cons c rest =>
      have hc : c ≠ '.' := by simpa [ht] using hhead
      obtain ⟨d, forms, hforms, hstop⟩ := Text.exists_lower_cons c rest
      rw [hforms, List.dropWhile_cons_of_neg]
      exact fun hd => hc (hstop (beq_iff_eq.1 hd))
  simp only [normalizeExtension, lowercase, String.toList_ofList, hstops, Text.lower_lower]

theorem normalizeExtension_of_isLower {ext : String} (h : ext.toList.all Char.isLower = true) :
    normalizeExtension ext = ext := by
  have hstops : ext.toList.dropWhile (· == '.') = ext.toList := by
    cases ht : ext.toList with
    | nil => rfl
    | cons c rest =>
      rw [List.dropWhile_cons_of_neg]
      intro hstop
      rw [ht, List.all_cons, beq_iff_eq.1 hstop] at h
      cases h
  rw [normalizeExtension, hstops, lowercase, String.toList_ofList, Text.lower_of_isLower h,
    String.ofList_toList]

namespace Language

theorem normalizeExtension_of_mem {l : Language} {ext : String} (h : ext ∈ l.extensions) :
    normalizeExtension ext = ext := by
  have hall : ∀ l ∈ all, ∀ ext ∈ l.extensions, ext.toList.all Char.isLower = true := by
    decide +kernel
  exact normalizeExtension_of_isLower (hall l l.mem_all ext h)

/-- No two languages have an extension of their own in common. -/
theorem eq_of_mem_extensions {l l' : Language} {ext : String} (h : ext ∈ l.extensions)
    (h' : ext ∈ l'.extensions) : l = l' := by
  have hall : ∀ l ∈ all, ∀ l' ∈ all, ∀ ext ∈ l.extensions, ext ∈ l'.extensions → l = l' := by
    decide +kernel
  exact hall l l.mem_all l' l'.mem_all ext h h'

theorem ofExtension?_eq_some_iff {l : Language} {ext : String} :
    ofExtension? ext = some l ↔ normalizeExtension ext ∈ l.extensions := by
  have hmem : ∀ {l' : Language}, ofExtension? ext = some l' →
      normalizeExtension ext ∈ l'.extensions := by
    intro l' h
    have hown := List.find?_some
      (p := fun l : Language => l.extensions.contains (normalizeExtension ext)) h
    exact List.contains_iff_mem.1 hown
  refine ⟨hmem, fun h => ?_⟩
  cases hfind : ofExtension? ext with
  | none =>
    have hnot := List.find?_eq_none.1 hfind l l.mem_all
    exact absurd (List.contains_iff_mem.2 h) hnot
  | some l' => rw [eq_of_mem_extensions h (hmem hfind)]

end Language

/-! ## Look-ups -/

namespace Registry

variable {r : Registry} {l : Language} {ext : String}

/-- An extension has the language that the configuration gives to it, and else its own one. -/
theorem languageFor_eq_ok_iff : r.languageFor ext = .ok l ↔ l ∉ r.config.disabled ∧
    (r.config.extensions.get? (normalizeExtension ext) = some l ∨
      r.config.extensions.get? (normalizeExtension ext) = none ∧
        normalizeExtension ext ∈ l.extensions) := by
  have hown : normalizeExtension ext ∈ l.extensions ↔
      Language.ofExtension? (normalizeExtension ext) = some l := by
    rw [Language.ofExtension?_eq_some_iff, normalizeExtension_normalizeExtension]
  rw [hown, ← Option.or_eq_some_iff, languageFor]
  cases (r.config.extensions.get? (normalizeExtension ext)).or
      (Language.ofExtension? (normalizeExtension ext)) with
  | none => simp
  | some l' =>
    by_cases hl' : l' ∈ r.config.disabled
    · simp only [Option.filter_some, List.contains_eq_mem, hl', Option.some.injEq]
      constructor
      · intro h
        cases h
      · rintro ⟨henabled, rfl⟩
        exact absurd hl' henabled
    · simp only [Option.filter_some, List.contains_eq_mem, hl', Option.some.injEq]
      refine ⟨fun h => ?_, fun h => congrArg Except.ok h.2⟩
      obtain rfl := Except.ok.inj h
      exact ⟨hl', rfl⟩

/-- A configuration leaves no dots and no capital letters in the extensions of its registry. -/
theorem normalizeExtension_of_get? {c : Config} (hr : c.registry = .ok r)
    (h : r.config.extensions.get? ext = some l) : normalizeExtension ext = ext := by
  obtain ⟨ls, -, hextensions⟩ := Config.extensions_of_registry hr
  rw [hextensions, Table.get?_ofList] at h
  obtain ⟨before, after, hentries, -⟩ := List.lookup_eq_some_iff.1 h
  have hmem : (ext, l) ∈ ls.map fun e => (normalizeExtension e.1, e.2) :=
    List.mem_reverse.1 (by simp [hentries])
  obtain ⟨e, -, he⟩ := List.mem_map.1 hmem
  obtain rfl := congrArg Prod.fst he
  exact normalizeExtension_normalizeExtension e.1

/-! ## The listing -/

theorem mem_foldl_iff {entries : List (String × Language)} {known : List String} :
    ext ∈ entries.foldl (fun known e =>
        if e.2 = l ∧ !known.contains e.1 then known ++ [e.1] else known) known ↔
      ext ∈ known ∨ (ext, l) ∈ entries := by
  induction entries generalizing known with
  | nil => simp
  | cons e entries ih =>
    rw [List.foldl_cons, ih, List.mem_cons]
    split
    · rename_i hnew
      obtain ⟨key, own⟩ := e
      obtain ⟨rfl, -⟩ := hnew
      simp [or_assoc]
    · rename_i hold
      have hknown : (ext, l) = e → ext ∈ known := by
        rintro rfl
        simpa using hold
      exact ⟨Or.imp_right .inr, fun h => h.elim .inl fun h => h.elim (.inl ∘ hknown) .inr⟩

theorem mem_extensionsOf_iff :
    ext ∈ r.extensionsOf l ↔ ext ∈ l.extensions ∨ r.config.extensions.get? ext = some l := by
  rw [extensionsOf, mem_foldl_iff, Table.get?_eq_some_iff]

/-- What is listed is listed language by language. -/
theorem eq_describe_of_mem_listing {i : LanguageInfo} (h : i ∈ r.listing) :
    i = r.describe i.language := by
  obtain ⟨l, -, rfl⟩ := List.mem_map.1 h
  rfl

theorem enabled_describe : (r.describe l).enabled = true ↔ l ∉ r.config.disabled := by
  simp [describe]

/-- Whether the configuration gives an own extension of a language to another one. -/
def GivesAway (r : Registry) (l : Language) (ext : String) : Prop :=
  ext ∈ l.extensions ∧ ∃ l', r.config.extensions.get? ext = some l' ∧ l' ≠ l

/-- A listed extension has its language, unless it is given away. -/
theorem languageFor_of_mem_extensionsOf {c : Config} (hr : c.registry = .ok r)
    (henabled : l ∉ r.config.disabled) (hext : ext ∈ r.extensionsOf l) :
    r.languageFor ext = .ok l ↔ ¬r.GivesAway l ext := by
  have hnormal : normalizeExtension ext = ext := by
    rcases mem_extensionsOf_iff.1 hext with hown | hgiven
    · exact Language.normalizeExtension_of_mem hown
    · exact normalizeExtension_of_get? hr hgiven
  rw [languageFor_eq_ok_iff, hnormal]
  constructor
  · rintro ⟨-, hget | ⟨hnone, -⟩⟩ ⟨-, l', hl', hne⟩
    · exact hne (Option.some.inj (hl'.symm.trans hget))
    · exact Option.some_ne_none l' (hl'.symm.trans hnone)
  · intro hkept
    refine ⟨henabled, ?_⟩
    rcases mem_extensionsOf_iff.1 hext with hown | hgiven
    · cases hget : r.config.extensions.get? ext with
      | none => exact .inr ⟨rfl, hown⟩
      | some l' =>
        have heq : l' = l := not_not.1 fun hne => hkept ⟨hown, l', hget, hne⟩
        exact .inl (congrArg some heq)
    · exact .inl hgiven

/-- An extension that has a language is listed for it, and besides only where it is given away. -/
theorem mem_extensionsOf_of_languageFor {l' : Language} (h : r.languageFor ext = .ok l) :
    normalizeExtension ext ∈ r.extensionsOf l' ↔
      l' = l ∨ r.GivesAway l' (normalizeExtension ext) := by
  obtain ⟨-, hroute⟩ := languageFor_eq_ok_iff.1 h
  generalize normalizeExtension ext = key at hroute
  rw [mem_extensionsOf_iff]
  constructor
  · rintro (hown | hgiven)
    · rcases hroute with hget | ⟨-, hmine⟩
      · by_cases hl : l' = l
        · exact .inl hl
        · exact .inr ⟨hown, l, hget, Ne.symm hl⟩
      · exact .inl (Language.eq_of_mem_extensions hown hmine)
    · rcases hroute with hget | ⟨hnone, -⟩
      · exact .inl (Option.some.inj (hgiven.symm.trans hget))
      · exact absurd (hgiven.symm.trans hnone) (Option.some_ne_none l')
  · rintro (rfl | hgives)
    · rcases hroute with hget | ⟨-, hmine⟩
      · exact .inr hget
      · exact .inl hmine
    · exact .inl hgives.1

end Registry

namespace Config

/-- A configuration that passes the checks becomes a registry that lists every language once. An
extension that is listed for an enabled language is routed to it, unless the configuration gives
it to another language. An extension that is routed is listed for the language that it is routed to,
and only for this one and for the one that it is taken from. -/
theorem listing_agrees_with_routes {c : Config} (hvalid : c.validate = .ok ()) :
    ∃ r, c.registry = .ok r ∧ r.listing.map LanguageInfo.language = Language.all ∧
      (∀ i ∈ r.listing, i.enabled = true → ∀ ext ∈ i.extensions,
        (r.languageFor ext = .ok i.language ↔ ¬r.GivesAway i.language ext)) ∧
      ∀ ext l, r.languageFor ext = .ok l → ∀ i ∈ r.listing,
        (i.language = l → i.enabled = true) ∧
          (normalizeExtension ext ∈ i.extensions ↔
            i.language = l ∨ r.GivesAway i.language (normalizeExtension ext)) := by
  obtain ⟨r, hr, -⟩ := registry_of_valid (validate_eq_ok_iff.1 hvalid)
  refine ⟨r, hr, rfl, fun i hi henabled ext hext => ?_, fun ext l hroute i hi => ?_⟩
  · rw [Registry.eq_describe_of_mem_listing hi] at henabled hext ⊢
    exact Registry.languageFor_of_mem_extensionsOf hr (Registry.enabled_describe.1 henabled) hext
  · rw [Registry.eq_describe_of_mem_listing hi]
    refine ⟨?_, Registry.mem_extensionsOf_of_languageFor hroute⟩
    rintro rfl
    exact Registry.enabled_describe.2 (Registry.languageFor_eq_ok_iff.1 hroute).1

/-- Stub files of Python are listed with Python and routed to it. -/
theorem listing_agrees_with_routes_stubs :
    let c := routing [(".PYI", "python"), ("rbi", "ruby")]
    c.validate = .ok () ∧ ∃ r, c.registry = .ok r ∧ ∃ i ∈ r.listing, i.language = .python ∧
      i.enabled = true ∧ i.extensions = ["py", "pyi"] ∧ r.languageFor "pyi" = .ok .python := by
  intro c
  have hvalid : c.validate = .ok () := Loader.eq_ok_of_isOk (by decide +kernel)
  have hlisted : (c.registry.toOption.any fun r => r.listing.any fun i =>
      i.language == .python && i.enabled && i.extensions == ["py", "pyi"]) = true := by
    decide +kernel
  obtain ⟨r, hr, -, hroutes, -⟩ := listing_agrees_with_routes hvalid
  obtain ⟨r', hr', hlisted⟩ := exists_ok_of_any hlisted
  obtain rfl : r = r' := Except.ok.inj (hr.symm.trans hr')
  obtain ⟨i, hi, hlisted⟩ := List.any_eq_true.1 hlisted
  simp only [Bool.and_eq_true, beq_iff_eq] at hlisted
  obtain ⟨⟨hlanguage, henabled⟩, hextensions⟩ := hlisted
  have hkept : ¬r.GivesAway i.language "pyi" := by
    rw [hlanguage]
    exact fun hgives => absurd hgives.1 (by decide)
  refine ⟨hvalid, r, hr, i, hi, hlanguage, henabled, hextensions, ?_⟩
  rw [← hlanguage]
  exact (hroutes i hi henabled "pyi" (by simp [hextensions])).2 hkept

/-- An extension of Python that is given to Ruby is still listed for Python. -/
theorem listed_extension_routed_elsewhere :
    let c := routing [("py", "ruby")]
    c.validate = .ok () ∧ ∃ r, c.registry = .ok r ∧ ∃ i ∈ r.listing, i.language = .python ∧
      i.enabled = true ∧ "py" ∈ i.extensions ∧ r.languageFor "py" = .ok .ruby := by
  intro c
  have hvalid : c.validate = .ok () := Loader.eq_ok_of_isOk (by decide +kernel)
  have hlisted : (c.registry.toOption.any fun r =>
      (r.languageFor "py").toOption.any (· == .ruby) &&
        r.listing.any fun i => i.language == .python && i.enabled && i.extensions.contains "py") =
      true := by
    decide +kernel
  obtain ⟨r, hr, hlisted⟩ := exists_ok_of_any hlisted
  rw [Bool.and_eq_true, List.any_eq_true] at hlisted
  obtain ⟨hruby, i, hi, hlisted⟩ := hlisted
  obtain ⟨l, hroute, hruby⟩ := exists_ok_of_any hruby
  rw [beq_iff_eq.1 hruby] at hroute
  simp only [Bool.and_eq_true, beq_iff_eq, List.contains_iff_mem] at hlisted
  obtain ⟨⟨hlanguage, henabled⟩, hextension⟩ := hlisted
  exact ⟨hvalid, r, hr, i, hi, hlanguage, henabled, hextension, hroute⟩

end Config
end Mutagen
