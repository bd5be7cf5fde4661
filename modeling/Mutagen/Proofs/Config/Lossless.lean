import Mutagen.Proofs.Config.Omission

/-!
# The writing of configurations is lossless

A configuration has a document when its whole numbers are within the range of documents. It is
then read back from this document, whichever of its settings are made and whatever the keys of its
tables are. What is left out of the document is read as the initial value of just the sections and
keys that were left out.
-/
namespace Mutagen
namespace Config

/-! ## When there is a document -/

theorem exists_bind_eq_ok_iff {α β : Type} {x : Except ConfigError α}
    {f : α → Except ConfigError β} :
    (∃ b, (x >>= f) = .ok b) ↔ ∃ a, x = .ok a ∧ ∃ b, f a = .ok b := by
  simp only [bind_eq_ok_iff, ← exists_and_left]
  exact exists_comm

theorem exists_pure_eq_ok {α : Type} (a : α) :
    ∃ b, (pure a : Except ConfigError α) = .ok b :=
  ⟨a, rfl⟩

theorem exists_encodeNat_iff {n : Nat} : (∃ v, encodeNat n = .ok v) ↔ n < Toml.limit := by
  rw [encodeNat]
  split
  · rename_i h
    exact iff_of_true ⟨_, rfl⟩ h
  · rename_i h
    exact iff_of_false (fun ⟨_, hv⟩ => by cases hv) h

theorem exists_optional_iff {α : Type} {key : String} {f : α → Except ConfigError Toml}
    {setting : Option α} :
    (∃ members, optional key f setting = .ok members) ↔ ∀ a ∈ setting, ∃ v, f a = .ok v := by
  cases setting with
  | none => exact iff_of_true ⟨_, rfl⟩ (by simp)
  | some a =>
    simp only [optional, exists_bind_eq_ok_iff, exists_pure_eq_ok, and_true, Option.mem_def,
      Option.some.injEq, forall_eq']

theorem isTable_of_encodeOverride {s : Override} {v : Toml} (h : encodeOverride s = .ok v) :
    v.isTable = true := by
  obtain ⟨_, -, _, -, _, -, _, -, _, -, h⟩ := by
    simpa only [encodeOverride, bind_eq_ok_iff] using h
  cases h
  rfl

/-- The settings of a modifier are always within the range. -/
theorem exists_encodeOverride (s : Override) : ∃ v, encodeOverride s = .ok v := by
  simp only [encodeOverride, exists_bind_eq_ok_iff, exists_pure_eq_ok, and_true, exists_and_right,
    exists_optional_iff]
  simp [encodeFloat, encodeWord32]

theorem exists_encodeExtraction_iff {c : ExtractionConfig} :
    (∃ v, encodeExtraction c = .ok v) ↔
      (∀ n ∈ c.maxEntities, n.toNat < Toml.limit) ∧ c.maxFileSizeKb.toNat < Toml.limit := by
  simp only [encodeExtraction, exists_bind_eq_ok_iff, exists_pure_eq_ok, and_true,
    exists_and_right, exists_optional_iff, exists_encodeNat_iff]

theorem exists_encodeMutation_iff {c : MutationConfig} :
    (∃ v, encodeMutation c = .ok v) ↔
      c.seed.toNat < Toml.limit ∧ c.maxMutants.toNat < Toml.limit := by
  have hlikelihood : ∀ x ∈ c.likelihood, ∃ v, encodeFloat x = .ok v := fun _ _ => ⟨_, rfl⟩
  have hmodifiers : ∀ e ∈ c.modifiers.entries,
      ∃ b, (do pure (e.1, ← encodeOverride e.2) : Except ConfigError (String × Toml)) = .ok b := by
    intro e _
    exact exists_bind_eq_ok_iff.2 ((exists_encodeOverride e.2).imp fun _ hv => ⟨hv, _, rfl⟩)
  simp only [encodeMutation, exists_bind_eq_ok_iff, exists_pure_eq_ok, and_true, exists_and_right,
    exists_optional_iff.2 hlikelihood, exists_mapM_eq_ok_iff.2 hmodifiers, true_and,
    exists_encodeNat_iff]

/-- Whether the whole numbers of 64 bits are within the range of documents. -/
def InRange (c : Config) : Prop :=
  ((∀ n ∈ c.extraction.maxEntities, n.toNat < Toml.limit) ∧
      c.extraction.maxFileSizeKb.toNat < Toml.limit) ∧
    c.mutation.seed.toNat < Toml.limit ∧ c.mutation.maxMutants.toNat < Toml.limit

theorem exists_encode_iff {c : Config} : (∃ doc, c.encode = .ok doc) ↔ c.InRange := by
  simp only [encode, exists_bind_eq_ok_iff, exists_pure_eq_ok, and_true, exists_and_right,
    exists_encodeExtraction_iff, exists_encodeMutation_iff, InRange]

/-! ## Documents of configurations -/

theorem isTable_of_encodeExtraction {c : ExtractionConfig} {v : Toml}
    (h : encodeExtraction c = .ok v) : v.isTable = true := by
  obtain ⟨_, -, h⟩ := bind_eq_ok_iff.1 h
  obtain ⟨_, -, h⟩ := bind_eq_ok_iff.1 h
  cases h
  rfl

theorem modifiers_of_encodeMutation {c : MutationConfig} {v : Toml}
    (h : encodeMutation c = .ok v) :
    v.isTable = true ∧ ∃ members, v.get? "modifiers" = some (.table members) ∧
      ∀ m ∈ members, m.2.isTable = true := by
  obtain ⟨_, -, h⟩ := bind_eq_ok_iff.1 h
  obtain ⟨likelihood, hlikelihood, h⟩ := bind_eq_ok_iff.1 h
  obtain ⟨_, -, h⟩ := bind_eq_ok_iff.1 h
  obtain ⟨modifiers, hmodifiers, h⟩ := bind_eq_ok_iff.1 h
  cases h
  have hother := @lookup_optional_of_ne _ _ _ _ _ hlikelihood
  refine ⟨rfl, modifiers, ?_, ?_⟩
  · simp [Toml.get?, List.lookup_append, lookup_cons_of_ne, hother]
  · intro m hm
    obtain ⟨e, -, he⟩ := (mem_of_mapM_eq_ok hmodifiers).1 hm
    obtain ⟨w, hw, hpair⟩ := bind_eq_ok_iff.1 he
    cases hpair
    exact isTable_of_encodeOverride hw

theorem get?_encodeLanguages (c : LanguagesConfig) :
    ∃ members, (encodeLanguages c).get? "extensions" = some (.table members) := by
  simp [encodeLanguages, Toml.get?, lookup_cons_of_ne]

theorem tabular_of_encode {c : Config} {doc : Toml} (h : c.encode = .ok doc) : Tabular doc := by
  obtain ⟨extraction, hextraction, h⟩ := bind_eq_ok_iff.1 h
  obtain ⟨mutation, hmutation, h⟩ := bind_eq_ok_iff.1 h
  cases h
  obtain ⟨htable, members, hmodifiers, htables⟩ := modifiers_of_encodeMutation hmutation
  obtain ⟨names, hnames⟩ := get?_encodeLanguages c.languages
  refine ⟨rfl, ?_, ?_, ?_⟩
  · have hlanguages : (encodeLanguages c.languages).isTable = true := rfl
    have hlogging : (encodeLogging c.logging).isTable = true := rfl
    simp [Toml.get?, lookup_cons_of_ne, isTable_of_encodeExtraction hextraction, htable, hlanguages,
      hlogging]
  · intro v w hv hw
    have hpart : mutation = v := by simpa [Toml.get?, lookup_cons_of_ne] using hv
    subst hpart
    rw [hmodifiers] at hw
    cases hw
    exact ⟨members, rfl, htables⟩
  · intro v w hv hw
    have hpart : encodeLanguages c.languages = v := by
      simpa [Toml.get?, lookup_cons_of_ne] using hv
    subst hpart
    rw [hnames] at hw
    cases hw
    rfl

/-- The writing of configurations is lossless. A configuration has a document just when its whole
numbers are within the range. Its document gives it back, and so does the text of the document
when this text is read as the document. What is left out of a document has its initial value then,
and everything else is as it was. -/
theorem decode_lossless :
    (∀ c : Config, (∃ doc, c.encode = .ok doc) ↔ c.InRange) ∧
      (∀ (c : Config) doc, c.encode = .ok doc → decode doc = some c ∧ Tabular doc ∧
        c.fileText = .ok (Toml.write doc) ∧
        (Toml.read? (Toml.write doc) = some doc →
          (Toml.read? (Toml.write doc)).bind decode = some c)) ∧
      ∀ (c : Config) doc, Tabular doc → decode doc = some c →
        ∀ o, decode (doc.without o) = some (c.without o) := by
  refine ⟨fun _ => exists_encode_iff, ?_, fun _ _ htab h => decode_without htab h⟩
  intro c doc h
  have hdecode := decode_of_encode h
  refine ⟨hdecode, tabular_of_encode h, ?_, ?_⟩
  · rw [fileText, h]
    rfl
  · intro hread
    rw [hread]
    exact hdecode

/-- A configuration with settings of every kind: made and not made, none at all for one modifier,
an empty list and keys that are not plain. -/
def furnished : Config where
  extraction := ⟨some 3, 1024, []⟩
  mutation := ⟨7, some 0.5, 2, .ofList [("", ⟨none, none, none, none, none⟩),
    ("func pm.\"é\"", ⟨some false, some 0.25, some 1, none, some 9⟩)]⟩
  languages := ⟨["go"], .ofList [("x.y", "rust")]⟩
  logging := ⟨"trace\n"⟩

theorem decode_lossless_furnished :
    ∃ doc, furnished.encode = .ok doc ∧
      (Toml.read? (Toml.write doc)).bind decode = some furnished ∧
      decode (doc.without fun path => path = ["mutation", "seed"] ∨ path = ["languages"]) =
        some { furnished with
          mutation := { furnished.mutation with seed := 42 }
          languages := .initial } := by
  have hrange : furnished.InRange := by
    refine ⟨⟨?_, by decide⟩, by decide, by decide⟩
    intro n hn
    cases hn
    decide
  obtain ⟨doc, hdoc⟩ := (decode_lossless.1 furnished).2 hrange
  have hread := read?_write_of_readsBack (c := furnished) (by decide +kernel) hdoc
  obtain ⟨hdecode, htab, -, htext⟩ := decode_lossless.2.1 furnished doc hdoc
  exact ⟨doc, hdoc, htext hread, decode_lossless.2.2 furnished doc htab hdecode _⟩

end Config
end Mutagen
