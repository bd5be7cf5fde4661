import Mathlib.Data.List.Nodup
import Mutagen.Proofs.Config.Codec
import Mutagen.Proofs.Config.Layers
import Mutagen.Proofs.Files

/-!
# Configurations that are saved

A configuration that is saved for a workspace is the upper layer of the loads after it.
It is not loaded as it stands, since a layer adds to the lists below it and does not take
their place: the initial patterns come back, and repetitions are lost. All other values
are those that were saved.
-/
namespace Mutagen

/-! ## Lists that are added to -/

theorem nodup_appendNew {base : List String} (h : base.Nodup) (more : List String) :
    (appendNew base more).Nodup := by
  induction more using List.reverseRecOn with
  | nil => exact h
  | append_singleton more s ih =>
    rw [appendNew_append, appendNew_singleton]
    split
    · exact ih
    · rename_i hnew
      rw [← List.concat_eq_append, List.nodup_concat]
      exact ⟨hnew, ih⟩

theorem appendNew_of_nodup {base more : List String} (h : (base ++ more).Nodup) :
    appendNew base more = base ++ more := by
  induction more using List.reverseRecOn with
  | nil => exact (List.append_nil base).symm
  | append_singleton more s ih =>
    rw [← List.append_assoc, ← List.concat_eq_append, List.nodup_concat] at h
    rw [appendNew_append, ih h.2, appendNew_singleton, if_neg h.1, List.append_assoc]

/-- Adding a list gives this list when it begins with what is there and has no repetitions. -/
theorem appendNew_eq_right_iff {base more : List String} (hbase : base.Nodup) :
    appendNew base more = more ↔ base <+: more ∧ more.Nodup := by
  constructor
  · intro h
    have hbegin : base <+: appendNew base more := by
      rw [appendNew_eq]
      exact List.prefix_append _ _
    have hnodup := nodup_appendNew hbase more
    rw [h] at hbegin hnodup
    exact ⟨hbegin, hnodup⟩
  · rintro ⟨⟨rest, rfl⟩, hnodup⟩
    rw [appendNew_append, appendNew_eq_self fun _ h => h, appendNew_of_nodup hnodup]

namespace Config

/-! ## Checks -/

theorem exists_mapM_eq_ok_iff {α β : Type} {f : α → Except ConfigError β} {l : List α} :
    (∃ bs, l.mapM f = .ok bs) ↔ ∀ a ∈ l, ∃ b, f a = .ok b := by
  induction l with
  | nil => simp [pure, Except.pure]
  | cons a l ih =>
    rw [List.mapM_cons, List.forall_mem_cons, ← ih]
    simp only [bind_eq_ok_iff]
    constructor
    · rintro ⟨_, b, hb, bs, hbs, -⟩
      exact ⟨⟨b, hb⟩, bs, hbs⟩
    · rintro ⟨⟨b, hb⟩, bs, hbs⟩
      exact ⟨b :: bs, b, hb, bs, hbs, rfl⟩

/-- The items of a list that is read one by one are what its items are read as. -/
theorem mem_of_mapM_eq_ok {α β : Type} {f : α → Except ConfigError β} {l : List α} {bs : List β}
    (h : l.mapM f = .ok bs) {b : β} : b ∈ bs ↔ ∃ a ∈ l, f a = .ok b := by
  induction l generalizing bs with
  | nil =>
    cases h
    simp
  | cons a l ih =>
    rw [List.mapM_cons] at h
    obtain ⟨b', hb', h⟩ := bind_eq_ok_iff.1 h
    obtain ⟨bs', hbs', h⟩ := bind_eq_ok_iff.1 h
    cases h
    rw [List.mem_cons, ih hbs', List.exists_mem_cons_iff, hb', Except.ok.injEq, eq_comm]

/-- A configuration that passes the checks does so over the initial one. -/
theorem validate_initial_merge {c : Config} (h : c.validate = .ok ()) :
    (initial.merge c).validate = .ok () := by
  obtain ⟨_, hlikelihood, h⟩ := bind_eq_ok_iff.1 h
  obtain ⟨_, hmodifiers, h⟩ := bind_eq_ok_iff.1 h
  obtain ⟨ls, hdisabled, h⟩ := bind_eq_ok_iff.1 h
  -- of what is checked only the list of languages is another, and it has none that is new
  have hnames := exists_mapM_eq_ok_iff.1 ⟨ls, hdisabled⟩
  have hfewer : ∀ name ∈ appendNew [] c.languages.disabled,
      ∃ l, languageOf "languages.disabled" name = .ok l := by
    intro name hname
    exact hnames name ((mem_appendNew.1 hname).resolve_left List.not_mem_nil)
  obtain ⟨ls', hls'⟩ := exists_mapM_eq_ok_iff.2 hfewer
  rw [initial_merge]
  exact bind_eq_ok_iff.2 ⟨_, hlikelihood, bind_eq_ok_iff.2 ⟨_, hmodifiers,
    bind_eq_ok_iff.2 ⟨ls', hls', h⟩⟩⟩

theorem initial_merge_eq_iff {c : Config} :
    initial.merge c = c ↔
      initial.extraction.excludePatterns <+: c.extraction.excludePatterns ∧
        c.extraction.excludePatterns.Nodup ∧ c.languages.disabled.Nodup := by
  have hinitial : initial.extraction.excludePatterns.Nodup := by decide
  have hpatterns := @appendNew_eq_right_iff _ c.extraction.excludePatterns hinitial
  have hdisabled := @appendNew_eq_right_iff _ c.languages.disabled List.nodup_nil
  rw [initial_merge, ← and_assoc, ← hpatterns]
  obtain ⟨⟨_, _, patterns⟩, _, ⟨disabled, _⟩, _⟩ := c
  simpa using fun _ => hdisabled

/-! ## Writing a file -/

/-- Whether the text of a configuration is read as its document. -/
def readsBack (c : Config) : Bool :=
  match c.encode with
  | .ok doc => (Toml.read? (Toml.write doc)).any (Toml.same · doc)
  | .error _ => true

theorem read?_write_of_readsBack {c : Config} {doc : Toml} (h : c.readsBack = true)
    (hdoc : c.encode = .ok doc) : Toml.read? (Toml.write doc) = some doc := by
  unfold readsBack at h
  rw [hdoc] at h
  simp only at h
  cases hread : Toml.read? (Toml.write doc) with
  | none =>
    rw [hread] at h
    cases h
  | some doc' =>
    rw [hread] at h
    exact congrArg some (Toml.eq_of_same h)

variable {fs fs' : Files} {dir : String}

/-- A configuration is written into a file in its directory, or only the directory is made. -/
theorem writeFile_cases {answer : Except ConfigError Unit} {fs₁ : Files} (c : Config)
    (hmake : makeDirectory fs dir = (answer, fs₁)) :
    (∃ e, c.writeFile fs dir = (.error e, fs₁)) ∨
      ∃ doc n fs', c.encode = .ok doc ∧ fs₁.locate (Path.join dir fileName) = .ok n ∧
        fs₁.Saved n (Text.bytes (Toml.write doc)) fs' ∧ c.writeFile fs dir = (.ok (), fs') := by
  rw [writeFile, hmake]
  cases answer with
  | error e => exact .inl ⟨e, rfl⟩
  | ok _ =>
    rw [fileText]
    cases c.encode with
    | error e => exact .inl ⟨e, rfl⟩
    | ok doc =>
      simp only [bind, Except.bind, pure, Except.pure]
      cases hsave : fs₁.save (Path.join dir fileName) (Text.bytes (Toml.write doc)) with
      | error cause => exact .inl ⟨_, rfl⟩
      | ok fs' =>
        have hparent : ∀ n, fs₁.locate (Path.join dir fileName) = .ok n →
            fs₁.isDirectoryAt n.dropLast = true := by
          intro n hn
          obtain ⟨p, hp, rfl⟩ :=
            Files.locate_join (by decide) (by decide) (by decide) (by decide) hn
          rwa [List.dropLast_concat]
        obtain ⟨n, hn, hsaved⟩ := Files.saved_of_save hsave hparent
        exact .inr ⟨doc, n, fs', rfl, hn, hsaved, rfl⟩

/-- A file that was written is found and has the configuration. -/
theorem readFile?_of_saved {c : Config} {doc : Toml} {n : Place} {path : String}
    (hdoc : c.encode = .ok doc) (hread : Toml.read? (Toml.write doc) = some doc)
    (hpath : fs.locate path = .ok n) (hsaved : fs.Saved n (Text.bytes (Toml.write doc)) fs') :
    readFile? fs' path = .ok (some c) := by
  have hdocument : document? fs' path = some doc := by
    rw [document?, hsaved.readText_eq hpath]
    exact hread
  exact readFile?_eq_ok hdocument (decode_of_encode hdoc)

end Config

namespace Loader

variable {l : Loader} {fs fs' : Files} {dir workspace : String} {c : Config}

/-- A configuration that passes the checks is saved for a workspace. Its text is read as the
document that it was made of, and the loader finds no global layer. -/
structure SavedAlone (l : Loader) (fs : Files) (workspace : String) (c : Config) (fs' : Files) :
    Prop where
  valid : c.validate = .ok ()
  readsBack : ∀ doc, c.encode = .ok doc → Toml.read? (Toml.write doc) = some doc
  saved : saveLocal fs workspace c = (.ok (), fs')
  alone : (l.loadGlobal fs').1 = .ok none

/-- All of this can be tried. -/
theorem savedAlone_of_checks (hvalid : c.validate.isOk = true) (hread : c.readsBack = true)
    (hsave : (saveLocal fs workspace c).1.isOk = true)
    (hnone : (saveLocal fs workspace c).2.exists? (Path.join dir Config.fileName) = false) :
    SavedAlone (ofDirectory dir) fs workspace c (saveLocal fs workspace c).2 where
  valid := eq_ok_of_isOk hvalid
  readsBack _ := Config.read?_write_of_readsBack hread
  saved := Prod.ext (eq_ok_of_isOk hsave) rfl
  alone := by
    generalize (saveLocal fs workspace c).2 = fs' at hnone
    rw [loadGlobal_of_not_cached _ _ rfl]
    change Config.readFile? fs' (Path.join dir Config.fileName) = .ok none
    rw [Config.readFile?, hnone]
    rfl

/-- What was saved is one layer over the initial configuration. -/
theorem SavedAlone.load_eq (h : SavedAlone l fs workspace c fs') :
    (l.load fs' workspace none).1 = .ok (Config.initial.merge c) := by
  have hsave := h.saved
  rcases Config.writeFile_cases c (Prod.eta _).symm with
    ⟨e, herror⟩ | ⟨doc, n, fs'', hdoc, hn, hsaved, hok⟩
  · rw [saveLocal, herror] at hsave
    cases hsave
  · rw [saveLocal, hok] at hsave
    cases hsave
    have hlocal : loadLocal fs' workspace = .ok (some c) :=
      Config.readFile?_of_saved hdoc (h.readsBack doc hdoc) hn hsaved
    rw [Loader.load_eq, hlocal, h.alone]
    change (Config.initial.merge c).validate.map (fun _ => Config.initial.merge c) = _
    rw [Config.validate_initial_merge h.valid]
    rfl

/-- A configuration that is saved is loaded with the initial patterns before its own and without the
repetitions in its lists; every other value is the one that was saved. This is the configuration
itself just when its patterns begin with the initial ones and neither list has a repetition. -/
theorem load_saveLocal (h : SavedAlone l fs workspace c fs') :
    (l.load fs' workspace none).1 = .ok { c with
        extraction := { c.extraction with
          excludePatterns := appendNew Config.initial.extraction.excludePatterns
            c.extraction.excludePatterns }
        languages := { c.languages with disabled := appendNew [] c.languages.disabled } } ∧
      ((l.load fs' workspace none).1 = .ok c ↔
        Config.initial.extraction.excludePatterns <+: c.extraction.excludePatterns ∧
          c.extraction.excludePatterns.Nodup ∧ c.languages.disabled.Nodup) := by
  rw [h.load_eq]
  refine ⟨congrArg Except.ok (Config.initial_merge c), ?_⟩
  rw [Except.ok.injEq, Config.initial_merge_eq_iff]

/-- A configuration with a pattern more than the initial ones. -/
def widened : Config :=
  { Config.initial with
    extraction := { ExtractionConfig.initial with
      excludePatterns := ExtractionConfig.initial.excludePatterns ++ ["docs/**"] }
    mutation := { MutationConfig.initial with seed := 7 }
    languages := { LanguagesConfig.initial with disabled := ["go"] } }

theorem load_saveLocal_widened :
    ((ofDirectory "global").load (saveLocal .empty "ws" widened).2 "ws" none).1 = .ok widened := by
  have h : SavedAlone (ofDirectory "global") .empty "ws" widened
      (saveLocal .empty "ws" widened).2 :=
    savedAlone_of_checks (by decide +kernel) (by decide +kernel) (by decide +kernel)
      (by decide +kernel)
  exact (load_saveLocal h).2.2 (by decide)

/-- A configuration without patterns. -/
def bare : Config :=
  { Config.initial with extraction := { ExtractionConfig.initial with excludePatterns := [] } }

/-- A configuration without patterns is saved, and what is loaded then has the initial ones. -/
theorem load_saveLocal_bare :
    ∃ fs', SavedAlone (ofDirectory "global") .empty "ws" bare fs' ∧
      ((ofDirectory "global").load fs' "ws" none).1 ≠ .ok bare := by
  have h : SavedAlone (ofDirectory "global") .empty "ws" bare (saveLocal .empty "ws" bare).2 :=
    savedAlone_of_checks (by decide +kernel) (by decide +kernel) (by decide +kernel)
      (by decide +kernel)
  refine ⟨_, h, ?_⟩
  rw [h.load_eq, Ne, Except.ok.injEq, Config.initial_merge_eq_iff]
  decide

end Loader
end Mutagen
