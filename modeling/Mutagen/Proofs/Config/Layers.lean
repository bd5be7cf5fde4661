import Mutagen.Proofs.Config.Cache

/-!
# Which layer a setting comes from

The single values of a configuration are its settings. A file that does not write a
setting leaves it at its initial value, and a layer that has the initial value of a
setting says nothing about it. So the layers above win with every value but this one.
-/
namespace Mutagen

/-! ## Settings and their values -/

/-- The single values of a configuration. -/
inductive Setting where
  | maxEntities
  | maxFileSizeKb
  | seed
  | likelihood
  | maxMutants
  | level
  deriving DecidableEq, Repr

inductive Scalar where
  | whole (n : UInt64)
  | real (x : Float)
  | text (s : String)
  deriving DecidableEq, Repr

/-- The value of a setting, if it is made. -/
def Config.value? (c : Config) : Setting → Option Scalar
  | .maxEntities => c.extraction.maxEntities.map .whole
  | .maxFileSizeKb => some (.whole c.extraction.maxFileSizeKb)
  | .seed => some (.whole c.mutation.seed)
  | .likelihood => c.mutation.likelihood.map .real
  | .maxMutants => some (.whole c.mutation.maxMutants)
  | .level => some (.text c.logging.level)

/-- The value that a setting is given for one run. The size of files cannot be given so. -/
def ConfigOverrides.value? (o : ConfigOverrides) : Setting → Option Scalar
  | .maxEntities => o.maxEntities.map .whole
  | .maxFileSizeKb => Option.none
  | .seed => o.seed.map .whole
  | .likelihood => o.likelihood.map .real
  | .maxMutants => o.maxMutants.map .whole
  | .level => o.logLevel.map .text

/-- Of two layers the upper one wins, unless it has the initial value. -/
theorem Config.value?_merge (below above : Config) (s : Setting) :
    (below.merge above).value? s =
      if above.value? s = initial.value? s then below.value? s else above.value? s := by
  cases s with
  | maxEntities =>
    cases h : above.extraction.maxEntities <;>
      simp [value?, merge, ExtractionConfig.merge, initial, ExtractionConfig.initial, h]
  | maxFileSizeKb =>
    by_cases h : above.extraction.maxFileSizeKb = 1024 <;>
      simp [value?, merge, ExtractionConfig.merge, initial, ExtractionConfig.initial, h]
  | seed =>
    by_cases h : above.mutation.seed = 42 <;>
      simp [value?, merge, MutationConfig.merge, initial, MutationConfig.initial, h]
  | likelihood =>
    cases h : above.mutation.likelihood <;>
      simp [value?, merge, MutationConfig.merge, initial, MutationConfig.initial, h]
  | maxMutants =>
    by_cases h : above.mutation.maxMutants = 0 <;>
      simp [value?, merge, MutationConfig.merge, initial, MutationConfig.initial, h]
  | level =>
    by_cases h : above.logging.level = "info" <;>
      simp [value?, merge, LoggingConfig.merge, initial, LoggingConfig.initial, h]

/-- Over the initial configuration every layer wins. -/
theorem Config.value?_initial_merge (c : Config) (s : Setting) :
    (initial.merge c).value? s = c.value? s := by
  rw [value?_merge]
  split
  · rename_i h
    exact h.symm
  · rfl

theorem Config.value?_override (c : Config) (o : ConfigOverrides) (s : Setting) :
    (c.override o).value? s = (o.value? s).or (c.value? s) := by
  cases s with
  | maxEntities => cases h : o.maxEntities <;> simp [override, value?, ConfigOverrides.value?, h]
  | maxFileSizeKb => rfl
  | seed => cases h : o.seed <;> simp [override, value?, ConfigOverrides.value?, h]
  | likelihood => cases h : o.likelihood <;> simp [override, value?, ConfigOverrides.value?, h]
  | maxMutants => cases h : o.maxMutants <;> simp [override, value?, ConfigOverrides.value?, h]
  | level => cases h : o.logLevel <;> simp [override, value?, ConfigOverrides.value?, h]

/-- Settings of the run come first, then the upper layer where it does not have the initial value,
then the global one. -/
theorem Loader.value?_combine (g c : Config) (o : Option ConfigOverrides) (s : Setting) :
    (combine (some g) (some c) o).value? s =
      (o.bind (·.value? s)).or
        (if c.value? s = Config.initial.value? s then g.value? s else c.value? s) := by
  have hlayers : (layered (layered .initial (some g)) (some c)).value? s =
      if c.value? s = Config.initial.value? s then g.value? s else c.value? s := by
    rw [layered, layered, Config.value?_merge, Config.value?_initial_merge]
  cases o with
  | none => exact hlayers
  | some o =>
    rw [combine, Config.value?_override, hlayers]
    rfl

/-! ## Settings in documents -/

namespace Setting

/-- The names of the sections of a document. -/
def sectionNames : List String := ["extraction", "mutation", "languages", "logging"]

/-- The name of the section of a setting. -/
def sectionName : Setting → String
  | maxEntities | maxFileSizeKb => "extraction"
  | seed | likelihood | maxMutants => "mutation"
  | level => "logging"

/-- The keys of this section. -/
def sectionKeys : Setting → List String
  | maxEntities | maxFileSizeKb => ["max_entities", "max_file_size_kb", "exclude_patterns"]
  | seed | likelihood | maxMutants => ["seed", "likelihood", "max_bugs_per_entity", "modifiers"]
  | level => ["level"]

def key : Setting → String
  | maxEntities => "max_entities"
  | maxFileSizeKb => "max_file_size_kb"
  | seed => "seed"
  | likelihood => "likelihood"
  | maxMutants => "max_bugs_per_entity"
  | level => "level"

/-- What a document has under the key of a setting. -/
def written? (s : Setting) (doc : Toml) : Option Toml := do
  let sections ← Config.sectionOf sectionNames doc
  let part ← sections.lookup s.sectionName
  let members ← Config.sectionOf s.sectionKeys part
  members.lookup s.key

def decode (s : Setting) (v : Toml) : Option Scalar :=
  match s with
  | maxEntities | maxFileSizeKb | seed | maxMutants => (Config.decodeWord64 v).map .whole
  | likelihood => (Config.decodeFloat v).map .real
  | level => (Config.decodeText v).map .text

/-- The value that a document gives to a setting. -/
def said? (s : Setting) (doc : Toml) : Option Scalar := (s.written? doc).bind s.decode

end Setting

namespace Config

theorem member_eq_some {α : Type} {entries : List (String × Toml)} {key : String}
    {f : Toml → Option α} {missing a : α} (h : member entries key f missing = some a) :
    (entries.lookup key = none ∧ a = missing) ∨
      ∃ v, entries.lookup key = some v ∧ f v = some a := by
  unfold member at h
  cases hv : entries.lookup key with
  | none =>
    rw [hv] at h
    exact .inl ⟨rfl, (Option.some.inj h).symm⟩
  | some v =>
    rw [hv] at h
    exact .inr ⟨v, rfl, h⟩

/-- A member that is always there has the value in its document, or else the initial one. -/
theorem value_of_member {α : Type} {entries : List (String × Toml)} {key : String}
    {f : Toml → Option α} {missing a : α} (scalar : α → Scalar)
    (h : member entries key f missing = some a) :
    some (scalar a) = ((entries.lookup key).bind fun v => (f v).map scalar).or
      (some (scalar missing)) := by
  rcases member_eq_some h with ⟨hnone, rfl⟩ | ⟨v, hv, hf⟩
  · simp [hnone]
  · simp [hv, hf]

/-- A member that can be left open has the value in its document, if there is one. -/
theorem value?_of_member {α : Type} {entries : List (String × Toml)} {key : String}
    {f : Toml → Option α} {a : Option α} (scalar : α → Scalar)
    (h : member entries key (fun v => (f v).map some) none = some a) :
    a.map scalar = ((entries.lookup key).bind fun v => (f v).map scalar).or none := by
  rcases member_eq_some h with ⟨hnone, rfl⟩ | ⟨v, hv, hf⟩
  · simp [hnone]
  · obtain ⟨x, hx, rfl⟩ := Option.map_eq_some_iff.1 hf
    simp [hv, hx]

/-- A section that is left out leaves out its members. -/
theorem value_of_section {α : Type} {sections : List (String × Toml)} {name : String}
    {f : Toml → Option α} {missing part : α} (h : member sections name f missing = some part)
    {keys : List String} {key : String} {read : Toml → Option Scalar} (got : α → Option Scalar)
    (hpart : ∀ v p, f v = some p → ∃ members, sectionOf keys v = some members ∧
      got p = ((members.lookup key).bind read).or (got missing)) :
    got part = (((sections.lookup name).bind fun v =>
      (sectionOf keys v).bind (·.lookup key)).bind read).or (got missing) := by
  rcases member_eq_some h with ⟨hnone, rfl⟩ | ⟨v, hv, hf⟩
  · simp [hnone]
  · obtain ⟨members, hmembers, hgot⟩ := hpart v part hf
    rwa [hv, Option.bind_some, hmembers, Option.bind_some]

theorem decodeExtraction_eq_some {v : Toml} {c : ExtractionConfig}
    (h : decodeExtraction v = some c) :
    ∃ members, sectionOf (Setting.sectionKeys .maxEntities) v = some members ∧
      member members "max_entities" (fun v => (decodeWord64 v).map some) none =
        some c.maxEntities ∧
      member members "max_file_size_kb" decodeWord64 1024 = some c.maxFileSizeKb := by
  simp only [decodeExtraction, Option.bind_eq_bind, Option.bind_eq_some_iff] at h
  obtain ⟨members, hmembers, a, ha, b, hb, d, -, hc⟩ := h
  cases hc
  exact ⟨members, hmembers, ha, hb⟩

theorem decodeMutation_eq_some {v : Toml} {c : MutationConfig} (h : decodeMutation v = some c) :
    ∃ members, sectionOf (Setting.sectionKeys .seed) v = some members ∧
      member members "seed" decodeWord64 42 = some c.seed ∧
      member members "likelihood" (fun v => (decodeFloat v).map some) none = some c.likelihood ∧
      member members "max_bugs_per_entity" decodeWord64 0 = some c.maxMutants := by
  simp only [decodeMutation, Option.bind_eq_bind, Option.bind_eq_some_iff] at h
  obtain ⟨members, hmembers, a, ha, b, hb, d, hd, e, -, hc⟩ := h
  cases hc
  exact ⟨members, hmembers, ha, hb, hd⟩

theorem decodeLogging_eq_some {v : Toml} {c : LoggingConfig} (h : decodeLogging v = some c) :
    ∃ members, sectionOf (Setting.sectionKeys .level) v = some members ∧
      member members "level" decodeText "info" = some c.level := by
  simp only [decodeLogging, Option.bind_eq_bind, Option.bind_eq_some_iff] at h
  obtain ⟨members, hmembers, a, ha, hc⟩ := h
  cases hc
  exact ⟨members, hmembers, ha⟩

theorem decode_eq_some {doc : Toml} {c : Config} (h : decode doc = some c) :
    ∃ sections, sectionOf Setting.sectionNames doc = some sections ∧
      member sections "extraction" decodeExtraction .initial = some c.extraction ∧
      member sections "mutation" decodeMutation .initial = some c.mutation ∧
      member sections "logging" decodeLogging .initial = some c.logging := by
  simp only [decode, Option.bind_eq_bind, Option.bind_eq_some_iff] at h
  obtain ⟨sections, hsections, a, ha, b, hb, d, -, e, he, hc⟩ := h
  cases hc
  exact ⟨sections, hsections, ha, hb, he⟩

/-- A configuration has the settings that its document gives, and else the initial ones. -/
theorem value?_of_decode {doc : Toml} {c : Config} (h : decode doc = some c) (s : Setting) :
    c.value? s = (s.said? doc).or (initial.value? s) := by
  obtain ⟨sections, hsections, hextraction, hmutation, hlogging⟩ := decode_eq_some h
  have hwritten : s.written? doc = (sections.lookup s.sectionName).bind fun v =>
      (sectionOf s.sectionKeys v).bind (·.lookup s.key) := by
    rw [Setting.written?, hsections]
    rfl
  rw [Setting.said?, hwritten]
  cases s with
  | maxEntities =>
    refine value_of_section hextraction (fun p => p.maxEntities.map .whole) ?_
    intro v p hp
    obtain ⟨members, hmembers, hmax, -⟩ := decodeExtraction_eq_some hp
    exact ⟨members, hmembers, value?_of_member .whole hmax⟩
  | maxFileSizeKb =>
    refine value_of_section hextraction (fun p => some (.whole p.maxFileSizeKb)) ?_
    intro v p hp
    obtain ⟨members, hmembers, -, hsize⟩ := decodeExtraction_eq_some hp
    exact ⟨members, hmembers, value_of_member .whole hsize⟩
  | seed =>
    refine value_of_section hmutation (fun p => some (.whole p.seed)) ?_
    intro v p hp
    obtain ⟨members, hmembers, hseed, -⟩ := decodeMutation_eq_some hp
    exact ⟨members, hmembers, value_of_member .whole hseed⟩
  | likelihood =>
    refine value_of_section hmutation (fun p => p.likelihood.map .real) ?_
    intro v p hp
    obtain ⟨members, hmembers, -, hlikelihood, -⟩ := decodeMutation_eq_some hp
    exact ⟨members, hmembers, value?_of_member .real hlikelihood⟩
  | maxMutants =>
    refine value_of_section hmutation (fun p => some (.whole p.maxMutants)) ?_
    intro v p hp
    obtain ⟨members, hmembers, -, -, hmax⟩ := decodeMutation_eq_some hp
    exact ⟨members, hmembers, value_of_member .whole hmax⟩
  | level =>
    refine value_of_section hlogging (fun p => some (.text p.level)) ?_
    intro v p hp
    obtain ⟨members, hmembers, hlevel⟩ := decodeLogging_eq_some hp
    exact ⟨members, hmembers, value_of_member .text hlevel⟩

end Config

/-! ## Loading two files -/

/-- A file that can be read is there. -/
theorem Files.exists?_of_readText {fs : Files} {path : String} {t : Text}
    (h : fs.readText path = .ok t) : fs.exists? path = true := by
  unfold readText read at h
  cases hlocate : fs.locate path with
  | error err =>
    rw [hlocate] at h
    cases h
  | ok p =>
    cases hat : fs.at? p with
    | none =>
      rw [hlocate] at h
      simp only [bind, Except.bind, hat] at h
      cases h
    | some b => simp [exists?, isFile, leadsTo, hlocate, isFileAt, hat]

/-- The document in a file. -/
def Config.document? (fs : Files) (path : String) : Option Toml :=
  (fs.readText path).toOption.bind Toml.read?

theorem Config.readFile?_eq_ok {fs : Files} {path : String} {doc : Toml} {c : Config}
    (hdoc : document? fs path = some doc) (hdecode : decode doc = some c) :
    readFile? fs path = .ok (some c) := by
  obtain ⟨t, ht, hread⟩ := Option.bind_eq_some_iff.1 hdoc
  have htext : fs.readText path = .ok t := by
    cases h : fs.readText path with
    | error err =>
      rw [h] at ht
      cases ht
    | ok t' =>
      rw [h] at ht
      exact congrArg Except.ok (Option.some.inj ht)
  have hfile : readFile fs path = .ok c := by
    simp only [readFile, htext, hread, Option.bind_some, hdecode]
  rw [readFile?, if_pos (Files.exists?_of_readText htext), hfile]
  rfl

namespace Loader

variable {fs : Files} {dir workspace : String} {globalDoc upperDoc : Toml} {g c : Config}

/-- With a global file and a file of the workspace that can both be read, and layers that pass the
checks together, a load succeeds. Every setting has the value of the run, if there is one. Without
it, a value in the file of the workspace is the one that is loaded, unless it is the initial value
and the global file gives another one. A setting that this file does not write has the value of the
global file. -/
theorem load_settings (o : Option ConfigOverrides)
    (hglobal : Config.document? fs (Path.join dir Config.fileName) = some globalDoc)
    (hupper : Config.document? fs (localPath workspace) = some upperDoc)
    (hg : Config.decode globalDoc = some g) (hc : Config.decode upperDoc = some c)
    (hvalid : (combine (some g) (some c) o).validate = .ok ()) :
    ∃ loaded, ((ofDirectory dir).load fs workspace o).1 = .ok loaded ∧ ∀ s : Setting,
      (∀ v, o.bind (·.value? s) = some v → loaded.value? s = some v) ∧
      (o.bind (·.value? s) = none →
        (∀ v, s.said? upperDoc = some v →
          (loaded.value? s = some v ↔
            Config.initial.value? s ≠ some v ∨ ∀ w, s.said? globalDoc = some w → w = v)) ∧
        (s.said? upperDoc = none →
          ∀ w, s.said? globalDoc = some w → loaded.value? s = some w)) := by
  refine ⟨combine (some g) (some c) o, ?_, ?_⟩
  · rw [load_eq, loadLocal, Config.readFile?_eq_ok hupper hc,
      loadGlobal_of_not_cached _ _ rfl]
    change (globalFile (some dir) fs >>= fun global => effective global (some c) o) = _
    rw [globalFile, Config.readFile?_eq_ok hglobal hg]
    change effective (some g) (some c) o = _
    rw [effective, hvalid]
    rfl
  · intro s
    have hvalue := value?_combine g c o s
    have hgs := Config.value?_of_decode hg s
    have hcs := Config.value?_of_decode hc s
    refine ⟨?_, ?_⟩
    · intro v hv
      rw [hvalue, hv, Option.some_or]
    · intro hnone
      rw [hnone, Option.none_or] at hvalue
      refine ⟨?_, ?_⟩
      · intro v hv
        rw [hv, Option.some_or] at hcs
        rw [hvalue, hcs]
        by_cases hfirst : some v = Config.initial.value? s
        · -- the value counts as not given, and the global file decides
          rw [if_pos hfirst, hgs, ← hfirst]
          cases s.said? globalDoc <;> simp
        · simp [hfirst, Ne.symm hfirst]
      · intro hunsaid w hw
        rw [hunsaid, Option.none_or] at hcs
        rw [hvalue, if_pos hcs, hgs, hw, Option.some_or]

theorem eq_ok_of_isOk {ε : Type} {x : Except ε Unit} (h : x.isOk = true) : x = .ok () := by
  cases x with
  | error err => cases h
  | ok a => rfl

/-- A global file and a file of the workspace `ws`. -/
def layerFiles (global upper : String) : Files where
  entries := [(["global".toList, "config.toml".toList], Text.bytes global.toList),
    (["ws".toList, ".bugforge".toList, "config.toml".toList], Text.bytes upper.toList)]
  folders := []
  current := []

/-- A file of the workspace gives the seed, and the global file gives the log level. -/
theorem load_settings_two_files :
    let fs := layerFiles "mutation.seed = 7\nlogging.level = \"debug\"\n" "mutation.seed = 9\n"
    ∃ loaded, ((ofDirectory "global").load fs "ws" none).1 = .ok loaded ∧
      loaded.value? .seed = some (.whole 9) ∧ loaded.value? .level = some (.text "debug") := by
  intro fs
  have hfiles : ((Config.document? fs (Path.join "global" Config.fileName)).bind fun globalDoc =>
      (Config.document? fs (localPath "ws")).bind fun upperDoc =>
        (Config.decode globalDoc).bind fun g => (Config.decode upperDoc).map fun c =>
          ((combine (some g) (some c) none).validate.isOk, Setting.seed.said? upperDoc,
            Setting.level.said? upperDoc, Setting.level.said? globalDoc)) =
      some (true, some (.whole 9), none, some (.text "debug")) := by
    decide +kernel
  simp only [Option.bind_eq_some_iff, Option.map_eq_some_iff, Prod.mk.injEq] at hfiles
  obtain ⟨_, hglobal, _, hupper, g, hg, c, hc, hvalid, hseed, hunsaid, hlevel⟩ := hfiles
  obtain ⟨loaded, hloaded, hsettings⟩ :=
    load_settings none hglobal hupper hg hc (eq_ok_of_isOk hvalid)
  refine ⟨loaded, hloaded, ?_, ?_⟩
  · exact (((hsettings .seed).2 rfl).1 _ hseed).2 (.inl (by decide))
  · exact ((hsettings .level).2 rfl).2 hunsaid _ hlevel

/-- A seed in the file of the workspace is lost when it is the initial one. -/
theorem load_initial_seed :
    ((Toml.read? "[mutation]\nseed = 42\n".toList).bind fun doc => Setting.seed.said? doc) =
        some (.whole 42) ∧
      ((ofDirectory "global").load
          (layerFiles "[mutation]\nseed = 7\n" "[mutation]\nseed = 42\n") "ws" none).1.toOption.bind
        (·.value? .seed) = some (.whole 7) := by
  decide +kernel

end Loader
end Mutagen
