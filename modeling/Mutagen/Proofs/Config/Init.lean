import Mutagen.Proofs.Config.Saved

/-!
# Initial files

A file of initial values can be put into the global directory or into the one of a
workspace. A file that is there already stays as it is. A new one is one layer more, but a
layer that says nothing: it lies over the initial configuration or over layers that have
all the initial patterns. So no load is changed by it. The directory that is made for the
file can change one, if a layer is looked for on a path that leads through it.
-/
namespace Mutagen
namespace Config

variable {fs fs₁ fs' : Files} {dir path : String}

/-! ## Putting the file there -/

theorem makeDirectory_snd (fs : Files) (dir : String) :
    (makeDirectory fs dir).2 = if fs.exists? dir then fs else (fs.makeDirectory dir).2 := by
  unfold makeDirectory
  split
  · rfl
  · cases fs.makeDirectory dir with
    | mk answer made => cases answer <;> rfl

theorem extends_makeDirectory (fs : Files) (dir : String) :
    fs.Extends (makeDirectory fs dir).2 := by
  rw [makeDirectory_snd]
  split
  · exact .refl fs
  · exact fs.extends_makeDirectory dir

theorem exists?_makeDirectory (h : makeDirectory fs dir = (.ok (), fs₁)) :
    fs₁.exists? dir = true := by
  unfold makeDirectory at h
  split at h
  · rename_i hthere
    cases h
    exact hthere
  · split at h
    · rename_i hmake
      cases h
      exact Files.exists?_makeDirectory hmake
    · cases h

/-- Only the directory is made, for a mistake or since a file is there, or the initial configuration
is written where nothing was. -/
theorem initDirectory_cases {answer : Except ConfigError Unit}
    (hmake : makeDirectory fs dir = (answer, fs₁)) :
    (initDirectory fs dir).2 = fs₁ ∧
        (∀ path, (initDirectory fs dir).1 = .ok path → fs₁.exists? path = true) ∨
      ∃ doc n fs', fs₁.exists? (Path.join dir fileName) = false ∧ initial.encode = .ok doc ∧
        fs₁.locate (Path.join dir fileName) = .ok n ∧
        fs₁.Saved n (Text.bytes (Toml.write doc)) fs' ∧
        initDirectory fs dir = (.ok (Path.join dir fileName), fs') := by
  unfold initDirectory
  rw [hmake]
  cases answer with
  | error e => exact .inl ⟨rfl, fun path hpath => by cases hpath⟩
  | ok _ =>
    cases hthere : fs₁.exists? (Path.join dir fileName) with
    | true =>
      simp only [hthere, if_true]
      refine .inl ⟨trivial, fun path hpath => ?_⟩
      cases hpath
      exact hthere
    | false =>
      -- the file is written with a second look at the directory, which is there by now
      have hagain : makeDirectory fs₁ dir = (.ok (), fs₁) := by
        rw [makeDirectory, if_pos (exists?_makeDirectory hmake)]
      simp only [hthere]
      rcases writeFile_cases initial hagain with ⟨e, herror⟩ | ⟨doc, n, fs', hdoc, hn, hsaved, hok⟩
      · rw [herror]
        exact .inl ⟨rfl, fun path hpath => by cases hpath⟩
      · rw [hok]
        exact .inr ⟨doc, n, fs', trivial, hdoc, hn, hsaved, rfl⟩

/-- All that was there is kept. -/
theorem extends_initDirectory (fs : Files) (dir : String) :
    fs.Extends (initDirectory fs dir).2 := by
  refine (extends_makeDirectory fs dir).trans ?_
  rcases initDirectory_cases (Prod.eta (makeDirectory fs dir)).symm with
    ⟨hkept, -⟩ | ⟨doc, n, fs', hnew, -, hn, hsaved, hok⟩
  · rw [hkept]
    exact .refl _
  · rw [hok]
    exact hsaved.toExtends (Files.at?_eq_none hn hnew)

theorem exists?_initDirectory (h : (initDirectory fs dir).1 = .ok path) :
    (initDirectory fs dir).2.exists? path = true := by
  rcases initDirectory_cases (Prod.eta (makeDirectory fs dir)).symm with
    ⟨hkept, hthere⟩ | ⟨doc, n, fs', -, -, hn, hsaved, hok⟩
  · rw [hkept]
    exact hthere path h
  · rw [hok] at h ⊢
    cases h
    exact hsaved.exists?_iff_or.2 (.inr hn)

/-! ## What is read then -/

/-- What is read in the place of a layer, before and after: the same, or the initial configuration
where there was nothing. -/
def Filled (before after : Except ConfigError (Option Config)) : Prop :=
  after = before ∨ before = .ok none ∧ after = .ok (some initial)

/-- What follows is the same when it does not tell the initial configuration from none. -/
theorem Filled.bind_eq {α : Type} {before after : Except ConfigError (Option Config)}
    {f : Option Config → Except ConfigError α} (h : Filled before after)
    (hf : f (some initial) = f none) : (after >>= f) = (before >>= f) := by
  rcases h with rfl | ⟨rfl, rfl⟩
  · rfl
  · exact hf

/-- What does not come into view reads as before. -/
theorem readFile?_of_extends (h : fs.Extends fs')
    (hpath : fs'.exists? path = true → fs.exists? path = true) :
    readFile? fs' path = readFile? fs path := by
  unfold readFile?
  cases hthere : fs.exists? path with
  | true =>
    have hread : readFile fs' path = readFile fs path := by
      rw [readFile, readFile, h.readText hthere]
    rw [h.exists? hthere, hread]
  | false =>
    have hhidden : fs'.exists? path = false := by
      rw [← Bool.not_eq_true]
      intro hafter
      rw [hpath hafter] at hthere
      cases hthere
    rw [hhidden]
    rfl

/-- The text of the initial configuration is read as its document. -/
theorem readsBack_initial : initial.readsBack = true := by
  decide +kernel

theorem filled_of_saved {file : String} {doc : Toml} {n : Place} (hnew : fs.exists? file = false)
    (hfile : fs.locate file = .ok n) (hdoc : initial.encode = .ok doc)
    (hsaved : fs.Saved n (Text.bytes (Toml.write doc)) fs') (path : String) :
    Filled (readFile? fs path) (readFile? fs' path) := by
  -- a path comes to the new file or sees what it saw before
  by_cases hpath : fs.locate path = .ok n
  · have hhidden : fs.exists? path = false := by
      rw [Files.exists?_eq_of_locate hpath hfile, hnew]
    refine .inr ⟨by rw [readFile?, hhidden]; rfl, ?_⟩
    exact readFile?_of_saved hdoc (read?_write_of_readsBack readsBack_initial hdoc) hpath hsaved
  · refine .inl (readFile?_of_extends (hsaved.toExtends (Files.at?_eq_none hfile hnew)) ?_)
    intro hafter
    exact (hsaved.exists?_iff_or.1 hafter).resolve_right hpath

theorem filled_initDirectory (fs : Files) (dir path : String) :
    Filled (readFile? (makeDirectory fs dir).2 path) (readFile? (initDirectory fs dir).2 path) := by
  rcases initDirectory_cases (Prod.eta (makeDirectory fs dir)).symm with
    ⟨hkept, -⟩ | ⟨doc, n, fs', hnew, hdoc, hn, hsaved, hok⟩
  · rw [hkept]
    exact .inl rfl
  · rw [hok]
    exact filled_of_saved hnew hn hdoc hsaved path

theorem readFile?_makeDirectory (h : fs.reveals dir path = false) :
    readFile? (makeDirectory fs dir).2 path = readFile? fs path := by
  refine readFile?_of_extends (extends_makeDirectory fs dir) ?_
  rw [makeDirectory_snd]
  split
  · exact id
  · intro hmade
    rw [Files.reveals, hmade, Bool.and_true, Bool.not_eq_false'] at h
    exact h

end Config

namespace Loader

/-! ## Loads -/

theorem layered_initial (global : Option Config) :
    layered (layered .initial global) (some .initial) = layered .initial global := by
  refine Config.merge_initial ?_
  intro s hs
  cases global with
  | none => exact hs
  | some g => exact mem_appendNew.2 (.inl hs)

theorem effective_initial_layer (global : Option Config) (o : Option ConfigOverrides) :
    effective global (some .initial) o = effective global none o := by
  have hlayers : combine global (some .initial) o = combine global none o := by
    unfold combine
    rw [layered_initial]
    rfl
  rw [effective, effective, hlayers]

theorem effective_initial_global (layer : Option Config) (o : Option ConfigOverrides) :
    effective (some .initial) layer o = effective none layer o := by
  have hlayers : combine (some .initial) layer o = combine none layer o := by
    have hnothing : layered .initial (some .initial) = .initial := layered_initial none
    unfold combine
    rw [hnothing]
    rfl
  rw [effective, effective, hlayers]

/-- The paths on which layers are looked for. -/
def layerPaths (l : Loader) (workspace : String) : List String :=
  l.globalPath?.toList ++ [localPath workspace]

variable {l : Loader} {fs fs' : Files} {workspace : String}

theorem filled_loadGlobal
    (h : ∀ path ∈ l.layerPaths workspace,
      Config.Filled (Config.readFile? fs path) (Config.readFile? fs' path)) :
    Config.Filled (l.loadGlobal fs).1 (l.loadGlobal fs').1 := by
  cases hcache : l.cache with
  | some c =>
    rw [loadGlobal_of_cached _ _ hcache, loadGlobal_of_cached _ _ hcache]
    exact .inl rfl
  | none =>
    rw [loadGlobal_of_not_cached _ _ hcache, loadGlobal_of_not_cached _ _ hcache]
    cases hdir : l.globalDirectory with
    | none => exact .inl rfl
    | some dir => exact h (Path.join dir Config.fileName) (by simp [layerPaths, globalPath?, hdir])

/-- Initial values in the place of layers that were not there change no load. -/
theorem load_eq_of_filled
    (h : ∀ path ∈ l.layerPaths workspace,
      Config.Filled (Config.readFile? fs path) (Config.readFile? fs' path))
    (o : Option ConfigOverrides) : (l.load fs' workspace o).1 = (l.load fs workspace o).1 := by
  have hlocal : Config.Filled (loadLocal fs workspace) (loadLocal fs' workspace) :=
    h (localPath workspace) (by simp [layerPaths])
  have hglobal : ∀ layer, ((l.loadGlobal fs').1 >>= fun global => effective global layer o) =
      (l.loadGlobal fs).1 >>= fun global => effective global layer o := by
    intro layer
    exact (filled_loadGlobal h).bind_eq (effective_initial_global layer o)
  rw [load_eq, load_eq]
  simp only [hglobal]
  refine hlocal.bind_eq ?_
  simp only [effective_initial_layer]

/-- Where a file of initial values is put. -/
inductive Level where
  | global
  | workspace
  deriving DecidableEq, Repr

/-- The directory of a level, if there is one. -/
def directory? (l : Loader) (workspace : String) : Level → Option String
  | .global => l.globalDirectory
  | .workspace => some (localDirectory workspace)

/-- Puts a file of initial values in its place. -/
def init (l : Loader) (fs : Files) (workspace : String) : Level → Except ConfigError String × Files
  | .global => l.initGlobal fs
  | .workspace => initLocal fs workspace

theorem init_eq (l : Loader) (fs : Files) (workspace : String) (level : Level) :
    l.init fs workspace level =
      match l.directory? workspace level with
      | some dir => Config.initDirectory fs dir
      | none => (.error .noHome, fs) := by
  cases level with
  | global => rfl
  | workspace => rfl

/-- A global file alone. -/
def globalFiles : Files where
  entries := [(["global".toList, "config.toml".toList], Text.bytes "mutation.seed = 7\n".toList)]
  folders := [["ws".toList]]
  current := []

/-- A file for a workspace, and no directory beside the workspace. -/
def workspaceFiles : Files where
  entries := [(["ws".toList, ".bugforge".toList, "config.toml".toList],
    Text.bytes "mutation.seed = 7\n".toList)]
  folders := []
  current := []

end Loader
end Mutagen
