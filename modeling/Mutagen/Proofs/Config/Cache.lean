import Mathlib.Data.List.DropRight
import Mathlib.Data.List.Induction
import Mutagen.Config.Loader

/-!
# What a loader remembers

A loader keeps the global layer from its first successful read of the global file until
it is cleared, and keeps nothing else. So what it answers depends on the files as they
are, on the settings that it is given, and on the global file as it was at one moment of
the past. That moment can be told from what was done, without looking into the loader.
-/
namespace Mutagen
namespace Loader

/-! ## One load -/

/-- The global layer in the file of a directory. -/
def globalFile (dir : Option String) (fs : Files) : Except ConfigError (Option Config) :=
  match dir with
  | none => .ok none
  | some dir => Config.readFile? fs (Path.join dir Config.fileName)

/-- The layers put together and checked. -/
def effective (global layer : Option Config) (o : Option ConfigOverrides) :
    Except ConfigError Config :=
  (combine global layer o).validate.map fun _ => combine global layer o

variable (l : Loader) (fs : Files)

theorem loadGlobal_of_cached {c : Config} (h : l.cache = some c) :
    l.loadGlobal fs = (.ok (some c), l) := by
  rw [loadGlobal, h]

theorem loadGlobal_of_not_cached (h : l.cache = none) :
    l.loadGlobal fs = (globalFile l.globalDirectory fs,
      { l with cache := (globalFile l.globalDirectory fs).toOption.join }) := by
  obtain ⟨dir, cache⟩ := l
  cases h
  cases dir with
  | none => rfl
  | some dir =>
    simp only [loadGlobal, globalPath?, Option.map_some, globalFile]
    cases Config.readFile? fs (Path.join dir Config.fileName) with
    | error err => rfl
    | ok layer => cases layer <;> rfl

/-- Asking for the global layer fills an empty cache, if the file can be read. -/
theorem loadGlobal_snd :
    (l.loadGlobal fs).2 =
      { l with cache := l.cache.or (globalFile l.globalDirectory fs).toOption.join } := by
  cases h : l.cache with
  | none => rw [l.loadGlobal_of_not_cached fs h, Option.none_or]
  | some c =>
    rw [l.loadGlobal_of_cached fs h, Option.some_or, ← h]

theorem loadLayered_eq (layer : Option Config) (o : Option ConfigOverrides) :
    l.loadLayered fs layer o =
      ((l.loadGlobal fs).1 >>= fun global => effective global layer o, (l.loadGlobal fs).2) := by
  unfold loadLayered
  cases h : l.loadGlobal fs with
  | mk answer l' => cases answer <;> rfl

/-- A load asks for the layer of the workspace, and then, unless there is a mistake in it, for the
global one. -/
theorem load_eq (workspace : String) (o : Option ConfigOverrides) :
    l.load fs workspace o =
      (loadLocal fs workspace >>= fun layer =>
          (l.loadGlobal fs).1 >>= fun global => effective global layer o,
        if (loadLocal fs workspace).isOk then (l.loadGlobal fs).2 else l) := by
  unfold load
  cases loadLocal fs workspace with
  | error err => rfl
  | ok layer => exact l.loadLayered_eq fs layer o

/-- With a file in its place the same is done, but the file must be there. -/
theorem loadFile_eq (path : String) (o : Option ConfigOverrides) :
    l.loadFile fs path o =
      (Config.readFile fs path >>= fun c =>
          (l.loadGlobal fs).1 >>= fun global => effective global (some c) o,
        if (Config.readFile fs path).isOk then (l.loadGlobal fs).2 else l) := by
  unfold loadFile
  cases Config.readFile fs path with
  | error err => rfl
  | ok c => exact l.loadLayered_eq fs (some c) o

/-! ## Histories -/

/-- What can happen to a loader and to the files around it. -/
inductive Action where
  /-- Files are written (`Files.provide`), removed (`Files.remove`) or changed in other ways. -/
  | change (f : Files → Files)
  | load (workspace : String) (o : Option ConfigOverrides)
  | loadFile (path : String) (o : Option ConfigOverrides)
  | loadGlobal
  | clear

namespace Action

def isClear : Action → Bool
  | clear => true
  | _ => false

/-- The files after an action: no use of a loader touches them. -/
def files (fs : Files) : Action → Files
  | change f => f fs
  | _ => fs

/-- Whether an action comes to the global layer, which a mistake in the layer above prevents. -/
def asksGlobal (fs : Files) : Action → Bool
  | load workspace _ => (loadLocal fs workspace).isOk
  | loadFile path _ => (Config.readFile fs path).isOk
  | loadGlobal => true
  | _ => false

end Action

/-- The loader after an action. -/
def perform (l : Loader) (fs : Files) : Action → Loader
  | .change _ => l
  | .load workspace o => (l.load fs workspace o).2
  | .loadFile path o => (l.loadFile fs path o).2
  | .loadGlobal => (l.loadGlobal fs).2
  | .clear => l.clear

/-- The files after actions. -/
def filesAfter (fs : Files) (past : List Action) : Files := past.foldl Action.files fs

/-- Actions with the files as each of them found them. -/
def moments (fs : Files) : List Action → List (Files × Action)
  | [] => []
  | a :: past => (fs, a) :: moments (a.files fs) past

/-- A loader for a directory, made before some actions, after them. -/
def loaderAfter (dir : Option String) (fs : Files) (past : List Action) : Loader :=
  (moments fs past).foldl (fun l m => l.perform m.1 m.2) ⟨dir, none⟩

/-- The moments since the loader was made or last cleared. -/
def sinceClear (ms : List (Files × Action)) : List (Files × Action) :=
  ms.rtakeWhile fun m => !m.2.isClear

/-- What an action reads from the global file of a directory. -/
def read? (dir : Option String) (m : Files × Action) : Option Config :=
  if m.2.asksGlobal m.1 then (globalFile dir m.1).toOption.join else none

theorem read?_eq_some {dir : Option String} {m : Files × Action} {c : Config}
    (h : read? dir m = some c) :
    m.2.asksGlobal m.1 = true ∧ globalFile dir m.1 = .ok (some c) := by
  unfold read? at h
  split at h
  · rename_i hasks
    refine ⟨hasks, ?_⟩
    cases hfile : globalFile dir m.1 with
    | error err => simp [hfile, Except.toOption] at h
    | ok layer => simpa [hfile, Except.toOption] using h
  · cases h

/-- What was found in the global file by the first of the actions that read it, since the loader
was made or last cleared. -/
def firstRead? (dir : Option String) (fs : Files) (past : List Action) : Option Config :=
  (sinceClear (moments fs past)).findSome? (read? dir)

/-- The global layer for what comes after actions: the first that was read, and the file as it is
when none was. -/
def globalLayer (dir : Option String) (fs : Files) (past : List Action) :
    Except ConfigError (Option Config) :=
  match firstRead? dir fs past with
  | some c => .ok (some c)
  | none => globalFile dir (filesAfter fs past)

/-- An action other than clearing keeps what is in the cache, and fills an empty one with what it
reads from the global file. -/
theorem perform_eq (a : Action) :
    l.perform fs a = { l with
      cache := if a.isClear then none else l.cache.or (read? l.globalDirectory (fs, a)) } := by
  have hasked : ∀ asked : Bool, (if asked then (l.loadGlobal fs).2 else l) = { l with
      cache := l.cache.or
        (if asked then (globalFile l.globalDirectory fs).toOption.join else none) } := by
    intro asked
    cases asked with
    | true => exact l.loadGlobal_snd fs
    | false => simp
  cases a with
  | change f => simp [perform, read?, Action.isClear, Action.asksGlobal]
  | load workspace o =>
    rw [perform, load_eq]
    exact hasked _
  | loadFile path o =>
    rw [perform, loadFile_eq]
    exact hasked _
  | loadGlobal => exact hasked true
  | clear => rfl

theorem moments_append_singleton (past : List Action) (a : Action) :
    moments fs (past ++ [a]) = moments fs past ++ [(filesAfter fs past, a)] := by
  induction past generalizing fs with
  | nil => rfl
  | cons b past ih => simp [moments, filesAfter, ih]

theorem loaderAfter_append_singleton (dir : Option String) (past : List Action) (a : Action) :
    loaderAfter dir fs (past ++ [a]) =
      (loaderAfter dir fs past).perform (filesAfter fs past) a := by
  simp [loaderAfter, moments_append_singleton]

theorem sinceClear_append_singleton (ms : List (Files × Action)) (m : Files × Action) :
    sinceClear (ms ++ [m]) = if m.2.isClear then [] else sinceClear ms ++ [m] := by
  rw [sinceClear, List.rtakeWhile_concat]
  cases m.2.isClear <;> rfl

/-- One more action clears what was read, or else reads if nothing was read before. -/
theorem firstRead?_append_singleton (dir : Option String) (past : List Action) (a : Action) :
    firstRead? dir fs (past ++ [a]) =
      if a.isClear then none
      else (firstRead? dir fs past).or (read? dir (filesAfter fs past, a)) := by
  rw [firstRead?, moments_append_singleton, sinceClear_append_singleton]
  cases a.isClear with
  | true => rfl
  | false => simp [firstRead?, List.findSome?_append]

/-- The cache holds what was first read from the global file, and nothing else. -/
theorem loaderAfter_eq (dir : Option String) (past : List Action) :
    loaderAfter dir fs past = ⟨dir, firstRead? dir fs past⟩ := by
  induction past using List.reverseRecOn with
  | nil => rfl
  | append_singleton past a ih =>
    rw [loaderAfter_append_singleton, ih, perform_eq, firstRead?_append_singleton]

/-- What is asked of the global layer after actions is answered by `globalLayer`. -/
theorem loadGlobal_loaderAfter (dir : Option String) (past : List Action) :
    ((loaderAfter dir fs past).loadGlobal (filesAfter fs past)).1 = globalLayer dir fs past := by
  rw [loaderAfter_eq, globalLayer]
  cases h : firstRead? dir fs past with
  | none => rw [loadGlobal_of_not_cached _ _ rfl]
  | some c => rw [loadGlobal_of_cached _ _ rfl]

/-- Whatever was done with a new loader and to the files, a load puts the layer that is now in its
file, and the settings that it is given, over the global layer that was first read since the loader
was last cleared, or over the one in the global file now when none was read. A mistake in the upper
layer comes first, then one in the global layer, then one in the result. The cache only ever holds
what an action found in the global file. -/
theorem load_loaderAfter (dir : Option String) (past : List Action) :
    (∀ workspace o, ((loaderAfter dir fs past).load (filesAfter fs past) workspace o).1 =
        loadLocal (filesAfter fs past) workspace >>= fun layer =>
          globalLayer dir fs past >>= fun global => effective global layer o) ∧
      (∀ path o, ((loaderAfter dir fs past).loadFile (filesAfter fs past) path o).1 =
        Config.readFile (filesAfter fs past) path >>= fun c =>
          globalLayer dir fs past >>= fun global => effective global (some c) o) ∧
      ((loaderAfter dir fs past).loadGlobal (filesAfter fs past)).1 = globalLayer dir fs past ∧
      ∀ c, (loaderAfter dir fs past).cache = some c →
        ∃ m ∈ sinceClear (moments fs past),
          m.2.asksGlobal m.1 = true ∧ globalFile dir m.1 = .ok (some c) := by
  have hglobal := loadGlobal_loaderAfter fs dir past
  refine ⟨?_, ?_, hglobal, ?_⟩
  · intro workspace o
    rw [load_eq, hglobal]
  · intro path o
    rw [loadFile_eq, hglobal]
  · intro c hc
    rw [loaderAfter_eq] at hc
    obtain ⟨m, hm, hfound⟩ := List.exists_of_findSome?_eq_some hc
    exact ⟨m, hm, read?_eq_some hfound⟩

end Loader
end Mutagen
