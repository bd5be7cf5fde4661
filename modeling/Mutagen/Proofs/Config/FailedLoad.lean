import Mutagen.Proofs.Config.Layers

/-!
# Loads that fail

A load that fails for what stands in a file leaves the loader as it was. One that fails
in the checks has come past the global layer by then, and a loader keeps this layer from
the first time on that it is read, whatever comes of it. So such a load can have read the
global file for the loads after it.
-/
namespace Mutagen

/-! ## Two kinds of mistakes -/

/-- Whether a mistake is one in the values of a configuration, found by the checks. -/
def ConfigError.isInvalid : ConfigError → Bool
  | invalid _ _ => true
  | _ => false

namespace Config

/-- A computation that fails in checks only. -/
def OnlyInvalid {α : Type} (x : Except ConfigError α) : Prop :=
  ∀ e, x = .error e → e.isInvalid = true

section

variable {α β : Type}

theorem onlyInvalid_ok (a : α) : OnlyInvalid (.ok a : Except ConfigError α) := by
  intro e he
  cases he

theorem onlyInvalid_invalid (key : String) (cause : InvalidCause) :
    OnlyInvalid (.error (.invalid key cause) : Except ConfigError α) := by
  intro e he
  cases he
  rfl

theorem OnlyInvalid.bind {x : Except ConfigError α} {f : α → Except ConfigError β}
    (hx : OnlyInvalid x) (hf : ∀ a, OnlyInvalid (f a)) : OnlyInvalid (x >>= f) := by
  intro e he
  cases x with
  | error e' => exact hx e (congrArg Except.error (Except.error.inj he))
  | ok a => exact hf a e he

theorem onlyInvalid_mapM {f : α → Except ConfigError β} (hf : ∀ a, OnlyInvalid (f a))
    (l : List α) : OnlyInvalid (l.mapM f) := by
  induction l with
  | nil => exact onlyInvalid_ok []
  | cons a l ih =>
    rw [List.mapM_cons]
    exact (hf a).bind fun b => ih.bind fun bs => onlyInvalid_ok (b :: bs)

theorem onlyInvalid_forM {f : α → Except ConfigError PUnit} (hf : ∀ a, OnlyInvalid (f a))
    (l : List α) : OnlyInvalid (l.forM f) := by
  induction l with
  | nil => exact onlyInvalid_ok PUnit.unit
  | cons a l ih => exact (hf a).bind fun _ => ih

end

theorem onlyInvalid_checkLikelihood (key : String) (x : Option Float) :
    OnlyInvalid (checkLikelihood key x) := by
  unfold checkLikelihood
  split
  · split
    · exact onlyInvalid_ok ()
    · exact onlyInvalid_invalid _ _
  · exact onlyInvalid_ok ()

theorem onlyInvalid_checkBounds (key : String) (low high : Option UInt32) :
    OnlyInvalid (checkBounds key low high) := by
  unfold checkBounds
  split
  · split
    · exact onlyInvalid_invalid _ _
    · exact onlyInvalid_ok ()
  · exact onlyInvalid_ok ()

theorem onlyInvalid_languageOf (key name : String) : OnlyInvalid (languageOf key name) := by
  unfold languageOf
  split
  · exact onlyInvalid_ok _
  · exact onlyInvalid_invalid _ _

theorem onlyInvalid_checkModifier (name : String) (o : Override) :
    OnlyInvalid (checkModifier name o) := by
  have hchecks : OnlyInvalid (do
      checkLikelihood (modifierKey name ++ ".likelihood") o.likelihood
      checkBounds (modifierKey name) o.minComplexity o.maxComplexity) :=
    (onlyInvalid_checkLikelihood _ _).bind fun _ => onlyInvalid_checkBounds _ _ _
  unfold checkModifier
  split
  · exact (onlyInvalid_invalid _ _).bind fun _ => hchecks
  · exact hchecks

/-- Checking a configuration fails in checks only. -/
theorem onlyInvalid_validate (c : Config) : OnlyInvalid c.validate := by
  refine (onlyInvalid_checkLikelihood _ _).bind fun _ => ?_
  refine (onlyInvalid_forM (fun _ => onlyInvalid_checkModifier _ _) _).bind fun _ => ?_
  refine (onlyInvalid_mapM (onlyInvalid_languageOf _) _).bind fun _ => ?_
  refine (onlyInvalid_mapM (fun _ => ?_) _).bind fun _ => onlyInvalid_ok ()
  exact (onlyInvalid_languageOf _ _).bind fun _ => onlyInvalid_ok _

/-- Reading a file fails for other reasons. -/
theorem isInvalid_of_readFile {fs : Files} {path : String} {e : ConfigError}
    (h : readFile fs path = .error e) : e.isInvalid = false := by
  unfold readFile at h
  split at h
  · cases h
    rfl
  · split at h
    · cases h
    · cases h
      rfl

theorem isInvalid_of_readFile? {fs : Files} {path : String} {e : ConfigError}
    (h : readFile? fs path = .error e) : e.isInvalid = false := by
  unfold readFile? at h
  split at h
  · cases hread : readFile fs path with
    | error e' =>
      rw [hread] at h
      cases h
      exact isInvalid_of_readFile hread
    | ok c =>
      rw [hread] at h
      cases h
  · cases h

end Config

namespace Loader

theorem onlyInvalid_effective (global layer : Option Config) (o : Option ConfigOverrides) :
    Config.OnlyInvalid (effective global layer o) := by
  intro e he
  unfold effective at he
  cases hvalid : (combine global layer o).validate with
  | error e' =>
    rw [hvalid] at he
    cases he
    exact Config.onlyInvalid_validate _ _ hvalid
  | ok _ =>
    rw [hvalid] at he
    cases he

/-! ## One failed load -/

/-- What is answered to an action that loads a configuration. -/
def answer? (l : Loader) (fs : Files) : Action → Option (Except ConfigError Config)
  | .load workspace o => some (l.load fs workspace o).1
  | .loadFile path o => some (l.loadFile fs path o).1
  | _ => none

variable {l : Loader} {fs : Files} {a : Action} {e : ConfigError}

/-- An answer depends on the loader through the global layer only. -/
theorem answer?_congr {l' : Loader} (h : (l.loadGlobal fs).1 = (l'.loadGlobal fs).1) (a : Action) :
    l.answer? fs a = l'.answer? fs a := by
  cases a with
  | load workspace o => simp only [answer?, load_eq, h]
  | loadFile path o => simp only [answer?, loadFile_eq, h]
  | change f => rfl
  | loadGlobal => rfl
  | clear => rfl

/-- A load fails at its own layer, at the global one or in the checks. -/
theorem bind_eq_error_cases {α : Type} {layer : Except ConfigError α}
    {global : Except ConfigError (Option Config)}
    {check : α → Option Config → Except ConfigError Config}
    (hcheck : ∀ a g, Config.OnlyInvalid (check a g))
    (h : (layer >>= fun a => global >>= check a) = .error e) :
    layer = .error e ∨ layer.isOk = true ∧ (global = .error e ∨ e.isInvalid = true) := by
  cases layer with
  | error e' => exact .inl (congrArg Except.error (Except.error.inj h))
  | ok a =>
    refine .inr ⟨rfl, ?_⟩
    cases global with
    | error e' => exact .inl (congrArg Except.error (Except.error.inj h))
    | ok g => exact .inr (hcheck a g e h)

theorem failed_cases (h : l.answer? fs a = some (.error e)) :
    a.asksGlobal fs = false ∧ e.isInvalid = false ∨
      a.asksGlobal fs = true ∧ ((l.loadGlobal fs).1 = .error e ∨ e.isInvalid = true) := by
  cases a with
  | load workspace o =>
    simp only [answer?, load_eq, Option.some.injEq] at h
    rcases bind_eq_error_cases (fun layer global => onlyInvalid_effective global layer o) h with
      hlayer | hrest
    · exact .inl ⟨by rw [Action.asksGlobal, hlayer]; rfl, Config.isInvalid_of_readFile? hlayer⟩
    · exact .inr hrest
  | loadFile path o =>
    simp only [answer?, loadFile_eq, Option.some.injEq] at h
    rcases bind_eq_error_cases (fun c global => onlyInvalid_effective global (some c) o) h with
      hlayer | hrest
    · exact .inl ⟨by rw [Action.asksGlobal, hlayer]; rfl, Config.isInvalid_of_readFile hlayer⟩
    · exact .inr hrest
  | change f => cases h
  | loadGlobal => cases h
  | clear => cases h

theorem isClear_of_answer? (h : l.answer? fs a = some (.error e)) : a.isClear = false := by
  cases a with
  | clear => cases h
  | _ => rfl

/-- A load that fails in the checks leaves the loader as a look at the global layer does. -/
theorem perform_of_invalid (h : l.answer? fs a = some (.error e)) (he : e.isInvalid = true) :
    l.perform fs a = (l.loadGlobal fs).2 := by
  rw [perform_eq, isClear_of_answer? h, loadGlobal_snd]
  rcases failed_cases h with ⟨-, hvalid⟩ | ⟨hasks, -⟩
  · rw [he] at hvalid
    cases hvalid
  · simp [read?, hasks]

/-- A load that fails for another reason leaves the loader as it was. -/
theorem perform_of_not_invalid (h : l.answer? fs a = some (.error e)) (he : e.isInvalid = false) :
    l.perform fs a = l := by
  have hcache : l.cache.or (read? l.globalDirectory (fs, a)) = l.cache := by
    cases hcache : l.cache with
    | some c => rfl
    | none =>
      rcases failed_cases h with ⟨hasks, -⟩ | ⟨-, hglobal | hinvalid⟩
      · simp [read?, hasks]
      · rw [loadGlobal_of_not_cached _ _ hcache] at hglobal
        simp only at hglobal
        simp [read?, hglobal, Except.toOption]
      · rw [he] at hinvalid
        cases hinvalid
  rw [perform_eq, isClear_of_answer? h]
  simp [hcache]

/-! ## Loads after it -/

/-- A loader after further actions. -/
def resume (l : Loader) (fs : Files) (later : List Action) : Loader :=
  (moments fs later).foldl (fun l m => l.perform m.1 m.2) l

theorem resume_append_singleton (l : Loader) (fs : Files) (later : List Action) (b : Action) :
    l.resume fs (later ++ [b]) = (l.resume fs later).perform (filesAfter fs later) b := by
  simp [resume, moments_append_singleton]

/-- What a loader had in its cache stays there until it is cleared. -/
theorem resume_eq (l : Loader) (fs : Files) (later : List Action) :
    l.resume fs later = { l with
      cache := if later.any Action.isClear then firstRead? l.globalDirectory fs later
        else l.cache.or (firstRead? l.globalDirectory fs later) } := by
  induction later using List.reverseRecOn with
  | nil => simp [resume, moments, firstRead?, sinceClear]
  | append_singleton later b ih =>
    rw [resume_append_singleton, ih, perform_eq, firstRead?_append_singleton]
    cases hb : b.isClear with
    | true => simp [hb]
    | false =>
      cases hlater : later.any Action.isClear with
      | true => simp [hb, hlater]
      | false => simp [hb, hlater, Option.or_assoc]

theorem toOption_join_eq_some_iff {α : Type} {x : Except ConfigError (Option α)} {a : α} :
    x.toOption.join = some a ↔ x = .ok (some a) := by
  cases x with
  | error err => simp [Except.toOption]
  | ok y => simp [Except.toOption]

/-- What was first read was in the global file at one of the moments. -/
theorem exists_of_firstRead? {dir : Option String} {later : List Action} {g : Config}
    (h : firstRead? dir fs later = some g) :
    ∃ m ∈ moments fs later, globalFile dir m.1 = .ok (some g) := by
  obtain ⟨m, hm, hread⟩ := List.exists_of_findSome?_eq_some h
  exact ⟨m, (List.rtakeWhile_suffix _ _).subset hm, (read?_eq_some hread).2⟩

/-- A look at the global layer before further actions changes no answer after them, as long as the
actions and the load at the end find the same layer in the global file. -/
theorem answer?_resume_loadGlobal {later : List Action} {b : Action}
    (hsame : ∀ m ∈ moments fs (later ++ [b]),
      globalFile l.globalDirectory m.1 = globalFile l.globalDirectory fs) :
    ((l.loadGlobal fs).2.resume fs later).answer? (filesAfter fs later) b =
      (l.resume fs later).answer? (filesAfter fs later) b := by
  rw [moments_append_singleton] at hsame
  refine answer?_congr ?_ b
  rw [resume_eq, resume_eq l, loadGlobal_snd]
  cases hclear : later.any Action.isClear with
  | true => rfl
  | false =>
    cases hcache : l.cache with
    | some c => rfl
    | none =>
      cases hfile : (globalFile l.globalDirectory fs).toOption.join with
      | none => rfl
      | some g =>
        -- one loader has `g` from the look, the other has it from the first action that reads
        have hg := toOption_join_eq_some_iff.1 hfile
        rw [loadGlobal_of_cached _ _ rfl]
        cases hfirst : firstRead? l.globalDirectory fs later with
        | none =>
          rw [loadGlobal_of_not_cached _ _ rfl]
          exact hg.symm.trans (hsame (filesAfter fs later, b) (by simp)).symm
        | some g' =>
          obtain ⟨m, hm, hm'⟩ := exists_of_firstRead? hfirst
          rw [loadGlobal_of_cached _ _ rfl, ← hg, ← hsame m (List.mem_append_left _ hm), hm']

/-- Loads after a failed one answer what they would have answered without it, if it did not fail in
the checks, if the global layer was known before it, if there was none to read, if the loader is
cleared before them, or if the same layer is in the global file whenever it can be read. In all
other cases the failed load has read the global file for them: until the loader is cleared, they
put their layers over what was in this file when it failed. -/
theorem answer?_after_failed (hfail : l.answer? fs a = some (.error e)) (later : List Action)
    (b : Action) :
    ((e.isInvalid = false ∨ l.cache.isSome = true ∨
          (∀ g, globalFile l.globalDirectory fs ≠ .ok (some g)) ∨
          later.any Action.isClear = true ∨
          ∀ m ∈ moments fs (later ++ [b]),
            globalFile l.globalDirectory m.1 = globalFile l.globalDirectory fs) →
        ((l.perform fs a).resume fs later).answer? (filesAfter fs later) b =
          (l.resume fs later).answer? (filesAfter fs later) b) ∧
      (e.isInvalid = true → l.cache = none → later.any Action.isClear = false →
        ∀ g, globalFile l.globalDirectory fs = .ok (some g) →
          (l.perform fs a).resume fs later = ⟨l.globalDirectory, some g⟩) := by
  refine ⟨?_, ?_⟩
  · intro hcases
    cases he : e.isInvalid with
    | false => rw [perform_of_not_invalid hfail he]
    | true =>
      rw [perform_of_invalid hfail he]
      rcases hcases with hvalid | hcache | hnone | hclear | hsame
      · rw [he] at hvalid
        cases hvalid
      · obtain ⟨c, hc⟩ := Option.isSome_iff_exists.1 hcache
        rw [loadGlobal_of_cached _ _ hc]
      · have hfile : (globalFile l.globalDirectory fs).toOption.join = none := by
          rw [Option.eq_none_iff_forall_ne_some]
          exact fun g hg => hnone g (toOption_join_eq_some_iff.1 hg)
        rw [loadGlobal_snd, hfile, Option.or_none]
      · rw [resume_eq, resume_eq l, if_pos hclear, if_pos hclear, loadGlobal_snd]
      · exact answer?_resume_loadGlobal hsame
  · intro he hcache hclear g hg
    rw [perform_of_invalid hfail he, resume_eq, hclear, loadGlobal_snd, hcache,
      toOption_join_eq_some_iff.2 hg]
    rfl

/-- Files in which the file of the workspace turns off a language that there is not, and the same
files put right with another global seed. -/
def faultyFiles : Files :=
  layerFiles "mutation.seed = 1\n" "languages.disabled = [\"esperanto\"]\n"

def repairedFiles : Files := layerFiles "mutation.seed = 2\n" ""

/-- After the file is put right, a loader that is cleared answers as if nothing had failed, and one
that is not cleared still has the global layer from before. -/
theorem answer?_after_failed_repaired :
    ∃ e g, (ofDirectory "global").answer? faultyFiles (.load "ws" none) = some (.error e) ∧
      globalFile (some "global") faultyFiles = .ok (some g) ∧
      (((ofDirectory "global").perform faultyFiles (.load "ws" none)).resume faultyFiles
            [.change fun _ => repairedFiles, .clear]).answer? repairedFiles (.load "ws" none) =
        ((ofDirectory "global").resume faultyFiles
            [.change fun _ => repairedFiles, .clear]).answer? repairedFiles (.load "ws" none) ∧
      ((ofDirectory "global").perform faultyFiles (.load "ws" none)).resume faultyFiles
          [.change fun _ => repairedFiles] = ⟨some "global", some g⟩ := by
  have hfails : ((ofDirectory "global").load faultyFiles "ws" none).1.isOk = false := by
    decide +kernel
  have hlocal : (loadLocal faultyFiles "ws").isOk = true := by
    decide +kernel
  have hglobal : (globalFile (some "global") faultyFiles).toOption.join.isSome = true := by
    decide +kernel
  obtain ⟨g, hg⟩ := Option.isSome_iff_exists.1 hglobal
  rw [toOption_join_eq_some_iff] at hg
  cases hload : ((ofDirectory "global").load faultyFiles "ws" none).1 with
  | ok c =>
    rw [hload] at hfails
    cases hfails
  | error e =>
    have hfail : (ofDirectory "global").answer? faultyFiles (.load "ws" none) = some (.error e) :=
      congrArg some hload
    -- both layers can be read, so the checks are what fails
    have hinvalid : e.isInvalid = true := by
      rcases failed_cases hfail with ⟨hasks, -⟩ | ⟨-, hread | hinvalid⟩
      · rw [Action.asksGlobal, hlocal] at hasks
        cases hasks
      · rw [loadGlobal_of_not_cached _ _ rfl] at hread
        simp only [ofDirectory, hg, reduceCtorEq] at hread
      · exact hinvalid
    refine ⟨e, g, hfail, hg, ?_, ?_⟩
    · exact (answer?_after_failed hfail [.change fun _ => repairedFiles, .clear]
        (.load "ws" none)).1 (.inr (.inr (.inr (.inl rfl))))
    · exact (answer?_after_failed hfail [.change fun _ => repairedFiles] (.load "ws" none)).2
        hinvalid rfl rfl g hg

/-- A load that fails for the file of the workspace has the global seed kept for the load after it,
which would else find another one. -/
theorem failed_load_keeps_seed :
    ((ofDirectory "global").load faultyFiles "ws" none).1.isOk = false ∧
      ((((ofDirectory "global").perform faultyFiles (.load "ws" none)).load repairedFiles "ws"
          none).1.toOption.bind (·.value? .seed)) = some (.whole 1) ∧
      (((ofDirectory "global").load repairedFiles "ws" none).1.toOption.bind (·.value? .seed)) =
        some (.whole 2) := by
  decide +kernel

end Loader
end Mutagen
