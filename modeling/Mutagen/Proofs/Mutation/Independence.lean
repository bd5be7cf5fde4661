import Mutagen.Proofs.Mutation.Shape
import Mutagen.Proofs.Table
import Mutagen.Proofs.Tree.Nesting

/-!
# Modifiers do not interfere

Without a cap a modifier goes from entity to entity on its own, with a generator and
settings that no other modifier touches. So leaving modifiers out, by naming the
wanted ones or by disabling the others, takes away their mutants and nothing else.
-/
namespace Mutagen

/-! ## Runs without a cap -/

namespace Modifier

/-- The mutant of an entity by a modifier that is tried where it can change something. -/
def mutant? (m : Modifier) (e : Entity) : Option Mutant :=
  if m.canChange e then (m.modify e).1 else none

/-- The modifier after this. -/
def next (m : Modifier) (e : Entity) : Modifier := if m.canChange e then (m.modify e).2 else m

@[simp] theorem strategy_next (m : Modifier) (e : Entity) :
    (m.next e).strategy = m.strategy := by
  unfold next
  split <;> rfl

theorem strategy_of_mutant? {m : Modifier} {e : Entity} {w : Mutant} (h : m.mutant? e = some w) :
    w.strategy = m.strategy := by
  unfold mutant? at h
  split at h
  · exact (of_modify_eq_some (m.strategy.returns_run_ne_code e _ _) h).1
  · cases h

end Modifier

namespace Mutation

/-- Without a cap every modifier is tried on its own. -/
theorem tryAll_uncapped (e : Entity) (kept : Nat) (ms : List Modifier) :
    mutants (tryAll 0 e kept ms).1 = ms.filterMap (·.mutant? e) ∧
      (tryAll 0 e kept ms).2 = ms.map (·.next e) := by
  induction ms generalizing kept with
  | nil => exact ⟨rfl, rfl⟩
  | cons m ms ih =>
    have hroom : full 0 kept = false := by simp [full]
    cases hm : m.canChange e with
    | true =>
      obtain ⟨hmutants, hnext⟩ := ih (if (m.modify e).1.isSome then kept + 1 else kept)
      rw [tryAll_able hroom hm, List.filterMap_cons, List.map_cons, ← hmutants, ← hnext,
        Modifier.mutant?, Modifier.next, if_pos hm, if_pos hm]
      exact ⟨rfl, rfl⟩
    | false =>
      obtain ⟨hmutants, hnext⟩ := ih kept
      rw [tryAll_unable hroom hm, List.filterMap_cons, List.map_cons, ← hmutants, ← hnext,
        Modifier.mutant?, Modifier.next, if_neg (by simp [hm]), if_neg (by simp [hm])]
      exact ⟨rfl, rfl⟩

theorem records_run_cons (ms : List Modifier) (e : Entity) (es : List Entity) :
    records (run 0 ms (e :: es)) =
      (ms.filterMap (·.mutant? e)).map (Record.mk e) ++ records (run 0 (ms.map (·.next e)) es) := by
  obtain ⟨hmutants, hnext⟩ := tryAll_uncapped e 0 ms
  rw [records_eq, run, List.flatMap_cons, ← records_eq, hmutants, hnext]

variable (q : Strategy → Bool)

/-- Leaving modifiers out takes away their mutants of an entity. -/
theorem filterMap_mutant?_filter (ms : List Modifier) (e : Entity) :
    (ms.filter fun m => q m.strategy).filterMap (·.mutant? e) =
      (ms.filterMap (·.mutant? e)).filter fun w => q w.strategy := by
  rw [List.filterMap_filter, List.filter_filterMap]
  refine congrArg (List.filterMap · ms) (funext fun m => ?_)
  cases hw : m.mutant? e with
  | none => simp
  | some w =>
    rw [← Modifier.strategy_of_mutant? hw]
    rfl

/-- Leaving modifiers out leaves the others where they are. -/
theorem map_next_filter (ms : List Modifier) (e : Entity) :
    (ms.filter fun m => q m.strategy).map (·.next e) =
      (ms.map (·.next e)).filter fun m => q m.strategy := by
  rw [List.filter_map]
  simp [Function.comp_def]

/-- Leaving modifiers out takes away their records of a run. -/
theorem records_run_filter (ms : List Modifier) (es : List Entity) :
    records (run 0 (ms.filter fun m => q m.strategy) es) =
      (records (run 0 ms es)).filter fun r => q r.mutant.strategy := by
  induction es generalizing ms with
  | nil => rfl
  | cons e es ih =>
    rw [records_run_cons, records_run_cons, List.filter_append, filterMap_mutant?_filter,
      map_next_filter, ih, List.filter_map]
    rfl

end Mutation

/-! ## Disabled modifiers -/

namespace Strategy

theorem ofName?_name (s : Strategy) : ofName? s.name = some s := by
  cases s <;> simp [ofName?, all, name]

theorem name_injective {s t : Strategy} (h : s.name = t.name) : s = t := by
  have hsome := s.ofName?_name
  rw [h, t.ofName?_name] at hsome
  exact (Option.some.inj hsome).symm

end Strategy

namespace RegistryConfig

/-- The configuration with one more modifier disabled. -/
def disable (config : RegistryConfig) (s : Strategy) : RegistryConfig :=
  { config with
    overrides := config.overrides.insert s.name
      { (config.overrides.get? s.name).getD .none with enabled := some false } }

/-- The configuration with every modifier disabled that is not named. -/
def keepOnly (config : RegistryConfig) (names : List String) : RegistryConfig :=
  (Strategy.all.filter fun s => !names.contains s.name).foldl disable config

end RegistryConfig

namespace Registry

theorem ofConfig_config (r : Registry) : ofConfig r.config = .ok r := by
  unfold ofConfig
  split
  · rename_i name hfind
    have hsome := r.known name (List.mem_of_find?_eq_some hfind)
    have hnone := List.find?_some hfind
    rw [Option.isNone_iff_eq_none] at hnone
    rw [hnone] at hsome
    cases hsome
  · rfl

/-- The registry with one more modifier disabled. -/
def disable (r : Registry) (s : Strategy) : Registry where
  config := r.config.disable s
  known := by
    intro name hname
    rcases Table.mem_keys_insert hname with rfl | hname
    · rw [s.ofName?_name]
      rfl
    · exact r.known name hname

theorem config_foldl_disable (ss : List Strategy) (r : Registry) :
    (ss.foldl disable r).config = ss.foldl RegistryConfig.disable r.config := by
  induction ss generalizing r with
  | nil => rfl
  | cons s ss ih => exact ih (r.disable s)

variable (r : Registry) (s : Strategy)

theorem isEnabled_disable_self : (r.disable s).isEnabled s = false := by
  have hoverride : (r.disable s).overrideOf? s =
      some { (r.config.overrides.get? s.name).getD .none with enabled := some false } :=
    Table.get?_insert_self _ _ _
  rw [isEnabled, hoverride]
  rfl

theorem overrideOf?_disable_of_ne {t : Strategy} (h : t ≠ s) :
    (r.disable s).overrideOf? t = r.overrideOf? t :=
  Table.get?_insert_of_ne _ (fun hname => h (Strategy.name_injective hname)) _

theorem configure_disable_of_ne {m : Modifier} (h : m.strategy ≠ s) :
    (r.disable s).configure m = r.configure m := by
  have hlikelihood : (r.disable s).config.likelihood = r.config.likelihood := rfl
  unfold configure
  rw [hlikelihood]
  cases r.config.likelihood with
  | none =>
    dsimp only
    rw [r.overrideOf?_disable_of_ne s h]
  | some x =>
    have h : (m.setLikelihood x).strategy ≠ s := h
    dsimp only
    rw [r.overrideOf?_disable_of_ne s h]

theorem strategiesFor_disable (l : Language) :
    (r.disable s).strategiesFor l = (r.strategiesFor l).filter fun t => decide (t ≠ s) := by
  rw [strategiesFor, strategiesFor, List.filter_filter]
  refine congrArg (List.filter · (Strategy.forLanguage l)) (funext fun t => ?_)
  by_cases h : t = s
  · rw [h, isEnabled_disable_self]
    simp
  · rw [isEnabled, r.overrideOf?_disable_of_ne s h, isEnabled]
    simp [h]

/-- A disabled modifier is gone, and the others are as they were. -/
theorem modifiers_disable (l : Language) (salt : Bytes) :
    (r.disable s).modifiers l salt =
      (r.modifiers l salt).filter fun m => decide (m.strategy ≠ s) := by
  have hfilter : ((fun m : Modifier => decide (m.strategy ≠ s)) ∘ r.modifier l salt) =
      fun t => decide (t ≠ s) := by
    funext t
    rw [Function.comp_apply, (r.modifier_bounds l salt t).1]
  rw [modifiers, modifiers, List.filter_map, hfilter, strategiesFor_disable]
  refine List.map_congr_left ?_
  intro t ht
  exact r.configure_disable_of_ne s (of_decide_eq_true (List.mem_filter.1 ht).2)

/-- Disabled modifiers are gone, and the others are as they were. -/
theorem modifiers_foldl_disable (ss : List Strategy) (l : Language) (salt : Bytes) :
    (ss.foldl disable r).modifiers l salt =
      (r.modifiers l salt).filter fun m => decide (m.strategy ∉ ss) := by
  induction ss generalizing r with
  | nil => exact (List.filter_eq_self.2 (by simp)).symm
  | cons s ss ih =>
    rw [List.foldl_cons, ih, modifiers_disable, List.filter_filter]
    refine congrArg (List.filter · (r.modifiers l salt)) (funext fun m => ?_)
    simp [Bool.and_comm]

/-- The registry with every modifier disabled that is not named. -/
def keepOnly (names : List String) : Registry :=
  (Strategy.all.filter fun s => !names.contains s.name).foldl disable r

theorem ofConfig_keepOnly (names : List String) :
    ofConfig (r.config.keepOnly names) = .ok (r.keepOnly names) := by
  rw [RegistryConfig.keepOnly, ← config_foldl_disable]
  exact ofConfig_config _

theorem modifiers_keepOnly (names : List String) (l : Language) (salt : Bytes) :
    (r.keepOnly names).modifiers l salt =
      (r.modifiers l salt).filter fun m => names.contains m.strategy.name := by
  rw [keepOnly, modifiers_foldl_disable]
  refine congrArg (List.filter · (r.modifiers l salt)) (funext fun m => ?_)
  simp

/-- Which modifiers are disabled matters neither to the languages nor to extraction. -/
theorem extract_keepOnly (names : List String) :
    (r.keepOnly names).languageForPath = r.languageForPath ∧
      (r.keepOnly names).extract = r.extract := by
  have hfold : ∀ (ss : List Strategy) (r : Registry),
      (ss.foldl disable r).languageForPath = r.languageForPath ∧
        (ss.foldl disable r).extract = r.extract := by
    intro ss
    induction ss with
    | nil => exact fun _ => ⟨rfl, rfl⟩
    | cons s ss ih => exact fun r => ih (r.disable s)
  exact hfold _ r

end Registry

/-! ## Jobs -/

namespace MutationJob

variable (r : Registry) (only : List String) (limit : Option Nat) (parse : Parser) (fs : Files)
  (path : String)

theorem run_only_eq_filter (honly : only ≠ []) :
    (mk r only limit 0).run parse fs path =
      ((mk r [] limit 0).run parse fs path).filter
        fun record => only.contains record.mutant.strategy.name := by
  cases hes : r.extract parse fs path limit with
  | error err =>
    rw [run_eq_nil (mk r only limit 0) parse fs path hes,
      run_eq_nil (mk r [] limit 0) parse fs path hes]
    rfl
  | ok es =>
    obtain ⟨l, hl⟩ := r.languageForPath_of_extract hes
    rw [run_eq_records (mk r only limit 0) parse fs path hes hl,
      run_eq_records (mk r [] limit 0) parse fs path hes hl, select_eq_filter _ honly]
    exact Mutation.records_run_filter (fun s => only.contains s.name) _ es

/-- Disabling the modifiers that are not named does the same as naming the others. -/
theorem run_keepOnly (honly : only ≠ []) :
    (mk (r.keepOnly only) [] limit 0).run parse fs path =
      (mk r only limit 0).run parse fs path := by
  obtain ⟨hlanguage, hextract⟩ := r.extract_keepOnly only
  cases hes : r.extract parse fs path limit with
  | error err =>
    have hes' : (r.keepOnly only).extract parse fs path limit = .error err := by rw [hextract, hes]
    rw [run_eq_nil (mk r only limit 0) parse fs path hes]
    exact run_eq_nil (mk (r.keepOnly only) [] limit 0) parse fs path hes'
  | ok es =>
    obtain ⟨l, hl⟩ := r.languageForPath_of_extract hes
    have hes' : (r.keepOnly only).extract parse fs path limit = .ok es := by rw [hextract, hes]
    have hl' : (r.keepOnly only).languageForPath path = .ok l := by rw [hlanguage, hl]
    rw [run_eq_records (mk r only limit 0) parse fs path hes hl, select_eq_filter _ honly,
      run_eq_records (mk (r.keepOnly only) [] limit 0) parse fs path hes' hl',
      Registry.modifiers_keepOnly]
    rfl

/-- Without a cap, naming the wanted modifiers gives those records of the whole run that are by
them, in the same order and with the same texts, and so does disabling the others. -/
theorem run_only (honly : only ≠ []) :
    (mk r only limit 0).run parse fs path =
        ((mk r [] limit 0).run parse fs path).filter
          (fun record => only.contains record.mutant.strategy.name) ∧
      ∃ r', Registry.ofConfig (r.config.keepOnly only) = .ok r' ∧
        (mk r' [] limit 0).run parse fs path = (mk r only limit 0).run parse fs path :=
  ⟨run_only_eq_filter r only limit parse fs path honly, r.keepOnly only,
    r.ofConfig_keepOnly only, run_keepOnly r only limit parse fs path honly⟩

/-- A registry at likelihood 1. -/
def certain : Registry where
  config := ⟨0, some 1.0, .empty, .empty, [], none⟩
  known := nofun

/-- One file, a function that is an if with an else. -/
def branchingFiles : Files := ⟨[(["f.py".toList], Text.bytes branchingText)], [], []⟩

/-- The removal of the if is one record of the whole run. -/
theorem run_only_branching :
    ((mk certain ["func_pm_remove_cond"] none 0).run (fun _ _ => some .branching) branchingFiles
        "f.py").length = 1 ∧
      (mk certain ["func_pm_remove_cond"] none 0).run (fun _ _ => some .branching) branchingFiles
          "f.py" =
        ((mk certain [] none 0).run (fun _ _ => some .branching) branchingFiles "f.py").filter
          fun record => ["func_pm_remove_cond"].contains record.mutant.strategy.name :=
  ⟨by decide +kernel, (run_only certain _ none _ _ _ (by decide)).1⟩

end MutationJob
end Mutagen
