import Mutagen.Mutation
import Mutagen.Proofs.Modifier.Likelihood
import Mutagen.Proofs.Modifier.UntouchedLines

/-!
# The shape of a run

Of a run over the entities of a file only the generators of the modifiers change.
So the work on every entity goes through the same modifiers, in the order of the
catalog, and what holds of the mutants of one entity can be told from the settings.
-/
namespace Mutagen

/-! ## Mutants differ from their entities -/

namespace Strategy

theorem ne_code_of_mutated? {e : Entity} {edits : EditList} :
    ∀ code ∈ e.mutated? edits, code ≠ e.code := by
  intro code hcode
  obtain ⟨-, -, -, -, -, -, hne⟩ := Entity.mutated?_eq_some_iff.1 hcode
  exact hne

theorem returns_ne_code {e : Entity} (x : Attempt EditList) :
    Attempt.Returns (· ≠ e.code) (x >>= fun edits => Attempt.ofOption (e.mutated? edits)) :=
  Attempt.returns_bind_of_forall fun _ => Attempt.returns_ofOption ne_code_of_mutated?

theorem returns_shuffleSlots_ne_code (t : Target) (e : Entity) (slots : List Site) (p : Float)
    (n : Nat) : Attempt.Returns (· ≠ e.code) (t.shuffleSlots e slots p n) := by
  unfold Target.shuffleSlots
  split
  · exact Attempt.returns_failure _
  · refine Attempt.returns_bind_of_forall fun flipped => ?_
    split
    · refine Attempt.returns_retry (Attempt.returns_bind_of_forall fun order => ?_) n
      exact Attempt.returns_bind_of_forall fun edits => Attempt.returns_pure ne_code_of_mutated?
    · exact Attempt.returns_failure _

theorem returns_removeMethods_ne_code (t : Target) (e : Entity) (p : Float) (n : Nat) :
    Attempt.Returns (· ≠ e.code) (t.removeMethods e p n) := by
  refine Attempt.returns_bind_of_forall fun methods => ?_
  split
  · exact Attempt.returns_failure _
  · refine Attempt.returns_retry (Attempt.returns_bind_of_forall fun removed => ?_) n
    refine Attempt.returns_pure ?_
    split
    · exact fun code hcode => nomatch hcode
    · exact ne_code_of_mutated?

/-- No strategy returns the text that it is given. -/
theorem returns_run_ne_code (s : Strategy) (e : Entity) (p : Float) (n : Nat) :
    Attempt.Returns (· ≠ e.code) (s.run e p n) := by
  refine Attempt.returns_bind_of_forall fun t => ?_
  have hshuffle : ∀ slots? : Option (List Site), Attempt.Returns (· ≠ e.code)
      (Attempt.ofOption slots? >>= fun slots => t.shuffleSlots e slots p n) :=
    fun _ => Attempt.returns_bind_of_forall fun slots =>
      returns_shuffleSlots_ne_code t e slots p n
  cases s with
  | shuffleStatements => exact hshuffle _
  | shuffleMethods => exact hshuffle _
  | removeMethods => exact returns_removeMethods_ne_code t e p n
  | _ => exact returns_ne_code _

/-- The catalog lists every strategy once. -/
theorem all_pairwise : all.Pairwise fun s t => all.idxOf s < all.idxOf t := by decide

end Strategy

/-! ## One entity -/

namespace Mutation

/-- The mutants among trials. -/
def mutants (trials : List Trial) : List Mutant := trials.filterMap (·.mutant)

theorem records_eq (tried : List (Entity × List Trial)) :
    records tried = tried.flatMap fun g => (mutants g.2).map (Record.mk g.1) := by
  unfold records mutants
  simp only [List.map_filterMap]

/-- Modifiers apart from their generators. -/
def settings (ms : List Modifier) : List Modifier := ms.map (·.reseed 0)

/-- What becomes of an entity with `kept` mutants under modifiers of some settings: its mutants
come in the order of the modifiers, there are no more than the cap allows, and each is by a
modifier that can change the entity and does. -/
structure Tried (cap kept : Nat) (e : Entity) (ms : List Modifier) (ws : List Mutant) : Prop where
  ordered : (ws.map (·.strategy)).Sublist (ms.map (·.strategy))
  capped : 0 < cap → ws.length ≤ cap - kept
  made : ∀ w ∈ ws, (∃ m ∈ ms, m.strategy = w.strategy ∧ m.canChange e = true) ∧ w.code ≠ e.code

theorem tried_nil (cap kept : Nat) (e : Entity) (ms : List Modifier) : Tried cap kept e ms [] where
  ordered := List.nil_sublist _
  capped _ := Nat.zero_le _
  made := fun _ hw => nomatch hw

variable {cap kept : Nat} {e : Entity} {m : Modifier} {ms : List Modifier} {ws : List Mutant}

theorem Tried.skip (h : Tried cap kept e ms ws) : Tried cap kept e (m :: ms) ws where
  ordered := h.ordered.cons _
  capped := h.capped
  made := by
    intro w hw
    obtain ⟨⟨m', hm', hmade⟩, hne⟩ := h.made w hw
    exact ⟨⟨m', List.mem_cons_of_mem _ hm', hmade⟩, hne⟩

theorem Tried.take {w : Mutant} (h : Tried cap (kept + 1) e ms ws) (hroom : full cap kept = false)
    (hstrategy : w.strategy = m.strategy) (hm : m.canChange e = true) (hne : w.code ≠ e.code) :
    Tried cap kept e (m :: ms) (w :: ws) where
  ordered := by
    rw [List.map_cons, List.map_cons, hstrategy]
    exact h.ordered.cons_cons _
  capped := by
    intro hcap
    have hle := h.capped hcap
    have hlt : kept < cap := by
      simp only [full, hcap, decide_true, Bool.true_and, decide_eq_false_iff_not] at hroom
      omega
    simp only [List.length_cons]
    omega
  made := by
    refine List.forall_mem_cons.2 ⟨⟨⟨m, List.mem_cons_self, hstrategy.symm, hm⟩, hne⟩, ?_⟩
    exact (h.skip (m := m)).made

theorem tryAll_full (hfull : full cap kept = true) :
    tryAll cap e kept (m :: ms) = ([], m :: ms) := by
  rw [tryAll, if_pos hfull]

theorem tryAll_able (hroom : full cap kept = false) (hm : m.canChange e = true) :
    tryAll cap e kept (m :: ms) =
      (⟨m.strategy, (m.modify e).1⟩ ::
          (tryAll cap e (if (m.modify e).1.isSome then kept + 1 else kept) ms).1,
        (m.modify e).2 ::
          (tryAll cap e (if (m.modify e).1.isSome then kept + 1 else kept) ms).2) := by
  rw [tryAll, if_neg (by simp [hroom]), if_pos hm]

theorem tryAll_unable (hroom : full cap kept = false) (hm : m.canChange e = false) :
    tryAll cap e kept (m :: ms) = ((tryAll cap e kept ms).1, m :: (tryAll cap e kept ms).2) := by
  rw [tryAll, if_neg (by simp [hroom]), if_neg (by simp [hm])]

/-- Trying modifiers keeps their settings. -/
theorem settings_tryAll (cap : Nat) (e : Entity) (kept : Nat) (ms : List Modifier) :
    settings (tryAll cap e kept ms).2 = settings ms := by
  induction ms generalizing kept with
  | nil => rfl
  | cons m ms ih =>
    cases hroom : full cap kept with
    | true => rw [tryAll_full hroom]
    | false =>
      cases hm : m.canChange e with
      | true =>
        rw [tryAll_able hroom hm]
        exact congrArg (m.reseed 0 :: ·) (ih _)
      | false =>
        rw [tryAll_unable hroom hm]
        exact congrArg (m.reseed 0 :: ·) (ih kept)

theorem tried_tryAll (cap : Nat) (e : Entity) (kept : Nat) (ms : List Modifier) :
    Tried cap kept e (settings ms) (mutants (tryAll cap e kept ms).1) := by
  induction ms generalizing kept with
  | nil => exact tried_nil cap kept e []
  | cons m ms ih =>
    cases hroom : full cap kept with
    | true =>
      rw [tryAll_full hroom]
      exact tried_nil cap kept e _
    | false =>
      cases hm : m.canChange e with
      | true =>
        rw [tryAll_able hroom hm]
        cases hmutant : (m.modify e).1 with
        | none => exact (ih kept).skip
        | some w =>
          obtain ⟨hstrategy, hne⟩ :=
            Modifier.of_modify_eq_some (m.strategy.returns_run_ne_code e _ _) hmutant
          exact (ih (kept + 1)).take hroom hstrategy hm hne
      | false =>
        rw [tryAll_unable hroom hm]
        exact (ih kept).skip

/-! ## All entities -/

theorem map_fst_run (cap : Nat) (ms : List Modifier) (es : List Entity) :
    (run cap ms es).map Prod.fst = es := by
  induction es generalizing ms with
  | nil => rfl
  | cons e es ih => exact congrArg (e :: ·) (ih _)

/-- Every entity is tried under the settings that the modifiers start with. -/
theorem tried_run (cap : Nat) (ms : List Modifier) (es : List Entity) :
    ∀ g ∈ run cap ms es, Tried cap 0 g.1 (settings ms) (mutants g.2) := by
  -- the modifiers change from entity to entity, their settings are the invariant
  induction es generalizing ms with
  | nil => exact fun g hg => nomatch hg
  | cons e es ih =>
    refine List.forall_mem_cons.2 ⟨tried_tryAll cap e 0 ms, ?_⟩
    intro g hg
    rw [← settings_tryAll cap e 0 ms]
    exact ih _ g hg

end Mutation

/-! ## Registries and jobs -/

/-- An override decides about the bounds of a modifier and keeps its strategy. -/
theorem Override.apply_bounds (o : Override) (m : Modifier) :
    (o.apply m).strategy = m.strategy ∧
      (o.apply m).minComplexity = (o.minComplexity.map UInt32.toNat).getD m.minComplexity ∧
      (o.apply m).maxComplexity = (o.maxComplexity.map UInt32.toNat).getD m.maxComplexity := by
  unfold apply
  cases o.likelihood with
  | none => cases o.attempts <;> exact ⟨rfl, rfl, rfl⟩
  | some x => cases o.attempts <;> exact ⟨rfl, rfl, rfl⟩

namespace Registry

/-- The least complexity that a registry asks for. -/
def minComplexity (r : Registry) (s : Strategy) : Nat :=
  (((r.overrideOf? s).bind (·.minComplexity)).map UInt32.toNat).getD s.minComplexity

/-- The greatest complexity that a registry allows. -/
def maxComplexity (r : Registry) (s : Strategy) : Nat :=
  (((r.overrideOf? s).bind (·.maxComplexity)).map UInt32.toNat).getD s.maxComplexity

variable (r : Registry)

/-- Configuring a modifier sets its likelihood and then applies its override. -/
theorem configure_eq_apply (m : Modifier) :
    ∃ x, r.configure m =
      ((r.overrideOf? m.strategy).getD .none).apply { m with likelihood := x } := by
  unfold configure
  cases r.config.likelihood with
  | none =>
    refine ⟨m.likelihood, ?_⟩
    dsimp only
    cases r.overrideOf? m.strategy <;> rfl
  | some x =>
    have hstrategy : (m.setLikelihood x).strategy = m.strategy := rfl
    refine ⟨clampLikelihood x, ?_⟩
    dsimp only
    rw [hstrategy]
    cases r.overrideOf? m.strategy <;> rfl

/-- A modifier has the strategy that it is made for and the bounds of its registry. -/
theorem modifier_bounds (l : Language) (salt : Bytes) (s : Strategy) :
    (r.modifier l salt s).strategy = s ∧
      (r.modifier l salt s).minComplexity = r.minComplexity s ∧
      (r.modifier l salt s).maxComplexity = r.maxComplexity s := by
  obtain ⟨x, hx⟩ := r.configure_eq_apply
    (.ofStrategy s l (Seed.derive r.config.seed [salt, Text.bytes s.name.toList]))
  have hstrategy : ∀ seed, (Modifier.ofStrategy s l seed).strategy = s := fun _ => rfl
  rw [modifier, hx, hstrategy, minComplexity, maxComplexity]
  cases r.overrideOf? s with
  | none => exact Override.none.apply_bounds _
  | some o => exact o.apply_bounds _

theorem canChange_modifier_iff (l : Language) (salt : Bytes) (s : Strategy) (e : Entity) :
    (r.modifier l salt s).canChange e = true ↔
      (∀ p ∈ s.conditions, e.hasTag p = true) ∧ r.minComplexity s ≤ e.complexity ∧
        e.complexity ≤ r.maxComplexity s := by
  obtain ⟨hs, hmin, hmax⟩ := r.modifier_bounds l salt s
  simp [Modifier.canChange, hs, hmin, hmax, and_assoc]

theorem strategiesFor_sublist (l : Language) : (r.strategiesFor l).Sublist Strategy.all :=
  List.filter_sublist.trans List.filter_sublist

/-- The modifiers of a language stand in the order of the catalog. -/
theorem map_strategy_modifiers (l : Language) (salt : Bytes) :
    (r.modifiers l salt).map (·.strategy) = r.strategiesFor l := by
  rw [modifiers, List.map_map]
  refine (List.map_congr_left fun s _ => ?_).trans (List.map_id _)
  exact (r.modifier_bounds l salt s).1

/-- A file with entities has a language. -/
theorem languageForPath_of_extract {parse : Parser} {fs : Files} {path : String}
    {limit : Option Nat} {es : List Entity} (h : r.extract parse fs path limit = .ok es) :
    ∃ l, r.languageForPath path = .ok l := by
  unfold extract at h
  cases hl : r.languageForPath path with
  | error err =>
    rw [hl] at h
    cases h
  | ok l => exact ⟨l, rfl⟩

end Registry

namespace MutationJob

/-- What a job asks of a mutant of an entity in a file of a language. -/
structure Allows (job : MutationJob) (l : Language) (e : Entity) (w : Mutant) : Prop where
  applies : w.strategy.appliesTo l = true
  enabled : job.registry.isEnabled w.strategy = true
  chosen : job.only ≠ [] → w.strategy.name ∈ job.only
  accepted : ∀ salt, (job.registry.modifier l salt w.strategy).canChange e = true
  bounded : job.registry.minComplexity w.strategy ≤ e.complexity ∧
    e.complexity ≤ job.registry.maxComplexity w.strategy
  changed : w.code ≠ e.code

variable (job : MutationJob) (parse : Parser) (fs : Files) (path : String)

theorem select_sublist (ms : List Modifier) : (job.select ms).Sublist ms := by
  unfold select
  split
  · exact List.Sublist.refl ms
  · exact List.filter_sublist

theorem select_eq_filter (honly : job.only ≠ []) (ms : List Modifier) :
    job.select ms = ms.filter fun m => job.only.contains m.strategy.name := by
  rw [select, if_neg (by simpa using honly)]
  rfl

theorem run_eq_records {es : List Entity} {l : Language}
    (hes : job.registry.extract parse fs path job.maxEntities = .ok es)
    (hl : job.registry.languageForPath path = .ok l) :
    job.run parse fs path = Mutation.records (Mutation.run job.maxMutants
      (job.select (job.registry.modifiers l (Text.bytes path.toList))) es) := by
  have hms : job.registry.modifiersForFile path =
      .ok (job.registry.modifiers l (Text.bytes path.toList)) := by
    rw [Registry.modifiersForFile, hl]
    rfl
  rw [run, hes, hms]

theorem run_eq_nil {err : RegistryError}
    (herr : job.registry.extract parse fs path job.maxEntities = .error err) :
    job.run parse fs path = [] := by
  rw [run, herr]

/-- The mutants that modifiers of a job make are among those that it allows. -/
theorem allows_of_tried {l : Language} {salt : Bytes} {cap kept : Nat} {e : Entity}
    {ws : List Mutant} (h : Mutation.Tried cap kept e
      (Mutation.settings (job.select (job.registry.modifiers l salt))) ws) :
    ∀ w ∈ ws, job.Allows l e w := by
  intro w hw
  obtain ⟨⟨_, hidle, hstrategy, hchange⟩, hne⟩ := h.made w hw
  obtain ⟨m, hm, rfl⟩ := List.mem_map.1 hidle
  have hname : job.only ≠ [] → m.strategy.name ∈ job.only := by
    intro honly
    rw [job.select_eq_filter honly] at hm
    exact List.contains_iff_mem.1 (List.mem_filter.1 hm).2
  obtain ⟨s, hs, rfl⟩ := List.mem_map.1 ((job.select_sublist _).subset hm)
  have hstrategy : (job.registry.modifier l salt s).strategy = w.strategy := hstrategy
  have hchange : (job.registry.modifier l salt s).canChange e = true := hchange
  rw [(job.registry.modifier_bounds l salt s).1] at hstrategy
  subst hstrategy
  obtain ⟨happly, henabled⟩ := List.mem_filter.1 hs
  have hable := (job.registry.canChange_modifier_iff l salt _ e).1 hchange
  rw [(job.registry.modifier_bounds l salt _).1] at hname
  refine ⟨(List.mem_filter.1 happly).2, henabled, hname, ?_, hable.2, hne⟩
  intro salt'
  exact (job.registry.canChange_modifier_iff l salt' _ e).2 hable

/-- The mutants that modifiers of a job make come in the order of the catalog. -/
theorem pairwise_of_tried {l : Language} {salt : Bytes} {cap kept : Nat} {e : Entity}
    {ws : List Mutant} (h : Mutation.Tried cap kept e
      (Mutation.settings (job.select (job.registry.modifiers l salt))) ws) :
    ws.Pairwise fun v w =>
      Strategy.all.idxOf v.strategy < Strategy.all.idxOf w.strategy := by
  have hsublist := h.ordered
  have hselect := (job.select_sublist (job.registry.modifiers l salt)).map (·.strategy)
  rw [job.registry.map_strategy_modifiers] at hselect
  rw [Mutation.settings, List.map_map] at hsublist
  have hall := (hsublist.trans hselect).trans (job.registry.strategiesFor_sublist l)
  have hpairwise := Strategy.all_pairwise.sublist hall
  rwa [List.pairwise_map] at hpairwise

/-- The records of a file are grouped by its entities, in the order of extraction. Within a group
the strategies follow the catalog, none of them twice, there are no more records than the cap
allows, and all of them are allowed by the job. -/
theorem run_grouped :
    ∃ groups : List (Entity × List Mutant),
      groups.map Prod.fst =
        (job.registry.extract parse fs path job.maxEntities).toOption.getD [] ∧
      job.run parse fs path = groups.flatMap (fun g => g.2.map (Record.mk g.1)) ∧
      ∀ g ∈ groups,
        (g.2.Pairwise fun v w =>
          Strategy.all.idxOf v.strategy < Strategy.all.idxOf w.strategy) ∧
        (0 < job.maxMutants → g.2.length ≤ job.maxMutants) ∧
        ∀ w ∈ g.2, ∃ l, job.registry.languageForPath path = .ok l ∧ job.Allows l g.1 w := by
  cases hes : job.registry.extract parse fs path job.maxEntities with
  | error err => exact ⟨[], rfl, job.run_eq_nil parse fs path hes, fun g hg => nomatch hg⟩
  | ok es =>
    obtain ⟨l, hl⟩ := job.registry.languageForPath_of_extract hes
    have htried := Mutation.tried_run job.maxMutants
      (job.select (job.registry.modifiers l (Text.bytes path.toList))) es
    refine ⟨(Mutation.run job.maxMutants (job.select (job.registry.modifiers l
      (Text.bytes path.toList))) es).map fun g => (g.1, Mutation.mutants g.2), ?_, ?_, ?_⟩
    · rw [List.map_map]
      exact Mutation.map_fst_run _ _ es
    · rw [job.run_eq_records parse fs path hes hl, Mutation.records_eq, List.flatMap_map]
    · intro group hgroup
      obtain ⟨g, hg, rfl⟩ := List.mem_map.1 hgroup
      have htried := htried g hg
      refine ⟨job.pairwise_of_tried htried, htried.capped, ?_⟩
      intro w hw
      exact ⟨l, hl, job.allows_of_tried htried w hw⟩

end MutationJob
end Mutagen
