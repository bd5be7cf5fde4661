import Mutagen.Proofs.Entity.Extraction
import Mutagen.Proofs.Mutation.Independence

/-!
# Bounds on a run

A job can bound the entities of a file and the mutants of an entity. The first bound
ends the run sooner and changes nothing before its end. The second one ends the work
on an entity once it has enough mutants. What is left out there are the last mutants,
but the modifiers that do not get their turn keep their generators as they are. A run
without the cap moves these generators, so that the two runs can part on later entities.
-/
namespace Mutagen

/-! ## Modifiers from one entity to the next -/

namespace Modifier

/-- A modifier that draws nothing: its strategy draws only flips, and all of them are certain. -/
def Steady (m : Modifier) : Prop :=
  (m.likelihood == 1.0) = true ∧ m.strategy ∈ Strategy.flipping

instance (m : Modifier) : Decidable m.Steady := inferInstanceAs (Decidable (_ ∧ _))

theorem next_of_unable {m : Modifier} {e : Entity} (h : m.canChange e = false) : m.next e = m := by
  simp [next, h]

/-- A steady modifier is the same after every entity. -/
theorem Steady.next_eq {m : Modifier} (h : m.Steady) (e : Entity) : m.next e = m := by
  obtain ⟨result, hresult⟩ := m.exists_modify_eq h.1 h.2 e
  have hkept : (m.modify e).2 = m := congrArg Prod.snd (hresult m.generator)
  simp [next, hkept]

end Modifier

namespace Mutation

/-- The modifiers after the work on entities. -/
def after (cap : Nat) (ms : List Modifier) (es : List Entity) : List Modifier :=
  es.foldl (fun ms e => (tryAll cap e 0 ms).2) ms

theorem after_append_singleton (cap : Nat) (ms : List Modifier) (es : List Entity) (e : Entity) :
    after cap ms (es ++ [e]) = (tryAll cap e 0 (after cap ms es)).2 := by
  simp [after]

theorem settings_after (cap : Nat) (ms : List Modifier) (es : List Entity) :
    settings (after cap ms es) = settings ms := by
  induction es generalizing ms with
  | nil => rfl
  | cons e es ih => exact (ih _).trans (settings_tryAll cap e 0 ms)

/-- The work on the `k`-th entity starts from the modifiers that the entities before it leave. -/
theorem getElem?_run (cap : Nat) (ms : List Modifier) (es : List Entity) (k : Nat) :
    (run cap ms es)[k]? =
      es[k]?.map fun e => (e, (tryAll cap e 0 (after cap ms (es.take k))).1) := by
  induction es generalizing ms k with
  | nil => simp [run]
  | cons e es ih =>
    cases k with
    | zero => simp [run, after]
    | succ k => simpa [run, after] using ih (tryAll cap e 0 ms).2 k

/-- Leaving out the last entities leaves out the end of a run. -/
theorem run_take (cap : Nat) (ms : List Modifier) (es : List Entity) (n : Nat) :
    run cap ms (es.take n) = (run cap ms es).take n := by
  induction es generalizing ms n with
  | nil => simp [run]
  | cons e es ih =>
    cases n with
    | zero => rfl
    | succ n => exact congrArg (_ :: ·) (ih _ n)

theorem records_append (tried tried' : List (Entity × List Trial)) :
    records (tried ++ tried') = records tried ++ records tried' := by
  simp [records]

/-! ## One entity under a cap -/

theorem full_eq_true_iff {cap kept : Nat} (hcap : 0 < cap) : full cap kept = true ↔ cap ≤ kept := by
  simp [full, hcap]

theorem mutants_tryAll {cap : Nat} (hcap : 0 < cap) (e : Entity) (kept : Nat)
    (ms : List Modifier) :
    mutants (tryAll cap e kept ms).1 = (ms.filterMap (·.mutant? e)).take (cap - kept) := by
  induction ms generalizing kept with
  | nil => simp [tryAll, mutants]
  | cons m ms ih =>
    cases hroom : full cap kept with
    | true =>
      have hle := (full_eq_true_iff hcap).1 hroom
      rw [tryAll_full hroom, Nat.sub_eq_zero_of_le hle, List.take_zero]
      rfl
    | false =>
      have hlt : kept < cap := by
        have hnot : ¬ cap ≤ kept := fun hle => by simp [(full_eq_true_iff hcap).2 hle] at hroom
        omega
      cases hm : m.canChange e with
      | true =>
        have hmutant? : m.mutant? e = (m.modify e).1 := by simp [Modifier.mutant?, hm]
        rw [tryAll_able hroom hm]
        cases hmutant : (m.modify e).1 with
        | none =>
          rw [List.filterMap_cons, hmutant?, hmutant]
          exact ih kept
        | some w =>
          have hsub : cap - kept = cap - (kept + 1) + 1 := by omega
          rw [List.filterMap_cons, hmutant?, hmutant, hsub, List.take_succ_cons]
          exact congrArg (w :: ·) (ih (kept + 1))
      | false =>
        have hmutant? : m.mutant? e = none := by simp [Modifier.mutant?, hm]
        rw [tryAll_unable hroom hm, List.filterMap_cons, hmutant?]
        exact ih kept

/-- Under a cap an entity has the first of the mutants that the same modifiers make of it. -/
theorem mutants_tryAll_eq_take {cap : Nat} (hcap : 0 < cap) (e : Entity) (ms : List Modifier) :
    mutants (tryAll cap e 0 ms).1 = (mutants (tryAll 0 e 0 ms).1).take cap := by
  rw [mutants_tryAll hcap, (tryAll_uncapped e 0 ms).1, Nat.sub_zero]

/-- The strategies of the modifiers that are tried. -/
def strategies (trials : List Trial) : List Strategy := trials.map (·.strategy)

/-- Without a cap every modifier that can change the entity is tried. -/
theorem mem_strategies_tryAll {e : Entity} {ms : List Modifier} {m : Modifier} (hm : m ∈ ms)
    (hable : m.canChange e = true) (kept : Nat) :
    m.strategy ∈ strategies (tryAll 0 e kept ms).1 := by
  have hroom : ∀ kept, full 0 kept = false := by simp [full]
  induction ms generalizing kept with
  | nil => cases hm
  | cons m' ms ih =>
    rcases List.mem_cons.1 hm with rfl | hm
    · rw [tryAll_able (hroom kept) hable]
      exact List.mem_cons_self
    · cases hm' : m'.canChange e with
      | true =>
        rw [tryAll_able (hroom kept) hm']
        exact List.mem_cons_of_mem _ (ih hm _)
      | false =>
        rw [tryAll_unable (hroom kept) hm']
        exact ih hm kept

/-- The modifiers that are tried move on, and the others stay as they are. -/
theorem tryAll_eq_map (cap : Nat) (e : Entity) (kept : Nat) (ms : List Modifier)
    (hdistinct : (ms.map (·.strategy)).Nodup) :
    (tryAll cap e kept ms).2 = ms.map fun m =>
      if m.strategy ∈ strategies (tryAll cap e kept ms).1 then m.next e else m := by
  induction ms generalizing kept with
  | nil => rfl
  | cons m ms ih =>
    obtain ⟨hm, hdistinct⟩ := List.nodup_cons.1 hdistinct
    cases hroom : full cap kept with
    | true =>
      rw [tryAll_full hroom]
      simp [strategies]
    | false =>
      cases hable : m.canChange e with
      | true =>
        have hnext : m.next e = (m.modify e).2 := by simp [Modifier.next, hable]
        rw [tryAll_able hroom hable, List.map_cons, ih _ hdistinct]
        refine congrArg₂ List.cons ?_ (List.map_congr_left fun m' hm' => ?_)
        · simp [strategies, hnext]
        · -- no later modifier has the strategy of this one
          have hne : m'.strategy ≠ m.strategy := by
            intro heq
            exact hm (List.mem_map.2 ⟨m', hm', heq⟩)
          simp [strategies, hne]
      | false =>
        rw [tryAll_unable hroom hable, List.map_cons, ← ih kept hdistinct,
          Modifier.next_of_unable hable, ite_self]

/-! ## Modifiers that the cap skips -/

/-- The cap keeps a modifier from the `i`-th entity: it is tried there in the run without the cap
and not in the run with it. -/
def Skips (whole capped : List (Entity × List Trial)) (i : Nat) (s : Strategy) : Prop :=
  ∃ e all tried, whole[i]? = some (e, all) ∧ capped[i]? = some (e, tried) ∧
    s ∈ strategies all ∧ s ∉ strategies tried

theorem exists_of_settings_eq {ms ms' : List Modifier} (h : settings ms' = settings ms)
    {m' : Modifier} (hm' : m' ∈ ms') :
    ∃ m ∈ ms, m.strategy = m'.strategy ∧ m.likelihood = m'.likelihood := by
  have hmem : m'.reseed 0 ∈ settings ms := h ▸ List.mem_map_of_mem hm'
  obtain ⟨m, hm, heq⟩ := List.mem_map.1 hmem
  rw [Modifier.reseed, Modifier.reseed, Modifier.mk.injEq] at heq
  exact ⟨m, hm, heq.1, heq.2.2.1⟩

theorem map_strategy_of_settings_eq {ms ms' : List Modifier} (h : settings ms' = settings ms) :
    ms'.map (·.strategy) = ms.map (·.strategy) := by
  have hmap := congrArg (List.map (·.strategy)) h
  simpa [settings, Function.comp_def, Modifier.reseed] using hmap

/-- Where the cap skips no modifier that draws, all modifiers move on as without it. -/
theorem tryAll_eq_of_steady (cap : Nat) (e : Entity) {ms : List Modifier}
    (hdistinct : (ms.map (·.strategy)).Nodup)
    (hsteady : ∀ m ∈ ms, m.strategy ∈ strategies (tryAll 0 e 0 ms).1 →
      m.strategy ∉ strategies (tryAll cap e 0 ms).1 → m.Steady) :
    (tryAll cap e 0 ms).2 = (tryAll 0 e 0 ms).2 := by
  rw [(tryAll_uncapped e 0 ms).2, tryAll_eq_map cap e 0 ms hdistinct]
  refine List.map_congr_left fun m hm => ?_
  by_cases htried : m.strategy ∈ strategies (tryAll cap e 0 ms).1
  · rw [if_pos htried]
  · rw [if_neg htried]
    cases hable : m.canChange e with
    | false => rw [Modifier.next_of_unable hable]
    | true => rw [(hsteady m hm (mem_strategies_tryAll hm hable 0) htried).next_eq]

/-- Entities on which the cap skips no modifier that draws leave the modifiers as without it. -/
theorem after_eq_of_steady {cap : Nat} {ms : List Modifier} {es : List Entity}
    (hdistinct : (ms.map (·.strategy)).Nodup) {k : Nat}
    (hsteady : ∀ i < k, ∀ m ∈ ms, Skips (run 0 ms es) (run cap ms es) i m.strategy → m.Steady) :
    after cap ms (es.take k) = after 0 ms (es.take k) := by
  induction k with
  | zero => rfl
  | succ k ih =>
    have heq := ih fun i hi => hsteady i (Nat.lt_succ_of_lt hi)
    cases he : es[k]? with
    | none =>
      have hlen : es.length ≤ k := List.getElem?_eq_none_iff.1 he
      rwa [List.take_of_length_le (Nat.le_succ_of_le hlen), ← List.take_of_length_le hlen]
    | some e =>
      have hsettings := settings_after 0 ms (es.take k)
      rw [List.take_add_one, he, Option.toList_some, after_append_singleton, after_append_singleton,
        heq]
      refine tryAll_eq_of_steady cap e ?_ ?_
      · rwa [map_strategy_of_settings_eq hsettings]
      · intro m' hm' hall htried
        obtain ⟨m, hm, hstrategy, hlikelihood⟩ := exists_of_settings_eq hsettings hm'
        have hskips : Skips (run 0 ms es) (run cap ms es) k m.strategy := by
          refine ⟨e, _, _, ?_, ?_, hstrategy ▸ hall, hstrategy ▸ htried⟩
          · rw [getElem?_run, he, Option.map_some]
          · rw [getElem?_run, he, Option.map_some, heq]
        have hm := hsteady k (Nat.lt_succ_self k) m hm hskips
        exact ⟨hlikelihood ▸ hm.1, hstrategy ▸ hm.2⟩

end Mutation

/-! ## Jobs -/

/-- A limit on the entities of a file gives the first of them. -/
theorem Registry.extract_limit (r : Registry) (parse : Parser) (fs : Files) (path : String)
    (n : Nat) :
    r.extract parse fs path (some n) = (r.extract parse fs path none).map (·.take n) := by
  have hentities : ∀ l content, r.entities parse l path content (some n) =
      (r.entities parse l path content none).take n := by
    intro l content
    unfold entities
    split
    · simp
    · split
      · simp
      · split
        · simp
        · rw [Dialect.extract_eq_upTo, Dialect.extract_eq_upTo]
          rfl
  unfold extract
  cases r.languageForPath path with
  | error err => rfl
  | ok l =>
    cases fs.read path with
    | error cause => rfl
    | ok content => exact congrArg Except.ok (hentities l content)

namespace MutationJob

/-- The entities of a file that a job works on; none when it cannot be read. -/
def entities (job : MutationJob) (parse : Parser) (fs : Files) (path : String) : List Entity :=
  (job.registry.extract parse fs path job.maxEntities).toOption.getD []

/-- The modifiers that a job starts with on a file. -/
def modifiers (job : MutationJob) (path : String) : List Modifier :=
  job.select ((job.registry.modifiersForFile path).toOption.getD [])

/-- The entities of a file with what a job tries on each of them. -/
def trials (job : MutationJob) (parse : Parser) (fs : Files) (path : String) :
    List (Entity × List Trial) :=
  Mutation.run job.maxMutants (job.modifiers path) (job.entities parse fs path)

theorem run_eq_records_trials (job : MutationJob) (parse : Parser) (fs : Files) (path : String) :
    job.run parse fs path = Mutation.records (job.trials parse fs path) := by
  cases hes : job.registry.extract parse fs path job.maxEntities with
  | error err =>
    rw [job.run_eq_nil parse fs path hes, trials, entities, hes]
    rfl
  | ok es =>
    obtain ⟨l, hl⟩ := job.registry.languageForPath_of_extract hes
    rw [job.run_eq_records parse fs path hes hl, trials, entities, modifiers, hes,
      Registry.modifiersForFile, hl]
    rfl

theorem map_fst_trials (job : MutationJob) (parse : Parser) (fs : Files) (path : String) :
    (job.trials parse fs path).map Prod.fst = job.entities parse fs path :=
  Mutation.map_fst_run _ _ _

/-- The modifiers of a job have different strategies. -/
theorem nodup_modifiers (job : MutationJob) (path : String) :
    ((job.modifiers path).map (·.strategy)).Nodup := by
  have hselect := (job.select_sublist ((job.registry.modifiersForFile path).toOption.getD [])).map
    (·.strategy)
  refine List.Nodup.sublist hselect ?_
  rw [Registry.modifiersForFile]
  cases job.registry.languageForPath path with
  | error err => exact List.nodup_nil
  | ok l =>
    have hall : Strategy.all.Nodup := by decide
    have hmap := job.registry.map_strategy_modifiers l (Text.bytes path.toList)
    exact List.Nodup.sublist (hmap ▸ job.registry.strategiesFor_sublist l) hall

variable (parse : Parser) (fs : Files) (path : String)

/-- The job with another bound on the mutants of an entity. -/
def withCap (job : MutationJob) (cap : Nat) : MutationJob := { job with maxMutants := cap }

/-- Runs that differ in the cap alone start with the same modifiers and have the same entities. -/
theorem trials_withCap (job : MutationJob) (cap : Nat) :
    (job.withCap cap).trials parse fs path =
      Mutation.run cap (job.modifiers path) (job.entities parse fs path) :=
  rfl

variable (r : Registry) (only : List String) (cap : Nat)

theorem entities_limit (n : Nat) :
    (mk r only (some n) cap).entities parse fs path =
      ((mk r only none cap).entities parse fs path).take n := by
  unfold entities
  rw [Registry.extract_limit]
  cases r.extract parse fs path none with
  | error err => exact List.take_nil.symm
  | ok es => rfl

theorem trials_limit (n : Nat) :
    (mk r only (some n) cap).trials parse fs path =
      ((mk r only none cap).trials parse fs path).take n := by
  unfold trials
  rw [entities_limit, Mutation.run_take]
  rfl

/-- A limit on the entities cuts a run off. What is left are the first of its records, namely
those of the first entities that are extracted. -/
theorem run_limit (n : Nat) :
    (mk r only (some n) cap).run parse fs path <+: (mk r only none cap).run parse fs path ∧
      ((mk r only none cap).trials parse fs path).map Prod.fst =
        (r.extract parse fs path none).toOption.getD [] ∧
      (mk r only none cap).run parse fs path =
        Mutation.records ((mk r only none cap).trials parse fs path) ∧
      (mk r only (some n) cap).run parse fs path =
        Mutation.records (((mk r only none cap).trials parse fs path).take n) := by
  have hwhole := run_eq_records_trials (mk r only none cap) parse fs path
  have hcut := run_eq_records_trials (mk r only (some n) cap) parse fs path
  rw [trials_limit] at hcut
  refine ⟨?_, map_fst_trials _ parse fs path, hwhole, hcut⟩
  rw [hwhole, hcut]
  refine ⟨Mutation.records (((mk r only none cap).trials parse fs path).drop n), ?_⟩
  rw [← Mutation.records_append, List.take_append_drop]

/-- Under a cap every entity has the first of the mutants that the modifiers, as the capped run
brings them to it, make of it without a cap. As long as the cap has skipped no modifier that
draws, these are the first mutants of the entity in the run without the cap. -/
theorem run_cap (job : MutationJob) {n : Nat} (hn : 0 < n) :
    (∀ cap, (job.withCap cap).run parse fs path =
        Mutation.records ((job.withCap cap).trials parse fs path) ∧
      ((job.withCap cap).trials parse fs path).map Prod.fst = job.entities parse fs path) ∧
    ∀ k e, (job.entities parse fs path)[k]? = some e → ∃ all tried,
      ((job.withCap 0).trials parse fs path)[k]? = some (e, all) ∧
      ((job.withCap n).trials parse fs path)[k]? = some (e, tried) ∧
      Mutation.mutants tried = (Mutation.mutants (Mutation.tryAll 0 e 0
        (Mutation.after n (job.modifiers path) ((job.entities parse fs path).take k))).1).take n ∧
      ((∀ i < k, ∀ m ∈ job.modifiers path, Mutation.Skips ((job.withCap 0).trials parse fs path)
          ((job.withCap n).trials parse fs path) i m.strategy → m.Steady) →
        Mutation.mutants tried = (Mutation.mutants all).take n) := by
  refine ⟨?_, ?_⟩
  · intro cap
    exact ⟨run_eq_records_trials _ parse fs path, map_fst_trials _ parse fs path⟩
  · intro k e he
    have htrials : ∀ cap, ((job.withCap cap).trials parse fs path)[k]? = some (e,
        (Mutation.tryAll cap e 0 (Mutation.after cap (job.modifiers path)
          ((job.entities parse fs path).take k))).1) := by
      intro cap
      rw [trials_withCap, Mutation.getElem?_run, he, Option.map_some]
    refine ⟨_, _, htrials 0, htrials n, Mutation.mutants_tryAll_eq_take hn e _, ?_⟩
    intro hsteady
    rw [trials_withCap, trials_withCap] at hsteady
    rw [← Mutation.after_eq_of_steady (job.nodup_modifiers path) hsteady]
    exact Mutation.mutants_tryAll_eq_take hn e _

/-- Two functions, each with a sum. -/
def sumsText : Text := "def f(): return x + 1\ndef g(): return x + 1\n".toList

/-- The tree of these functions. -/
def sumsTree : Node :=
  let node (kind : String) (named : Bool) (field : Option String) (start stop : Nat)
      (children : List Node) :=
    Node.mk ⟨kind, named, false, false, false, ⟨start, stop⟩, field⟩ children
  let function (i : Nat) :=
    node "function_definition" true none i (i + 21) [
      node "def" false none i (i + 3) [],
      node "identifier" true (some "name") (i + 4) (i + 5) [],
      node "parameters" true (some "parameters") (i + 5) (i + 7) [
        node "(" false none (i + 5) (i + 6) [],
        node ")" false none (i + 6) (i + 7) []],
      node ":" false none (i + 7) (i + 8) [],
      node "block" true (some "body") (i + 9) (i + 21) [
        node "return_statement" true none (i + 9) (i + 21) [
          node "return" false none (i + 9) (i + 15) [],
          node "binary_operator" true none (i + 16) (i + 21) [
            node "identifier" true (some "left") (i + 16) (i + 17) [],
            node "+" false (some "operator") (i + 18) (i + 19) [],
            node "integer" true (some "right") (i + 20) (i + 21) []]]]]
  node "module" true none 0 44 [function 0, function 22]

def sumsFiles : Files := ⟨[(["a.py".toList], Text.bytes sumsText)], [], []⟩

/-- At likelihood 1 the second function has the same first mutant under a cap, although the
exchange of operands is skipped on the first one. -/
theorem run_cap_certain :
    let job := mk certain ["func_pm_op_flip", "func_pm_op_swap"] none 0
    0 < 1 ∧ (∀ m ∈ job.modifiers "a.py", m.Steady) ∧ ∃ e all tried,
      ((job.withCap 0).trials (fun _ _ => some sumsTree) sumsFiles "a.py")[1]? = some (e, all) ∧
      ((job.withCap 1).trials (fun _ _ => some sumsTree) sumsFiles "a.py")[1]? = some (e, tried) ∧
      Mutation.mutants tried = (Mutation.mutants all).take 1 := by
  intro job
  have hsteady : ∀ m ∈ job.modifiers "a.py", m.Steady := by decide +kernel
  have hlength : 1 < (job.entities (fun _ _ => some sumsTree) sumsFiles "a.py").length := by
    decide +kernel
  obtain ⟨-, hentity⟩ := run_cap (fun _ _ => some sumsTree) sumsFiles "a.py" job Nat.one_pos
  obtain ⟨all, tried, hall, htried, -, hfirst⟩ :=
    hentity 1 _ (List.getElem?_eq_getElem hlength)
  exact ⟨Nat.one_pos, hsteady, _, all, tried, hall, htried, hfirst fun _ _ m hm _ => hsteady m hm⟩

/-- A registry at likelihood one half. -/
def even : Registry where
  config := ⟨16, some 0.5, .empty, .empty, [], none⟩
  known := nofun

/-- A cap of one mutant gives the second function a mutant that it does not have without the cap:
the flip of operators is skipped on the first function, so that it makes its first draw, and not
its second one, on the second function. -/
theorem cap_adds_record :
    let job := mk even ["func_pm_op_change", "func_pm_op_flip"] none 0
    let records (cap : Nat) := ((job.withCap cap).run (fun _ _ => some sumsTree) sumsFiles
      "a.py").map fun record => (record.entity.name, record.mutant)
    records 1 =
        [("f".toList, ⟨"def f(): return x % 1".toList, .changeOperators⟩),
          ("g".toList, ⟨"def g(): return x - 1".toList, .flipOperators⟩)] ∧
      records 0 =
        [("f".toList, ⟨"def f(): return x % 1".toList, .changeOperators⟩),
          ("f".toList, ⟨"def f(): return x - 1".toList, .flipOperators⟩)] ∧
      (records 1).filter (·.1 == "g".toList) ≠
        ((records 0).filter (·.1 == "g".toList)).take 1 := by
  intro job records
  have hcapped : records 1 =
      [("f".toList, ⟨"def f(): return x % 1".toList, .changeOperators⟩),
        ("g".toList, ⟨"def g(): return x - 1".toList, .flipOperators⟩)] := by decide +kernel
  have hwhole : records 0 =
      [("f".toList, ⟨"def f(): return x % 1".toList, .changeOperators⟩),
        ("f".toList, ⟨"def f(): return x - 1".toList, .flipOperators⟩)] := by decide +kernel
  refine ⟨hcapped, hwhole, ?_⟩
  rw [hcapped, hwhole]
  decide

end MutationJob
end Mutagen
