import Mutagen.Proofs.Config.Saved

/-!
# Documents that leave something out

A document may leave out any of its sections and keys, and what it leaves out has its initial
value. So reading a document goes together with leaving things out of it: reading what is left
gives the configuration in which just the values that were left out are the initial ones. With the
way back from a document to its configuration this makes the writing of configurations lossless.
-/
namespace Mutagen

/-- What is left out of a document, told by the keys on the way to it. -/
abbrev Omission := List String → Bool

namespace Omission

/-- What is left out of the value under a key. -/
def below (o : Omission) (k : String) : Omission := fun path => o (k :: path)

variable {α : Type}

/-- The members that are not left out, each with what is left of its value. -/
def members (o : Omission) (f : Omission → α → α) (l : List (String × α)) : List (String × α) :=
  l.filterMap fun e => if o [e.1] then none else some (e.1, f (o.below e.1) e.2)

theorem members_cons (o : Omission) (f : Omission → α → α) (e : String × α)
    (l : List (String × α)) :
    o.members f (e :: l) =
      if o [e.1] then o.members f l else (e.1, f (o.below e.1) e.2) :: o.members f l := by
  rw [members, List.filterMap_cons]
  cases o [e.1] <;> rfl

theorem lookup_members (o : Omission) (f : Omission → α → α) (l : List (String × α)) (k : String) :
    (o.members f l).lookup k = if o [k] then none else (l.lookup k).map (f (o.below k)) := by
  induction l with
  | nil => simp [members]
  | cons e l ih =>
    rw [members_cons]
    by_cases hk : k = e.1
    · subst hk
      cases ho : o [e.1] with
      | true => simpa [ho] using ih
      | false =>
        have hself : ((e.1, f (o.below e.1) e.2) :: o.members f l).lookup e.1 =
            some (f (o.below e.1) e.2) := List.lookup_cons_self
        have hfirst : (e :: l).lookup e.1 = some e.2 := List.lookup_cons_self
        simp [hself, hfirst]
    · rw [lookup_cons_of_ne hk, ← ih]
      cases o [e.1] with
      | true => rfl
      | false => exact lookup_cons_of_ne (e := (e.1, f (o.below e.1) e.2)) hk _

end Omission

namespace Table

variable {α : Type}

/-- A table without the entries that are left out. -/
def without (o : Omission) (f : Omission → α → α) (t : Table α) : Table α where
  entries := o.members f t.entries
  ordered := by
    refine List.Pairwise.filterMap _ ?_ t.ordered
    intro e e' hlt d hd d' hd'
    split at hd
    · cases hd
    · split at hd'
      · cases hd'
      · cases hd
        cases hd'
        exact hlt

theorem get?_without (o : Omission) (f : Omission → α → α) (t : Table α) (k : String) :
    (t.without o f).get? k = if o [k] then none else (t.get? k).map (f (o.below k)) :=
  o.lookup_members f t.entries k

/-- Of entries with the same key the last one counts. -/
theorem get?_ofList (l : List (String × α)) (k : String) :
    (ofList l).get? k = l.reverse.lookup k := by
  induction l using List.reverseRecOn with
  | nil => rfl
  | append_singleton l e ih =>
    rw [ofList, List.foldl_append, List.reverse_append]
    change ((ofList l).insert e.1 e.2).get? k = (e :: l.reverse).lookup k
    by_cases hk : k = e.1
    · subst hk
      rw [get?_insert_self, List.lookup_cons_self]
    · rw [get?_insert_of_ne _ hk, lookup_cons_of_ne hk, ih]

theorem ofList_members (o : Omission) (f : Omission → α → α) (l : List (String × α)) :
    ofList (o.members f l) = (ofList l).without o f := by
  refine ext_get? ?_
  intro k
  have hreverse : (o.members f l).reverse = o.members f l.reverse := List.filterMap_reverse.symm
  rw [get?_ofList, hreverse, o.lookup_members, get?_without, get?_ofList]

end Table

/-! ## Leaving members out of a document -/

namespace Toml

mutual

/-- What is left of a value. -/
def without (o : Omission) : Toml → Toml
  | table entries => table (withoutIn o entries)
  | v => v

/-- What is left of the members of a table. -/
def withoutIn (o : Omission) : List (String × Toml) → List (String × Toml)
  | [] => []
  | (k, v) :: rest =>
    if o [k] then withoutIn o rest else (k, without (o.below k) v) :: withoutIn o rest

end

theorem withoutIn_eq (o : Omission) (entries : List (String × Toml)) :
    withoutIn o entries = o.members without entries := by
  induction entries with
  | nil => rfl
  | cons e entries ih =>
    rw [withoutIn, ih, Omission.members_cons]

theorem without_table (o : Omission) (entries : List (String × Toml)) :
    without o (table entries) = table (o.members without entries) := by
  rw [without, withoutIn_eq]

theorem exists_table_of_isTable {v : Toml} (h : v.isTable = true) :
    ∃ entries, v = table entries := by
  cases v with
  | table entries => exact ⟨entries, rfl⟩
  | _ => cases h

theorem without_of_not_table {v : Toml} (h : ∀ entries, v ≠ table entries) (o : Omission) :
    v.without o = v := by
  cases v with
  | table entries => exact absurd rfl (h entries)
  | _ => rfl

end Toml

/-! ## Initial values for what is left out -/

/-- A value, or the initial one when its key is left out. -/
def Omission.kept {α : Type} (o : Omission) (key : String) (initial value : α) : α :=
  if o [key] then initial else value

theorem Omission.kept_self {α : Type} (o : Omission) (key : String) (a : α) : o.kept key a a = a :=
  ite_self a

def Override.without (o : Omission) (c : Override) : Override where
  enabled := o.kept "enabled" .none c.enabled
  likelihood := o.kept "likelihood" .none c.likelihood
  minComplexity := o.kept "min_complexity" .none c.minComplexity
  maxComplexity := o.kept "max_complexity" .none c.maxComplexity
  attempts := o.kept "max_attempts" .none c.attempts

namespace ExtractionConfig

def without (o : Omission) (c : ExtractionConfig) : ExtractionConfig where
  maxEntities := o.kept "max_entities" initial.maxEntities c.maxEntities
  maxFileSizeKb := o.kept "max_file_size_kb" initial.maxFileSizeKb c.maxFileSizeKb
  excludePatterns := o.kept "exclude_patterns" initial.excludePatterns c.excludePatterns

theorem initial_without (o : Omission) : initial.without o = initial := by
  simp only [without, Omission.kept_self]

end ExtractionConfig

namespace MutationConfig

def without (o : Omission) (c : MutationConfig) : MutationConfig where
  seed := o.kept "seed" initial.seed c.seed
  likelihood := o.kept "likelihood" initial.likelihood c.likelihood
  maxMutants := o.kept "max_bugs_per_entity" initial.maxMutants c.maxMutants
  modifiers := o.kept "modifiers" initial.modifiers
    (c.modifiers.without (o.below "modifiers") Override.without)

theorem initial_without (o : Omission) : initial.without o = initial := by
  have hempty : initial.modifiers.without (o.below "modifiers") Override.without =
      initial.modifiers := rfl
  simp only [without, hempty, Omission.kept_self]

end MutationConfig

namespace LanguagesConfig

def without (o : Omission) (c : LanguagesConfig) : LanguagesConfig where
  disabled := o.kept "disabled" initial.disabled c.disabled
  extensions := o.kept "extensions" initial.extensions
    (c.extensions.without (o.below "extensions") fun _ name => name)

theorem initial_without (o : Omission) : initial.without o = initial := by
  have hempty : initial.extensions.without (o.below "extensions") (fun _ name => name) =
      initial.extensions := rfl
  simp only [without, hempty, Omission.kept_self]

end LanguagesConfig

namespace LoggingConfig

def without (o : Omission) (c : LoggingConfig) : LoggingConfig where
  level := o.kept "level" initial.level c.level

theorem initial_without (o : Omission) : initial.without o = initial := by
  simp only [without, Omission.kept_self]

end LoggingConfig

namespace Config

/-- The configuration with the initial values in the sections and under the keys that are left
out. Entries of a table that are left out are not there. -/
def without (o : Omission) (c : Config) : Config where
  extraction := o.kept "extraction" .initial (c.extraction.without (o.below "extraction"))
  mutation := o.kept "mutation" .initial (c.mutation.without (o.below "mutation"))
  languages := o.kept "languages" .initial (c.languages.without (o.below "languages"))
  logging := o.kept "logging" .initial (c.logging.without (o.below "logging"))

/-! ## Reading what is left -/

section

variable {α : Type} {o : Omission} {entries : List (String × Toml)} {key : String}
  {f : Toml → Option α} {missing a : α}

/-- A member is read in what is left, when its reader goes together with leaving things out. -/
theorem member_without {g : α → α} (h : member entries key f missing = some a)
    (hmissing : g missing = missing)
    (hf : ∀ v, entries.lookup key = some v → f v = some a →
      f (v.without (o.below key)) = some (g a)) :
    member (o.members Toml.without entries) key f missing = some (o.kept key missing (g a)) := by
  rw [member, o.lookup_members, Omission.kept]
  cases o [key] with
  | true => rfl
  | false =>
    rcases member_eq_some h with ⟨hnone, rfl⟩ | ⟨v, hv, hfv⟩
    · simp [hnone, hmissing]
    · simp [hv, hf v hv hfv]

/-- A value that is no table stays as it is. -/
theorem member_without_value (h : member entries key f missing = some a)
    (hf : ∀ members, f (.table members) = none) :
    member (o.members Toml.without entries) key f missing = some (o.kept key missing a) := by
  refine member_without (g := id) h rfl ?_
  intro v _ hv
  rw [Toml.without_of_not_table]
  · exact hv
  · rintro members rfl
    rw [hf] at hv
    cases hv

end

/-! Tables, entry by entry. -/

section

variable {α : Type} {o : Omission} {entries : List (String × Toml)} {read : Toml → Option α}
  {g : Omission → α → α}

theorem mapM_without (hread : ∀ e ∈ entries, ∀ o' a, read e.2 = some a →
      read (e.2.without o') = some (g o' a)) {l : List (String × α)}
    (h : (entries.mapM fun (k, v) => do pure (k, ← read v)) = some l) :
    ((o.members Toml.without entries).mapM fun (k, v) => do pure (k, ← read v)) =
      some (o.members g l) := by
  induction entries generalizing l with
  | nil =>
    cases h
    rfl
  | cons e entries ih =>
    rw [List.forall_mem_cons] at hread
    simp only [List.mapM_cons, Option.bind_eq_bind, Option.bind_eq_some_iff] at h
    obtain ⟨_, ⟨a, ha, he⟩, l', hl, h⟩ := h
    cases he
    cases h
    have hrest := ih hread.2 (by simpa using hl)
    rw [Omission.members_cons, Omission.members_cons]
    cases o [e.1] with
    | true => exact hrest
    | false =>
      simp only [Bool.false_eq_true, if_false, List.mapM_cons, hrest]
      simp [hread.1 _ a ha]

theorem decodeTable_without (hread : ∀ e ∈ entries, ∀ o' a, read e.2 = some a →
      read (e.2.without o') = some (g o' a)) {t : Table α}
    (h : decodeTable read (.table entries) = some t) :
    decodeTable read (.table (o.members Toml.without entries)) = some (t.without o g) := by
  simp only [decodeTable, entriesOf, Option.bind_eq_bind, Option.bind_some,
    Option.bind_eq_some_iff] at h ⊢
  obtain ⟨l, hl, ht⟩ := h
  cases ht
  exact ⟨_, mapM_without hread hl, congrArg some (Table.ofList_members o g l)⟩

end

/-! Sections. -/

section

variable {o : Omission} {v : Toml}

theorem decodeOverride_without {c : Override} (hv : v.isTable = true)
    (h : decodeOverride v = some c) : decodeOverride (v.without o) = some (c.without o) := by
  obtain ⟨entries, rfl⟩ := Toml.exists_table_of_isTable hv
  simp only [Toml.without_table, decodeOverride, sectionOf, Option.bind_eq_bind, Option.bind_some,
    Option.bind_eq_some_iff] at h ⊢
  obtain ⟨_, henabled, _, hlikelihood, _, hlow, _, hhigh, _, hattempts, hc⟩ := h
  cases hc
  exact ⟨_, member_without_value henabled fun _ => rfl,
    _, member_without_value hlikelihood fun _ => rfl, _, member_without_value hlow fun _ => rfl,
    _, member_without_value hhigh fun _ => rfl, _, member_without_value hattempts fun _ => rfl, rfl⟩

theorem decodeExtraction_without {c : ExtractionConfig} (hv : v.isTable = true)
    (h : decodeExtraction v = some c) : decodeExtraction (v.without o) = some (c.without o) := by
  obtain ⟨entries, rfl⟩ := Toml.exists_table_of_isTable hv
  simp only [Toml.without_table, decodeExtraction, sectionOf, Option.bind_eq_bind, Option.bind_some,
    Option.bind_eq_some_iff] at h ⊢
  obtain ⟨_, hentities, _, hsize, _, hpatterns, hc⟩ := h
  cases hc
  exact ⟨_, member_without_value hentities fun _ => rfl, _, member_without_value hsize fun _ => rfl,
    _, member_without_value hpatterns fun _ => rfl, rfl⟩

theorem decodeMutation_without {c : MutationConfig} (hv : v.isTable = true)
    (hmodifiers : ∀ w, v.get? "modifiers" = some w →
      ∃ members, w = .table members ∧ ∀ m ∈ members, m.2.isTable = true)
    (h : decodeMutation v = some c) : decodeMutation (v.without o) = some (c.without o) := by
  obtain ⟨entries, rfl⟩ := Toml.exists_table_of_isTable hv
  simp only [Toml.without_table, decodeMutation, sectionOf, Option.bind_eq_bind, Option.bind_some,
    Option.bind_eq_some_iff] at h ⊢
  obtain ⟨_, hseed, _, hlikelihood, _, hmost, t, ht, hc⟩ := h
  cases hc
  refine ⟨_, member_without_value hseed fun _ => rfl,
    _, member_without_value hlikelihood fun _ => rfl, _, member_without_value hmost fun _ => rfl,
    _, member_without ht rfl ?_, rfl⟩
  intro w hw hread
  obtain ⟨members, rfl, htables⟩ := hmodifiers w hw
  rw [Toml.without_table]
  exact decodeTable_without (fun e he _ _ => decodeOverride_without (htables e he)) hread

theorem decodeText_without {s : String} (h : decodeText v = some s) :
    decodeText (v.without o) = some s := by
  rw [Toml.without_of_not_table]
  · exact h
  · rintro members rfl
    cases h

theorem decodeLanguages_without {c : LanguagesConfig} (hv : v.isTable = true)
    (hextensions : ∀ w, v.get? "extensions" = some w → w.isTable = true)
    (h : decodeLanguages v = some c) : decodeLanguages (v.without o) = some (c.without o) := by
  obtain ⟨entries, rfl⟩ := Toml.exists_table_of_isTable hv
  simp only [Toml.without_table, decodeLanguages, sectionOf, Option.bind_eq_bind, Option.bind_some,
    Option.bind_eq_some_iff] at h ⊢
  obtain ⟨_, hdisabled, t, ht, hc⟩ := h
  cases hc
  refine ⟨_, member_without_value hdisabled fun _ => rfl, _, member_without ht rfl ?_, rfl⟩
  intro w hw hread
  obtain ⟨members, rfl⟩ := Toml.exists_table_of_isTable (hextensions w hw)
  rw [Toml.without_table]
  exact decodeTable_without (fun _ _ _ _ => decodeText_without) hread

theorem decodeLogging_without {c : LoggingConfig} (hv : v.isTable = true)
    (h : decodeLogging v = some c) : decodeLogging (v.without o) = some (c.without o) := by
  obtain ⟨entries, rfl⟩ := Toml.exists_table_of_isTable hv
  simp only [Toml.without_table, decodeLogging, sectionOf, Option.bind_eq_bind, Option.bind_some,
    Option.bind_eq_some_iff] at h ⊢
  obtain ⟨_, hlevel, hc⟩ := h
  cases hc
  exact ⟨_, member_without_value hlevel fun _ => rfl, rfl⟩

end

/-! Documents. -/

/-- The sections of a document are tables and so are their tables; none of them is an array or a
date, which has no keys that could be left out. -/
structure Tabular (doc : Toml) : Prop where
  document : doc.isTable = true
  sections : ∀ name ∈ ["extraction", "mutation", "languages", "logging"], ∀ v,
    doc.get? name = some v → v.isTable = true
  modifiers : ∀ v w, doc.get? "mutation" = some v → v.get? "modifiers" = some w →
    ∃ members, w = .table members ∧ ∀ m ∈ members, m.2.isTable = true
  extensions : ∀ v w, doc.get? "languages" = some v → v.get? "extensions" = some w →
    w.isTable = true

/-- What is left out of a document has its initial values, and everything else is as it was. -/
theorem decode_without {doc : Toml} (htab : Tabular doc) {c : Config} (h : decode doc = some c)
    (o : Omission) : decode (doc.without o) = some (c.without o) := by
  obtain ⟨entries, rfl⟩ := Toml.exists_table_of_isTable htab.document
  simp only [Toml.without_table, decode, sectionOf, Option.bind_eq_bind, Option.bind_some,
    Option.bind_eq_some_iff] at h ⊢
  obtain ⟨_, hextraction, _, hmutation, _, hlanguages, _, hlogging, hc⟩ := h
  cases hc
  refine ⟨_, member_without hextraction (ExtractionConfig.initial_without _) ?_,
    _, member_without hmutation (MutationConfig.initial_without _) ?_,
    _, member_without hlanguages (LanguagesConfig.initial_without _) ?_,
    _, member_without hlogging (LoggingConfig.initial_without _) ?_, rfl⟩
  case refine_1 =>
    intro v hv
    exact decodeExtraction_without (htab.sections _ (by simp) v hv)
  case refine_2 =>
    intro v hv
    exact decodeMutation_without (htab.sections _ (by simp) v hv) fun w => htab.modifiers v w hv
  case refine_3 =>
    intro v hv
    exact decodeLanguages_without (htab.sections _ (by simp) v hv) fun w => htab.extensions v w hv
  case refine_4 =>
    intro v hv
    exact decodeLogging_without (htab.sections _ (by simp) v hv)

end Config
end Mutagen
