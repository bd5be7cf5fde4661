import Mathlib.Data.List.Induction
import Mutagen.Config.Merge
import Mutagen.Proofs.Table

/-!
# Laws of layers

Laying configurations over each other does not depend on how the layers are grouped, and
a configuration over itself changes nothing. Each kind of part has its own rule, and the
laws are shown rule by rule: the last value that says something, the union of lists in
order, and tables merged key by key. A layer that has all the initial values says nothing
to a configuration with the initial patterns.
-/
namespace Mutagen

/-! ## Lists -/

theorem appendNew_append (base more rest : List String) :
    appendNew base (more ++ rest) = appendNew (appendNew base more) rest := by
  rw [appendNew, List.foldl_append]
  rfl

theorem appendNew_singleton (base : List String) (s : String) :
    appendNew base [s] = if s ∈ base then base else base ++ [s] := by
  simp [appendNew]

theorem mem_appendNew {base more : List String} {s : String} :
    s ∈ appendNew base more ↔ s ∈ base ∨ s ∈ more := by
  induction more using List.reverseRecOn with
  | nil => simp [appendNew]
  | append_singleton more t ih =>
    rw [appendNew_append, appendNew_singleton]
    split
    · rename_i hknown
      simp only [ih, List.mem_append, List.mem_singleton]
      refine ⟨fun h => h.imp_right Or.inl, ?_⟩
      rintro (h | h | rfl)
      · exact .inl h
      · exact .inr h
      · exact ih.1 hknown
    · simp only [List.mem_append, ih, List.mem_singleton, or_assoc]

theorem appendNew_eq_self {base more : List String} (h : ∀ s ∈ more, s ∈ base) :
    appendNew base more = base := by
  induction more using List.reverseRecOn with
  | nil => rfl
  | append_singleton more t ih =>
    rw [appendNew_append, ih fun s hs => h s (List.mem_append_left _ hs), appendNew_singleton,
      if_pos (h t (by simp))]

/-- A list with the items of another that are new after it, each at the place where it is met
first. No item of either list is lost. -/
structure Joined (base more result : List String) : Prop where
  eq_append : result = base ++ (more.filter (· ∉ base)).eraseDups
  mem_iff : ∀ s, s ∈ result ↔ s ∈ base ∨ s ∈ more

theorem appendNew_eq (base more : List String) :
    appendNew base more = base ++ (more.filter (· ∉ base)).eraseDups := by
  induction more generalizing base with
  | nil => simp [appendNew]
  | cons s more ih =>
    rw [← List.singleton_append, appendNew_append, appendNew_singleton, List.singleton_append]
    by_cases hs : s ∈ base
    · rw [if_pos hs, ih]
      simp [hs]
    · have hfilter : more.filter (· ∉ base ++ [s]) =
          (more.filter (· ∉ base)).filter fun t => !t == s := by
        rw [List.filter_filter]
        refine List.filter_congr ?_
        intro t _
        by_cases ht : t = s <;> simp [ht]
      rw [if_neg hs, ih, hfilter, List.filter_cons_of_pos (by simpa using hs), List.eraseDups_cons]
      simp

theorem joined_appendNew (base more : List String) : Joined base more (appendNew base more) :=
  ⟨appendNew_eq base more, fun _ => mem_appendNew⟩

/-- What is new over two lists is new over the second and then over the first. -/
theorem appendNew_assoc (a b c : List String) :
    appendNew (appendNew a b) c = appendNew a (appendNew b c) := by
  induction c using List.reverseRecOn with
  | nil => rfl
  | append_singleton c s ih =>
    rw [appendNew_append, appendNew_append, appendNew_singleton, appendNew_singleton, ih]
    by_cases hs : s ∈ appendNew b c
    · rw [if_pos hs, if_pos (mem_appendNew.2 (.inr hs))]
    · rw [if_neg hs, appendNew_append, appendNew_singleton]

/-! ## Tables -/

namespace Table

variable {α : Type} {f : α → α → α}

/-- One entry laid over a table. -/
theorem get?_insert_merged (t : Table α) (e : String × α) (k : String) :
    (t.insert e.1 (match t.get? e.1 with
      | some v => f v e.2
      | none => e.2)).get? k =
      if k = e.1 then Option.merge f (t.get? k) (some e.2) else t.get? k := by
  by_cases hk : k = e.1
  · subst hk
    rw [get?_insert_self, if_pos rfl]
    cases t.get? e.1 <;> rfl
  · rw [get?_insert_of_ne t hk, if_neg hk]

/-- Every key has the entries of both tables, joined where there are two. -/
theorem get?_mergeWith (below above : Table α) (k : String) :
    (below.mergeWith f above).get? k = Option.merge f (below.get? k) (above.get? k) := by
  obtain ⟨entries, ordered⟩ := above
  simp only [mergeWith, get?]
  induction entries generalizing below with
  | nil => simp
  | cons e entries ih =>
    obtain ⟨hfirst, hrest⟩ := List.pairwise_cons.1 ordered
    rw [List.foldl_cons]
    refine (ih _ hrest).trans ?_
    by_cases hk : k = e.1
    · subst hk
      rw [lookup_eq_none_of_lt hfirst, List.lookup_cons_self, Option.merge_none_right]
      exact (get?_insert_merged below e e.1).trans (if_pos rfl)
    · rw [lookup_cons_of_ne hk]
      exact congrArg (Option.merge f · _) ((get?_insert_merged below e k).trans (if_neg hk))

theorem empty_mergeWith (t : Table α) : empty.mergeWith f t = t := by
  refine ext_get? ?_
  intro k
  rw [get?_mergeWith]
  exact Option.merge_none_left

theorem mergeWith_assoc (hf : ∀ x y z, f (f x y) z = f x (f y z)) (a b c : Table α) :
    (a.mergeWith f b).mergeWith f c = a.mergeWith f (b.mergeWith f c) := by
  have hassoc : Std.Associative f := ⟨hf⟩
  refine ext_get? ?_
  intro k
  simp only [get?_mergeWith]
  exact Std.Associative.assoc _ _ _

theorem mergeWith_self (hf : ∀ x, f x x = x) (t : Table α) : t.mergeWith f t = t := by
  refine ext_get? ?_
  intro k
  rw [get?_mergeWith]
  cases t.get? k with
  | none => rfl
  | some v => exact congrArg some (hf v)

end Table

/-! ## Configurations -/

/-- Of three values the last one that is not the initial one counts, however they are grouped. -/
theorem ite_ne_assoc {α : Type} [DecidableEq α] (first a b c : α) :
    (if c ≠ first then c else if b ≠ first then b else a) =
      if (if c ≠ first then c else b) ≠ first then (if c ≠ first then c else b) else a := by
  by_cases hc : c = first <;> simp [hc]

theorem ite_ne_first {α : Type} [DecidableEq α] (first a : α) :
    (if a ≠ first then a else first) = a := by
  by_cases h : a = first <;> simp [h]

namespace Override

theorem merge_assoc (a b c : Override) : (a.merge b).merge c = a.merge (b.merge c) := by
  simp only [merge, Option.or_assoc]

theorem merge_self (o : Override) : o.merge o = o := by
  simp only [merge, Option.or_self]

end Override

namespace ExtractionConfig

theorem merge_assoc (a b c : ExtractionConfig) : (a.merge b).merge c = a.merge (b.merge c) := by
  simp only [merge, mk.injEq]
  exact ⟨Option.or_assoc.symm, ite_ne_assoc _ _ _ _, appendNew_assoc _ _ _⟩

theorem merge_self (c : ExtractionConfig) : c.merge c = c := by
  simp only [merge, Option.or_self, ite_self, appendNew_eq_self fun _ h => h]

end ExtractionConfig

namespace MutationConfig

theorem merge_assoc (a b c : MutationConfig) : (a.merge b).merge c = a.merge (b.merge c) := by
  simp only [merge, mk.injEq]
  exact ⟨ite_ne_assoc _ _ _ _, Option.or_assoc.symm, ite_ne_assoc _ _ _ _,
    Table.mergeWith_assoc Override.merge_assoc _ _ _⟩

theorem merge_self (c : MutationConfig) : c.merge c = c := by
  simp only [merge, Option.or_self, ite_self, Table.mergeWith_self Override.merge_self]

end MutationConfig

namespace LanguagesConfig

theorem merge_assoc (a b c : LanguagesConfig) : (a.merge b).merge c = a.merge (b.merge c) := by
  simp only [merge, mk.injEq]
  exact ⟨appendNew_assoc _ _ _, Table.mergeWith_assoc (fun _ _ _ => rfl) _ _ _⟩

/-- The upper layer routes an extension, and the lower one where the upper one does not. -/
theorem get?_extensions_merge (a b : LanguagesConfig) (k : String) :
    (a.merge b).extensions.get? k = (b.extensions.get? k).or (a.extensions.get? k) := by
  refine (Table.get?_mergeWith _ _ k).trans ?_
  cases a.extensions.get? k <;> cases b.extensions.get? k <;> rfl

theorem merge_self (c : LanguagesConfig) : c.merge c = c := by
  have hextensions : c.extensions.mergeWith (fun _ v => v) c.extensions = c.extensions :=
    Table.mergeWith_self (fun _ => rfl) c.extensions
  simp only [merge, appendNew_eq_self fun _ h => h, hextensions]

end LanguagesConfig

namespace LoggingConfig

theorem merge_assoc (a b c : LoggingConfig) : (a.merge b).merge c = a.merge (b.merge c) := by
  simp only [merge, mk.injEq]
  exact ite_ne_assoc _ _ _ _

theorem merge_self (c : LoggingConfig) : c.merge c = c := by
  simp only [merge, ite_self]

end LoggingConfig

namespace Config

theorem merge_assoc (a b c : Config) : (a.merge b).merge c = a.merge (b.merge c) := by
  simp only [merge, ExtractionConfig.merge_assoc, MutationConfig.merge_assoc,
    LanguagesConfig.merge_assoc, LoggingConfig.merge_assoc]

theorem merge_self (c : Config) : c.merge c = c := by
  simp only [merge, ExtractionConfig.merge_self, MutationConfig.merge_self,
    LanguagesConfig.merge_self, LoggingConfig.merge_self]

/-- A layer with the initial values says nothing where the initial patterns are there. -/
theorem merge_initial {c : Config}
    (h : ∀ s ∈ initial.extraction.excludePatterns, s ∈ c.extraction.excludePatterns) :
    c.merge initial = c := by
  have hpatterns : appendNew c.extraction.excludePatterns
      ExtractionConfig.initial.excludePatterns = c.extraction.excludePatterns :=
    appendNew_eq_self h
  have hextraction : c.extraction.merge .initial = c.extraction := by
    rw [ExtractionConfig.merge, hpatterns]
    rfl
  simp only [merge, initial, hextraction]
  rfl

/-- Over the initial configuration a layer keeps its values, but the initial patterns come before
its own, and its lists lose their repetitions. -/
theorem initial_merge (c : Config) :
    initial.merge c =
      { c with
        extraction := { c.extraction with
          excludePatterns := appendNew initial.extraction.excludePatterns
            c.extraction.excludePatterns }
        languages := { c.languages with disabled := appendNew [] c.languages.disabled } } := by
  simp only [merge, initial, ExtractionConfig.merge, ExtractionConfig.initial, MutationConfig.merge,
    MutationConfig.initial, LanguagesConfig.merge, LanguagesConfig.initial, LoggingConfig.merge,
    LoggingConfig.initial, Option.or_none, ite_ne_first, Table.empty_mergeWith]

/-- Layers can be grouped in any way, and a layer over itself changes nothing. In the result the
patterns and the languages that are turned off are those of the lower layer, in their order, and
after them those of the upper layer that are new, each once. Nothing is lost: the lists have the
items of both layers, and the tables have the entries of both, those under the same key joined. -/
theorem merge_laws (a b c : Config) :
    (a.merge b).merge c = a.merge (b.merge c) ∧
      a.merge a = a ∧
      Joined a.extraction.excludePatterns b.extraction.excludePatterns
        (a.merge b).extraction.excludePatterns ∧
      Joined a.languages.disabled b.languages.disabled (a.merge b).languages.disabled ∧
      (∀ k, (a.merge b).mutation.modifiers.get? k =
        Option.merge Override.merge (a.mutation.modifiers.get? k) (b.mutation.modifiers.get? k)) ∧
      ∀ k, (a.merge b).languages.extensions.get? k =
        (b.languages.extensions.get? k).or (a.languages.extensions.get? k) := by
  refine ⟨merge_assoc a b c, merge_self a, joined_appendNew _ _, joined_appendNew _ _, ?_, ?_⟩
  · exact Table.get?_mergeWith _ _
  · exact LanguagesConfig.get?_extensions_merge _ _

end Config
end Mutagen
