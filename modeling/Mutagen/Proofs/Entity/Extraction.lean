import Mathlib.Data.List.Forall2
import Mutagen.Entity.Basic
import Mutagen.Proofs.Entity.Handle

/-!
# Extraction as a filter

Extraction is one walk that stops for two reasons, a mistake in the file and a
bound on the entities. What it finds is a filter of the document order: the sites
before the first mistake that define an entity, and of these as many as the bound
allows. What an entity of a file leads to is a site of the file.
-/
namespace Mutagen

/-- The first items of a list, all of them without a limit. -/
def upTo {α : Type} : Option Nat → List α → List α
  | none, l => l
  | some n, l => l.take n

theorem upTo_reverse {α : Type} {limit : Option Nat} {l : List α}
    (h : ∀ n ∈ limit, l.length < n) : upTo limit l.reverse = l.reverse := by
  cases limit with
  | none => rfl
  | some n =>
    have hn := h n rfl
    exact List.take_of_length_le (by simp only [List.length_reverse]; omega)

namespace Dialect

variable (d : Dialect) (file : SourceFile)

theorem entityAt?_eq_some_iff {s : Site} {e : Entity} :
    d.entityAt? file s = some e ↔
      ∃ kind, d.entityKind? s = some kind ∧ (d.body? s).isSome ∧ e = d.build file kind s := by
  unfold entityAt?
  cases hkind : d.entityKind? s with
  | none => simp
  | some kind =>
    cases hbody : d.body? s with
    | none => simp
    | some body => simp [eq_comm]

theorem isSome_entityAt?_iff {s : Site} :
    (d.entityAt? file s).isSome = true ↔ (d.entityKind? s).isSome ∧ (d.body? s).isSome := by
  rw [Option.isSome_iff_exists, Option.isSome_iff_exists]
  constructor
  · rintro ⟨e, he⟩
    obtain ⟨kind, hkind, hbody, -⟩ := (d.entityAt?_eq_some_iff file).1 he
    exact ⟨⟨kind, hkind⟩, hbody⟩
  · rintro ⟨⟨kind, hkind⟩, hbody⟩
    exact ⟨_, (d.entityAt?_eq_some_iff file).2 ⟨kind, hkind, hbody, rfl⟩⟩

theorem visit_ne_skipChildren (limit : Option Nat) (s : Site) (found : List Entity) :
    (d.visit file limit s found).1 ≠ .skipChildren := by
  unfold visit
  split
  · simp
  · split
    · simp
    · split <;> simp

/-- The entities of sites up to the first mistake. -/
def entitiesOf (l : List Site) : List Entity :=
  (l.takeWhile fun s => !s.faulty).filterMap (d.entityAt? file)

/-- While there is room, visiting sites adds their entities to those found, up to the limit. -/
theorem visitAll_visit (limit : Option Nat) (l : List Site) (found : List Entity)
    (hroom : ∀ n ∈ limit, found.length < n) :
    (Site.visitAll (d.visit file limit) l found).2.reverse =
      upTo limit (found.reverse ++ d.entitiesOf file l) := by
  induction l generalizing found with
  | nil =>
    change found.reverse = upTo limit (found.reverse ++ [])
    rw [List.append_nil, upTo_reverse hroom]
  | cons s l ih =>
    rw [Site.visitAll, visit]
    cases hfault : s.faulty with
    | true =>
      have hcut : d.entitiesOf file (s :: l) = [] := by simp [entitiesOf, hfault]
      rw [hcut, List.append_nil, upTo_reverse hroom]
      rfl
    | false =>
      cases hentity : d.entityAt? file s with
      | none =>
        have hskip : d.entitiesOf file (s :: l) = d.entitiesOf file l := by
          simp [entitiesOf, hfault, hentity]
        rw [hskip]
        exact ih found hroom
      | some e =>
        have htake : d.entitiesOf file (s :: l) = e :: d.entitiesOf file l := by
          simp [entitiesOf, hfault, hentity]
        rw [htake]
        cases hfull : limit.any fun n => decide (n ≤ found.length + 1) with
        | true =>
          -- the limit is reached by this entity
          cases limit with
          | none => cases hfull
          | some n =>
            have hlt := hroom n rfl
            have hle : n ≤ found.length + 1 := of_decide_eq_true hfull
            have hlen : n = (found.reverse ++ [e]).length := by
              simp only [List.length_append, List.length_reverse, List.length_singleton]
              omega
            simp only [Bool.false_eq_true, if_false, if_true, upTo]
            rw [List.append_cons, hlen, List.take_left]
            simp
        | false =>
          simp only [Bool.false_eq_true, if_false]
          rw [ih (e :: found)]
          · simp
          · rintro n rfl
            simpa using hfull

/-- Extraction is a filter of the document order. -/
theorem extract_eq_upTo (limit : Option Nat) :
    d.extract file limit = upTo limit (d.entitiesOf file (Site.top file.root).preorder) := by
  unfold extract
  split
  · rename_i hzero
    rw [hzero, upTo, List.take_zero]
  · rename_i hpos
    rw [Site.walk_eq_visitAll (d.visit_ne_skipChildren file limit), visitAll_visit]
    · rfl
    · rintro n rfl
      exact Nat.pos_of_ne_zero fun hn => hpos (by rw [hn])

theorem exists_entityAt?_of_mem_extract {limit : Option Nat} {e : Entity}
    (h : e ∈ d.extract file limit) :
    ∃ s, (Site.top file.root).Within s ∧ d.entityAt? file s = some e := by
  have hall : e ∈ d.entitiesOf file (Site.top file.root).preorder := by
    rw [extract_eq_upTo] at h
    cases limit with
    | none => exact h
    | some n => exact List.mem_of_mem_take h
  obtain ⟨s, hs, he⟩ := List.mem_filterMap.1 hall
  exact ⟨s, Site.mem_preorder_iff.1 ((List.takeWhile_sublist _).subset hs), he⟩

theorem mem_extract {limit : Option Nat} {e : Entity} (h : e ∈ d.extract file limit) :
    ∃ s kind, (Site.top file.root).Within s ∧ d.entityKind? s = some kind ∧
      e = d.build file kind s := by
  obtain ⟨s, hs, he⟩ := d.exists_entityAt?_of_mem_extract file h
  obtain ⟨kind, hkind, -, rfl⟩ := (d.entityAt?_eq_some_iff file).1 he
  exact ⟨s, kind, hs, hkind, rfl⟩

/-- The sites that define an entity, and their entities, one for one. -/
theorem forall₂_entityAt? (l : List Site) :
    List.Forall₂ (fun s e => d.entityAt? file s = some e)
      (l.filter fun s => (d.entityAt? file s).isSome) (l.filterMap (d.entityAt? file)) := by
  induction l with
  | nil => exact .nil
  | cons s l ih =>
    cases hs : d.entityAt? file s with
    | none =>
      rw [List.filter_cons_of_neg (by simp [hs]), List.filterMap_cons_none hs]
      exact ih
    | some e =>
      rw [List.filter_cons_of_pos (by simp [hs]), List.filterMap_cons_some hs]
      exact .cons hs ih

/-- Without a limit extraction finds one entity for each site that is before every mistake in the
file and has a kind of entity and a body, in document order. With a limit it finds the first of
these. -/
theorem extract_eq_bounded_filter :
    ∃ sites : List Site,
      sites.Pairwise (fun s t => s.path < t.path) ∧
      (∀ s, s ∈ sites ↔ (Site.top file.root).Within s ∧
        (∀ f, (Site.top file.root).Within f → f.faulty = true → s.path < f.path) ∧
        (d.entityKind? s).isSome = true ∧ (d.body? s).isSome = true) ∧
      List.Forall₂ (fun s e => ∃ kind, d.entityKind? s = some kind ∧ e = d.build file kind s)
        sites (d.extract file none) ∧
      ∀ n, d.extract file (some n) = (d.extract file none).take n := by
  have horder := (Site.top file.root).preorder_pairwise
  refine ⟨((Site.top file.root).preorder.takeWhile fun s => !s.faulty).filter fun s =>
    (d.entityAt? file s).isSome, ?_, ?_, ?_, ?_⟩
  · exact (horder.sublist (List.takeWhile_sublist _)).sublist List.filter_sublist
  · intro s
    rw [List.mem_filter, isSome_entityAt?_iff, Site.mem_takeWhile_iff horder, and_assoc]
    simp only [Site.mem_preorder_iff, Bool.not_eq_false']
  · rw [extract_eq_upTo]
    refine (d.forall₂_entityAt? file _).imp ?_
    intro s e he
    obtain ⟨kind, hkind, -, rfl⟩ := (d.entityAt?_eq_some_iff file).1 he
    exact ⟨kind, hkind, rfl⟩
  · intro n
    rw [extract_eq_upTo, extract_eq_upTo]
    rfl

end Dialect

/-! ## Targets -/

namespace Entity

theorem target?_eq_some_iff {e : Entity} {t : Target} :
    e.target? = some t ↔
      ∃ site, e.handle.resolve? = some site ∧ t = ⟨site, e.handle.source, e.language.dialect⟩ := by
  constructor
  · intro h
    obtain ⟨site, hsite, ht⟩ := Option.bind_eq_some_iff.1 h
    exact ⟨site, hsite, (Option.some.inj ht).symm⟩
  · rintro ⟨site, hsite, rfl⟩
    rw [target?, hsite]
    rfl

/-- What an entity leads to is a site of its tree with its span. -/
theorem of_target?_eq_some {e : Entity} {t : Target} (h : e.target? = some t) :
    (Site.top e.handle.root).Within t.site ∧ t.site.span = e.span ∧
      t.source = e.handle.source ∧ t.dialect = e.language.dialect := by
  obtain ⟨site, hsite, rfl⟩ := target?_eq_some_iff.1 h
  obtain ⟨hwithin, -, hspan⟩ := Handle.resolve?_eq_some hsite
  exact ⟨hwithin, hspan, rfl, rfl⟩

section Extracted

variable {d : Dialect} {file : SourceFile} {limit : Option Nat}

/-- The handle of an entity of a file is into the file. -/
theorem handle_of_mem_extract {e : Entity} (he : e ∈ d.extract file limit) :
    e.handle.root = file.root ∧ e.handle.source = file.source := by
  obtain ⟨s, kind, -, -, rfl⟩ := d.mem_extract file he
  exact ⟨rfl, rfl⟩

/-- What an entity of a file leads to is a site of the file with its span. -/
theorem of_target?_of_mem_extract {e : Entity} {t : Target} (he : e ∈ d.extract file limit)
    (ht : e.target? = some t) :
    e.handle.root = file.root ∧ e.handle.source = file.source ∧
      (Site.top file.root).Within t.site ∧ t.site.span = e.span ∧ t.source = file.source := by
  obtain ⟨hroot, hhandle⟩ := handle_of_mem_extract he
  obtain ⟨hsite, hspan, hsource, -⟩ := of_target?_eq_some ht
  rw [hroot] at hsite
  exact ⟨hroot, hhandle, hsite, hspan, hsource.trans hhandle⟩

/-- An entity that is found in a file and leads to something with a property: both are there, the
handle and the site in the file. -/
theorem exists_target_of_extract {p : Entity → Target → Prop}
    (h : ∃ e ∈ d.extract file limit, ∃ t ∈ e.target?, p e t) :
    ∃ e ∈ d.extract file limit, ∃ t, e.target? = some t ∧ e.handle.root = file.root ∧
      (Site.top e.handle.root).Within t.site ∧ p e t := by
  obtain ⟨e, he, t, ht, hp⟩ := h
  exact ⟨e, he, t, ht, (handle_of_mem_extract he).1, (of_target?_eq_some ht).1, hp⟩

end Extracted
end Entity
end Mutagen
