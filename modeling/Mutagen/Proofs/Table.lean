import Mutagen.Table

/-!
Look-ups and keys of a table after an entry is put into it, tables that are told apart by
their look-ups, and the last of the entries whose keys have a property.
-/
namespace Mutagen

variable {α : Type}

theorem lookup_cons_of_ne {k : String} {e : String × α} (h : k ≠ e.1) (l : List (String × α)) :
    (e :: l).lookup k = l.lookup k := by
  have hkey : (k == e.1) = false := by simpa using h
  rw [List.lookup_cons, hkey]

theorem lookup_insertEntry_self (k : String) (v : α) (l : List (String × α)) :
    (insertEntry k v l).lookup k = some v := by
  induction l with
  | nil => simp [insertEntry]
  | cons e l ih =>
    rw [insertEntry]
    split
    · simp
    · split
      · simp
      · rename_i hne
        rw [lookup_cons_of_ne hne]
        exact ih

theorem lookup_insertEntry_of_ne {k k' : String} (h : k' ≠ k) (v : α) (l : List (String × α)) :
    (insertEntry k v l).lookup k' = l.lookup k' := by
  induction l with
  | nil => exact lookup_cons_of_ne h []
  | cons e l ih =>
    rw [insertEntry]
    split
    · exact lookup_cons_of_ne h (e :: l)
    · split
      · rename_i heq
        rw [lookup_cons_of_ne h, lookup_cons_of_ne (heq ▸ h)]
      · rw [List.lookup_cons, List.lookup_cons, ih]

/-- Nothing is found under a key below those of all entries. -/
theorem lookup_eq_none_of_lt {k : String} {l : List (String × α)} (h : ∀ e ∈ l, k < e.1) :
    l.lookup k = none := by
  rw [List.lookup_eq_none_iff]
  intro e he
  rw [bne_iff_ne]
  intro heq
  have hlt := h e he
  rw [heq] at hlt
  exact String.lt_irrefl _ hlt

/-- The first of ascending entries has no smaller key than the first of others in which its key
is found. -/
theorem not_lt_of_lookup_eq {e e' : String × α} {l l' : List (String × α)}
    (hordered : (e' :: l').Pairwise (·.1 < ·.1))
    (h : ∀ k, (e :: l).lookup k = (e' :: l').lookup k) : ¬e.1 < e'.1 := by
  intro hlt
  have hnone : (e' :: l').lookup e.1 = none := by
    refine lookup_eq_none_of_lt ?_
    intro d hd
    rcases List.mem_cons.1 hd with rfl | hd
    · exact hlt
    · exact String.lt_trans hlt ((List.pairwise_cons.1 hordered).1 d hd)
  rw [← h, List.lookup_cons_self] at hnone
  cases hnone

/-- Ascending entries with the same look-ups are the same. -/
theorem eq_of_lookup_eq {l l' : List (String × α)} (hl : l.Pairwise (·.1 < ·.1))
    (hl' : l'.Pairwise (·.1 < ·.1)) (h : ∀ k, l.lookup k = l'.lookup k) : l = l' := by
  induction l generalizing l' with
  | nil =>
    cases l' with
    | nil => rfl
    | cons e' l' =>
      have hhead := h e'.1
      rw [List.lookup_cons_self] at hhead
      cases hhead
  | cons e l ih =>
    cases l' with
    | nil =>
      have hhead := h e.1
      rw [List.lookup_cons_self] at hhead
      cases hhead
    | cons e' l' =>
      have hkey : e.1 = e'.1 := String.le_antisymm
        (String.not_lt.1 (not_lt_of_lookup_eq hl fun k => (h k).symm))
        (String.not_lt.1 (not_lt_of_lookup_eq hl' h))
      have hvalue : e.2 = e'.2 := by
        have hhead := h e.1
        rw [List.lookup_cons_self, hkey, List.lookup_cons_self] at hhead
        exact Option.some.inj hhead
      have htail : ∀ k, l.lookup k = l'.lookup k := by
        intro k
        by_cases hk : k = e.1
        · subst hk
          rw [lookup_eq_none_of_lt (List.pairwise_cons.1 hl).1, hkey,
            lookup_eq_none_of_lt (List.pairwise_cons.1 hl').1]
        · rw [← lookup_cons_of_ne hk l, h k, lookup_cons_of_ne (hkey ▸ hk) l']
      rw [ih (List.pairwise_cons.1 hl).2 (List.pairwise_cons.1 hl').2 htail, Prod.ext hkey hvalue]

namespace Table

/-- Tables with the same look-ups are equal. -/
theorem ext_get? {t u : Table α} (h : ∀ k, t.get? k = u.get? k) : t = u := by
  obtain ⟨entries, ordered⟩ := t
  obtain ⟨entries', ordered'⟩ := u
  obtain rfl : entries = entries' := eq_of_lookup_eq ordered ordered' h
  rfl

theorem get?_insert_self (t : Table α) (k : String) (v : α) : (t.insert k v).get? k = some v :=
  lookup_insertEntry_self k v t.entries

theorem get?_insert_of_ne (t : Table α) {k k' : String} (h : k' ≠ k) (v : α) :
    (t.insert k v).get? k' = t.get? k' :=
  lookup_insertEntry_of_ne h v t.entries

theorem mem_keys_insert {t : Table α} {k k' : String} {v : α} (h : k' ∈ (t.insert k v).keys) :
    k' = k ∨ k' ∈ t.keys := by
  obtain ⟨e, he, rfl⟩ := List.mem_map.1 h
  rcases mem_insertEntry he with rfl | he
  · exact .inl rfl
  · exact .inr (List.mem_map.2 ⟨e, he, rfl⟩)

theorem get?_eq_some_iff {t : Table α} {k : String} {v : α} :
    t.get? k = some v ↔ (k, v) ∈ t.entries := by
  constructor
  · intro h
    obtain ⟨before, after, hentries, -⟩ := List.lookup_eq_some_iff.1 h
    simp [hentries]
  · intro h
    obtain ⟨before, after, hentries⟩ := List.append_of_mem h
    refine List.lookup_eq_some_iff.2 ⟨before, after, hentries, fun e he => ?_⟩
    have hordered := t.ordered
    rw [hentries, List.pairwise_append] at hordered
    have hlt : e.1 < k := hordered.2.2 e he (k, v) (by simp)
    rw [bne_iff_ne]
    rintro rfl
    exact String.lt_irrefl _ hlt

theorem mem_keys_iff {t : Table α} {k : String} : k ∈ t.keys ↔ ∃ v, t.get? k = some v := by
  simp [keys, get?_eq_some_iff]

/-- The last entry whose key has a property. -/
def last? (t : Table α) (p : String → Bool) : Option (String × α) :=
  t.entries.reverse.find? fun e => p e.1

theorem last?_eq_some_iff {t : Table α} {p : String → Bool} {k : String} {v : α} :
    t.last? p = some (k, v) ↔
      t.get? k = some v ∧ p k = true ∧ ∀ k' ∈ t.keys, p k' = true → k' ≤ k := by
  have hordered : t.entries.reverse.Pairwise fun a b => b.1 < a.1 :=
    List.pairwise_reverse.2 t.ordered
  rw [last?, List.find?_eq_some_iff_append]
  constructor
  · rintro ⟨hk, before, after, hentries, hbefore⟩
    have hmem : ∀ e, e ∈ t.entries ↔ e ∈ before ++ (k, v) :: after := by
      intro e
      rw [← hentries, List.mem_reverse]
    rw [hentries, List.pairwise_append, List.pairwise_cons] at hordered
    refine ⟨get?_eq_some_iff.2 ((hmem _).2 (by simp)), hk, fun k' hk' hp => ?_⟩
    obtain ⟨e, he, rfl⟩ := List.mem_map.1 hk'
    rcases List.mem_append.1 ((hmem e).1 he) with he | he
    · exact absurd hp (by simpa using hbefore e he)
    · rcases List.mem_cons.1 he with rfl | he
      · exact String.le_refl _
      · exact String.not_lt.1 (String.lt_asymm (hordered.2.1.1 e he))
  · rintro ⟨hget, hk, hlast⟩
    obtain ⟨before, after, hentries⟩ :=
      List.append_of_mem (List.mem_reverse.2 (get?_eq_some_iff.1 hget))
    rw [hentries, List.pairwise_append] at hordered
    refine ⟨hk, before, after, hentries, fun e he => ?_⟩
    have hlt : k < e.1 := hordered.2.2 e he (k, v) (by simp)
    have hkey : e.1 ∈ t.keys :=
      List.mem_map.2 ⟨e, List.mem_reverse.1 (by simp [hentries, he]), rfl⟩
    rw [Bool.not_eq_true', Bool.eq_false_iff]
    exact fun hp => String.not_lt.2 (hlast e.1 hkey hp) hlt

theorem last?_eq_none_iff {t : Table α} {p : String → Bool} :
    t.last? p = none ↔ ∀ k ∈ t.keys, p k ≠ true := by
  simp [last?, keys]

end Table
end Mutagen
