/-!
# Tables

A table maps texts to values and keeps its entries in strictly ascending order
of the keys, so that two tables with the same look-ups are equal.
-/
namespace Mutagen

variable {α β : Type}

/-- Puts an entry into ascending entries, in place of one with the same key. -/
def insertEntry (k : String) (v : α) : List (String × α) → List (String × α)
  | [] => [(k, v)]
  | e :: rest =>
    if k < e.1 then (k, v) :: e :: rest
    else if k = e.1 then (k, v) :: rest
    else e :: insertEntry k v rest

theorem mem_insertEntry {k : String} {v : α} {l : List (String × α)} {e : String × α}
    (h : e ∈ insertEntry k v l) : e = (k, v) ∨ e ∈ l := by
  induction l with
  | nil => simp_all [insertEntry]
  | cons a l ih =>
    simp only [insertEntry] at h
    split at h
    · simp_all
    · split at h
      · simp only [List.mem_cons] at h ⊢
        exact h.imp_right Or.inr
      · simp only [List.mem_cons] at h ⊢
        rcases h with h | h
        · exact Or.inr (Or.inl h)
        · exact (ih h).imp_right Or.inr

theorem insertEntry_ordered (k : String) (v : α) (l : List (String × α))
    (h : l.Pairwise (·.1 < ·.1)) : (insertEntry k v l).Pairwise (·.1 < ·.1) := by
  induction l with
  | nil => simp [insertEntry]
  | cons a l ih =>
    have ha := (List.pairwise_cons.1 h).1
    have hl := (List.pairwise_cons.1 h).2
    simp only [insertEntry]
    split
    · rename_i hk
      refine List.pairwise_cons.2 ⟨?_, h⟩
      intro b hb
      rcases List.mem_cons.1 hb with rfl | hb
      · exact hk
      · exact String.lt_trans hk (ha b hb)
    · split
      · rename_i hk
        refine List.pairwise_cons.2 ⟨?_, hl⟩
        intro b hb
        simp only
        rw [hk]
        exact ha b hb
      · rename_i hlt hne
        refine List.pairwise_cons.2 ⟨?_, ih hl⟩
        intro b hb
        rcases mem_insertEntry hb with rfl | hb
        · have hle : a.1 ≤ k := String.not_lt.1 hlt
          exact Decidable.byContradiction fun hn =>
            hne (String.le_antisymm (String.not_lt.1 hn) hle)
        · exact ha b hb

structure Table (α : Type) where
  entries : List (String × α)
  ordered : entries.Pairwise (·.1 < ·.1)

namespace Table

def empty : Table α := ⟨[], List.Pairwise.nil⟩

instance : Inhabited (Table α) := ⟨empty⟩

def get? (t : Table α) (k : String) : Option α := t.entries.lookup k

def insert (t : Table α) (k : String) (v : α) : Table α :=
  ⟨insertEntry k v t.entries, insertEntry_ordered k v t.entries t.ordered⟩

def keys (t : Table α) : List String := t.entries.map (·.1)

def isEmpty (t : Table α) : Bool := t.entries.isEmpty

/-- The table of some entries; of entries with the same key the last one counts. -/
def ofList (l : List (String × α)) : Table α := l.foldl (fun t e => t.insert e.1 e.2) empty

def map (f : α → β) (t : Table α) : Table β :=
  ⟨t.entries.map fun e => (e.1, f e.2), List.pairwise_map.2 t.ordered⟩

end Table
end Mutagen
