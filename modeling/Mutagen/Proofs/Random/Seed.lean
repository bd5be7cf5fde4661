import Mathlib.Data.List.Infix
import Mutagen.Modifier.Strategy
import Mutagen.Random.Seed
import Mutagen.Text.Bytes

/-!
# Seeds that are told apart

The multiplier of the hash is odd, so each step of it can be taken back. Hashes that differ still
differ after the same bytes more, and a byte that is another one is not made good by those
behind it. A path and the name of a strategy are hashed without anything between them, and
still they can be read off what is hashed, since no name ends in another one.
-/
namespace Mutagen

/-- Byte strings of the same length that differ at one place. -/
def OneApart (p q : List UInt8) : Prop := p.length = q.length ∧ ∃! i : Nat, p[i]? ≠ q[i]?

theorem OneApart.exists_eq {p q : List UInt8} (h : OneApart p q) :
    ∃ before x y after, p = before ++ x :: after ∧ q = before ++ y :: after ∧ x ≠ y := by
  obtain ⟨hlength, i, hi, honly⟩ := h
  have hsame : ∀ j, j ≠ i → p[j]? = q[j]? := fun j hj => not_not.1 fun hne => hj (honly j hne)
  have hp : i < p.length := by
    by_contra hge
    refine hi ?_
    rw [List.getElem?_eq_none (by omega), List.getElem?_eq_none (by omega)]
  have hq : i < q.length := hlength ▸ hp
  have hbefore : p.take i = q.take i := by
    refine List.ext_getElem? fun j => ?_
    simp only [List.getElem?_take]
    split
    · exact hsame j (by omega)
    · rfl
  have hafter : p.drop (i + 1) = q.drop (i + 1) := by
    refine List.ext_getElem? fun j => ?_
    simp only [List.getElem?_drop]
    exact hsame _ (by omega)
  refine ⟨p.take i, p[i], q[i], p.drop (i + 1), ?_, ?_, ?_⟩
  · rw [← List.drop_eq_getElem_cons hp, List.take_append_drop]
  · rw [hbefore, hafter, ← List.drop_eq_getElem_cons hq, List.take_append_drop]
  · intro heq
    exact hi (by rw [List.getElem?_eq_getElem hp, List.getElem?_eq_getElem hq, heq])

namespace Seed

/-! ## Steps of the hash -/

theorem mul_multiplier_inj {a b : UInt64} : a * 0x100000001b3 = b * 0x100000001b3 ↔ a = b := by
  have hinverse : (0x100000001b3 : UInt64) * 0xce965057aff6957b = 1 := by decide
  refine ⟨fun h => ?_, fun h => h ▸ rfl⟩
  calc a = a * 0x100000001b3 * 0xce965057aff6957b := by
        rw [UInt64.mul_assoc, hinverse, UInt64.mul_one]
    _ = b * 0x100000001b3 * 0xce965057aff6957b := by rw [h]
    _ = b := by rw [UInt64.mul_assoc, hinverse, UInt64.mul_one]

theorem mix_left_inj {hash hash' : UInt64} {b : UInt8} :
    mix hash b = mix hash' b ↔ hash = hash' := by
  rw [mix, mix, mul_multiplier_inj, UInt64.xor_left_inj]

theorem mix_right_inj {hash : UInt64} {b b' : UInt8} : mix hash b = mix hash b' ↔ b = b' := by
  rw [mix, mix, mul_multiplier_inj, UInt64.xor_right_inj, UInt8.toUInt64_inj]

/-- The same bytes keep hashes apart. -/
theorem foldl_mix_inj {hash hash' : UInt64} {l : List UInt8} :
    l.foldl mix hash = l.foldl mix hash' ↔ hash = hash' := by
  induction l generalizing hash hash' with
  | nil => rfl
  | cons b l ih => rw [List.foldl_cons, List.foldl_cons, ih, mix_left_inj]

theorem foldl_mix_ne {hash : UInt64} {p q : List UInt8} (h : OneApart p q) :
    p.foldl mix hash ≠ q.foldl mix hash := by
  obtain ⟨before, x, y, after, rfl, rfl, hne⟩ := h.exists_eq
  rw [List.foldl_append, List.foldl_append, List.foldl_cons, List.foldl_cons, Ne, foldl_mix_inj,
    mix_right_inj]
  exact hne

/-! ## Bytes of a seed -/

/-- A byte of a word by its place, the lowest at 0. -/
def byteAt (w : UInt64) (i : Nat) : Nat := w.toNat >>> (8 * i) % 256

theorem byteAt_eq_zero {w : UInt64} {i k : Nat} (hw : w.toNat >>> (8 * k) = 0) (h : k ≤ i) :
    byteAt w i = 0 := by
  obtain ⟨n, rfl⟩ := Nat.exists_eq_add_of_le h
  rw [byteAt, Nat.mul_add, Nat.shiftRight_add, hw, Nat.zero_shiftRight]

theorem byteAt_eq_zero_of_le (w : UInt64) {i : Nat} (h : 8 ≤ i) : byteAt w i = 0 :=
  byteAt_eq_zero (Nat.shiftRight_eq_zero _ _ w.toNat_lt) h

theorem length_bytes (w : UInt64) : (bytes w).length = 8 := by simp [bytes]

theorem getElem?_bytes (w : UInt64) {i : Nat} (h : i < 8) :
    (bytes w)[i]? = some (UInt8.ofNat (byteAt w i)) := by
  have hshift : (UInt64.ofNat (8 * i)).toNat = 8 * i := by
    rw [UInt64.toNat_ofNat', Nat.mod_eq_of_lt (by omega)]
  have hbyte : (w >>> UInt64.ofNat (8 * i)).toUInt8 = UInt8.ofNat (byteAt w i) := by
    apply UInt8.toNat_inj.1
    rw [UInt64.toNat_toUInt8, UInt64.toNat_shiftRight, hshift,
      Nat.mod_eq_of_lt (show 8 * i < 64 by omega), UInt8.toNat_ofNat', byteAt]
    exact (Nat.mod_mod _ _).symm
  rw [bytes, List.getElem?_map, List.getElem?_range h]
  exact congrArg some hbyte

/-- Words that differ in one byte give byte strings that do. -/
theorem oneApart_bytes {s t : UInt64} (h : ∃! i, byteAt s i ≠ byteAt t i) :
    OneApart (bytes s) (bytes t) := by
  have hiff : ∀ i, (bytes s)[i]? ≠ (bytes t)[i]? ↔ byteAt s i ≠ byteAt t i := by
    intro i
    by_cases hi : i < 8
    · have hs : byteAt s i < 256 := Nat.mod_lt _ (by decide)
      have ht : byteAt t i < 256 := Nat.mod_lt _ (by decide)
      rw [getElem?_bytes s hi, getElem?_bytes t hi, Ne, Option.some_inj, ← UInt8.toNat_inj,
        UInt8.toNat_ofNat_of_lt' hs, UInt8.toNat_ofNat_of_lt' ht]
    · have hover : 8 ≤ i := Nat.le_of_not_lt hi
      rw [byteAt_eq_zero_of_le s hover, byteAt_eq_zero_of_le t hover,
        List.getElem?_eq_none (by rw [length_bytes]; omega),
        List.getElem?_eq_none (by rw [length_bytes]; omega)]
      simp
  exact ⟨by rw [length_bytes, length_bytes], by simpa only [hiff] using h⟩

end Seed

/-! ## Names of strategies -/

namespace Strategy

/-- The name of a strategy as it is hashed. -/
def nameBytes (s : Strategy) : Bytes := Text.bytes s.name.toList

/-- No name of a strategy ends in another one. -/
theorem eq_of_nameBytes_suffix {m n : Strategy} (h : m.nameBytes <:+ n.nameBytes) : m = n := by
  have hall : ∀ m ∈ all, ∀ n ∈ all, m.nameBytes <:+ n.nameBytes → m = n := by decide +kernel
  exact hall m (mem_all m) n (mem_all n) h

theorem append_nameBytes_inj {p q : Bytes} {m n : Strategy}
    (h : p ++ m.nameBytes = q ++ n.nameBytes) : p = q ∧ m = n := by
  have hm : m.nameBytes <:+ q ++ n.nameBytes := h ▸ List.suffix_append p m.nameBytes
  have hmn : m = n := by
    rcases List.suffix_or_suffix_of_suffix hm (List.suffix_append q n.nameBytes) with hend | hend
    · exact eq_of_nameBytes_suffix hend
    · exact (eq_of_nameBytes_suffix hend).symm
  subst hmn
  exact ⟨List.append_cancel_right h, rfl⟩

end Strategy

/-! ## Derived seeds -/

namespace Seed

theorem derive_pair (s : UInt64) (p m : Bytes) :
    derive s [p, m] = m.foldl mix (derive s [p]) := by
  simp [derive, List.foldl_append]

/-- A seed that is derived for a path and a strategy depends on their bytes in a row, and no other
path and strategy have the same bytes in a row. One byte that is changed, in the path or in the base
seed, changes the derived seed, and two paths share the seed of a strategy if and only if they
share one without it. -/
theorem derive_tells_apart (s t : UInt64) (p q : Bytes) (m n : Strategy) :
    derive s [p, m.nameBytes] = derive s [p ++ m.nameBytes] ∧
      (p ++ m.nameBytes = q ++ n.nameBytes → p = q ∧ m = n) ∧
      (OneApart p q → derive s [p, m.nameBytes] ≠ derive s [q, m.nameBytes]) ∧
      ((∃! i, byteAt s i ≠ byteAt t i) →
        derive s [p, m.nameBytes] ≠ derive t [p, m.nameBytes]) ∧
      (derive s [p, m.nameBytes] = derive s [q, m.nameBytes] ↔ derive s [p] = derive s [q]) := by
  refine ⟨?_, Strategy.append_nameBytes_inj, ?_, ?_, ?_⟩
  · simp [derive]
  · intro h
    rw [derive_pair, derive_pair, Ne, foldl_mix_inj]
    simp only [derive, List.flatten_singleton, List.foldl_append]
    exact foldl_mix_ne h
  · intro h
    simp only [derive, List.foldl_append, Ne, foldl_mix_inj]
    exact foldl_mix_ne (oneApart_bytes h)
  · rw [derive_pair, derive_pair, foldl_mix_inj]

/-- A file and its copy with another letter in its name have different seeds, and so has the file
itself with the next base seed. -/
theorem derive_tells_apart_renamed :
    let path := Text.bytes "a.py".toList
    let copy := Text.bytes "b.py".toList
    let name := Strategy.flipOperators.nameBytes
    (OneApart path copy ∧ derive 42 [path, name] ≠ derive 42 [copy, name]) ∧
      (∃! i, byteAt 42 i ≠ byteAt 43 i) ∧ derive 42 [path, name] ≠ derive 43 [path, name] := by
  intro path copy name
  have hpaths : OneApart path copy := by
    refine ⟨by decide, 0, by decide, ?_⟩
    intro i hi
    cases i with
    | zero => rfl
    | succ i => exact absurd rfl hi
  have hseeds : ∃! i, byteAt 42 i ≠ byteAt 43 i := by
    refine ⟨0, by decide, ?_⟩
    intro i hi
    cases i with
    | zero => rfl
    | succ i =>
      have hlow : byteAt 42 (i + 1) = 0 := byteAt_eq_zero (k := 1) (by decide) (by omega)
      have hhigh : byteAt 43 (i + 1) = 0 := byteAt_eq_zero (k := 1) (by decide) (by omega)
      exact absurd (hlow.trans hhigh.symm) hi
  obtain ⟨-, -, hpath, hseed, -⟩ :=
    derive_tells_apart 42 43 path copy .flipOperators .flipOperators
  exact ⟨⟨hpaths, hpath hpaths⟩, hseeds, hseed hseeds⟩

end Seed
end Mutagen
