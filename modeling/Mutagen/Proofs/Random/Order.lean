import Mathlib.Data.List.Perm.Basic
import Mutagen.Proofs.Random.Draw
import Mutagen.Random.Shuffle

/-!
# Random orders

Whatever is drawn, a shuffle only exchanges items, so that it gives an arrangement of
the list it is given. An order of the numbers below `n` is an arrangement of them
other than the usual one, as soon as there are two.
-/
namespace Mutagen

variable {α : Type}

theorem swapAt_perm (l : List α) (i j : Nat) : (swapAt l i j).Perm l := by
  unfold swapAt
  split
  · rename_i a b ha hb
    obtain ⟨hi, rfl⟩ := List.getElem?_eq_some_iff.1 ha
    obtain ⟨hj, rfl⟩ := List.getElem?_eq_some_iff.1 hb
    exact List.set_set_perm hi hj
  · exact List.Perm.refl l

/-- The chunk for the count `k`: a new one when the last one is used up. -/
def Chunk.refill (k : Nat) (c : Chunk) : Draw Chunk := if c.left = 0 then Chunk.draw k else pure c

theorem shuffleFrom_succ (count i : Nat) (c : Chunk) (l : List α) :
    shuffleFrom (count + 1) i c l = c.refill (i + 1) >>= fun c' =>
      shuffleFrom count (i + 1) (c'.take (i + 1)).2 (swapAt l i (c'.take (i + 1)).1) := by
  rw [shuffleFrom, Chunk.refill]
  split <;> rfl

/-- Each step of a shuffle exchanges two items. -/
theorem always_shuffleFrom (count i : Nat) (c : Chunk) (l : List α) :
    Draw.Always (List.Perm l) (shuffleFrom count i c l) := by
  induction count generalizing i c l with
  | zero => exact Draw.always_pure (List.Perm.refl l)
  | succ count ih =>
    rw [shuffleFrom_succ]
    refine Draw.always_bind_of_forall fun c' => ?_
    intro g
    exact (swapAt_perm l i _).symm.trans (ih (i + 1) _ _ g)

theorem swapAt_range_ne {n : Nat} (hn : 2 ≤ n) : swapAt (List.range n) 0 1 ≠ List.range n := by
  intro h
  have hzero : (List.range n)[0]? = some 0 := List.getElem?_range (by omega)
  have hone : (List.range n)[1]? = some 1 := List.getElem?_range (by omega)
  have hhead := congrArg (fun l => l[0]?) h
  simp [swapAt, hzero, hone, List.getElem?_set] at hhead

/-- A random order arranges the numbers anew. -/
theorem always_shuffledOrder {n : Nat} (hn : 2 ≤ n) :
    Draw.Always (fun order => order.Perm (List.range n) ∧ order ≠ List.range n)
      (shuffledOrder n) := by
  refine Draw.always_bind (always_shuffleFrom _ 1 .empty (List.range n)) ?_
  intro order horder
  apply Draw.always_pure
  split
  · rename_i hsame
    rw [hsame]
    exact ⟨swapAt_perm _ 0 1, swapAt_range_ne hn⟩
  · rename_i hother
    exact ⟨horder.symm, hother⟩

end Mutagen
