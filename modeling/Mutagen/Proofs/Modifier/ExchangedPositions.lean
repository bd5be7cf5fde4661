import Mathlib.Data.Nat.Factorial.Basic
import Mutagen.Proofs.Modifier.ShuffledSlots

/-!
# Exchanged positions

A shuffle takes its indices out of chunks. A chunk holds a number below the product of the
counts that its indices are for, and keeps below the product of the remaining counts whenever
an index is taken out of it, so that each index is below its own count. So a shuffle exchanges
each position with one at or before it. The exchange that turns the usual order into another
one needs two positions, and the strategies do not ask for an order of fewer.
-/
namespace Mutagen

variable {α : Type}

/-! ## Chunks -/

namespace Chunk

/-- The number in the chunk is below the product of the counts from `k` on, one for each index
left in it. -/
def Holds (k : Nat) (c : Chunk) : Prop := c.rest < k.ascFactorial c.left

theorem holds_empty (k : Nat) : Holds k empty := Nat.one_pos

/-- The index is below its count, and what stays in the chunk is for the counts behind it. -/
theorem Holds.take {k : Nat} {c : Chunk} (h : Holds k c) (hleft : 0 < c.left) :
    (c.take k).1 < k ∧ Holds (k + 1) (c.take k).2 := by
  obtain ⟨rest, left⟩ := c
  obtain ⟨left, rfl⟩ := Nat.exists_eq_succ_of_ne_zero (Nat.ne_of_gt hleft)
  have hprod : rest < k * (k + 1).ascFactorial left := by
    rw [Nat.succ_ascFactorial]
    exact h
  unfold Chunk.take
  cases left with
  | zero => exact ⟨by simpa using hprod, holds_empty _⟩
  | succ left =>
    have hpos : 0 < k := Nat.pos_of_mul_pos_right (Nat.zero_lt_of_lt hprod)
    rw [if_neg (by simp)]
    exact ⟨Nat.mod_lt rest hpos, Nat.div_lt_of_lt_mul hprod⟩

/-- A chunk drawn for the counts from `k` on: it holds an index at least, and as many as one word
has room for. -/
structure Drawn (k : Nat) (c : Chunk) : Prop where
  left_pos : 0 < c.left
  holds : Holds k c
  fits : k.ascFactorial c.left < UInt32.size
  full : UInt32.size ≤ k.ascFactorial (c.left + 1)

/-- The product of consecutive counts is extended until the next count has no room in a word. As
every count doubles it at least, the steps suffice. -/
theorem exists_extend_eq {k m : Nat} (fuel : Nat) (hk : 2 ≤ k)
    (hsteps : UInt32.size ≤ 2 ^ fuel * k.ascFactorial m) (hm : k.ascFactorial m < UInt32.size) :
    ∃ n, m ≤ n ∧ extend fuel (k.ascFactorial m) (k + m) = (k.ascFactorial n, k + n) ∧
      k.ascFactorial n < UInt32.size ∧ UInt32.size ≤ k.ascFactorial (n + 1) := by
  induction fuel generalizing m with
  | zero => omega
  | succ fuel ih =>
    have hfactor : k.ascFactorial m * (k + m) = k.ascFactorial (m + 1) := by
      rw [Nat.mul_comm, Nat.ascFactorial_succ]
    rw [extend, hfactor]
    split
    · rename_i hnext
      have hdouble : 2 * k.ascFactorial m ≤ k.ascFactorial (m + 1) := by
        rw [Nat.ascFactorial_succ]
        exact Nat.mul_le_mul_right _ (by omega)
      have hsteps' : UInt32.size ≤ 2 ^ fuel * k.ascFactorial (m + 1) := by
        refine Nat.le_trans hsteps ?_
        rw [Nat.pow_succ, Nat.mul_assoc]
        exact Nat.mul_le_mul_left _ hdouble
      obtain ⟨n, hn, hrest⟩ := ih hsteps' hnext
      exact ⟨n, by omega, hrest⟩
    · rename_i hstop
      exact ⟨m, Nat.le_refl m, rfl, hm, by omega⟩

theorem always_draw {k : Nat} (hk : 2 ≤ k) (hsize : k < UInt32.size) :
    Draw.Always (Drawn k) (draw k) := by
  have hone : k.ascFactorial 1 = k := by simp [Nat.ascFactorial]
  have hsteps : UInt32.size ≤ 2 ^ 32 * k.ascFactorial 1 := by
    rw [hone]
    exact Nat.le_mul_of_pos_right _ (by omega)
  obtain ⟨n, hn, hextend, hfits, hfull⟩ := exists_extend_eq 32 hk hsteps (by rwa [hone])
  rw [hone] at hextend
  have hpos : 0 < k.ascFactorial n :=
    Nat.lt_of_lt_of_le (Nat.pow_pos (by omega)) (Nat.pow_succ_le_ascFactorial k n)
  unfold draw
  rw [hextend]
  refine Draw.always_bind (Draw.always_below hpos (Nat.le_of_lt hfits)) ?_
  intro rest hrest
  apply Draw.always_pure
  rw [Nat.add_sub_cancel_left]
  exact ⟨hn, hrest, hfits, hfull⟩

theorem always_refill {k : Nat} {c : Chunk} (hk : 2 ≤ k) (hsize : k < UInt32.size)
    (h : Holds k c) : Draw.Always (fun c' => 0 < c'.left ∧ Holds k c') (refill k c) := by
  unfold refill
  split
  · intro g
    have hdrawn := always_draw hk hsize g
    exact ⟨hdrawn.left_pos, hdrawn.holds⟩
  · rename_i hleft
    exact Draw.always_pure ⟨Nat.pos_of_ne_zero hleft, h⟩

end Chunk

/-! ## Exchanges -/

/-- The exchanges of a shuffle: the positions from `i` on, `count` of them, each with the drawn
one. -/
def exchangesFrom : Nat → Nat → Chunk → Draw (List (Nat × Nat))
  | 0, _, _ => pure []
  | count + 1, i, c => do
    let c' ← c.refill (i + 1)
    let rest ← exchangesFrom count (i + 1) (c'.take (i + 1)).2
    pure ((i, (c'.take (i + 1)).1) :: rest)

/-- Makes exchanges one after the other. -/
def exchangeAll (l : List α) (swaps : List (Nat × Nat)) : List α :=
  swaps.foldl (fun l s => swapAt l s.1 s.2) l

/-- A shuffle makes its exchanges. -/
theorem shuffleFrom_eq (count i : Nat) (c : Chunk) (l : List α) :
    shuffleFrom count i c l = exchangeAll l <$> exchangesFrom count i c := by
  induction count generalizing i c l with
  | zero => rfl
  | succ count ih =>
    rw [shuffleFrom_succ, exchangesFrom, map_bind]
    refine bind_congr fun c' => ?_
    rw [ih, map_bind, map_eq_pure_bind]
    rfl

/-- Each of `count` positions from `i` on is exchanged with one at or before it. -/
structure Backward (i count : Nat) (swaps : List (Nat × Nat)) : Prop where
  positions : swaps.map Prod.fst = List.range' i count
  below : ∀ s ∈ swaps, s.2 < s.1 + 1

theorem Backward.lt {i count : Nat} {swaps : List (Nat × Nat)} (h : Backward i count swaps)
    {s : Nat × Nat} (hs : s ∈ swaps) : s.1 < i + count ∧ s.2 < i + count := by
  have hmem : s.1 ∈ List.range' i count := by
    rw [← h.positions]
    exact List.mem_map_of_mem hs
  have hlt := (List.mem_range'_1.1 hmem).2
  have hbelow := h.below s hs
  omega

/-- A chunk with room for the position to come keeps room for those behind it. -/
theorem always_exchangesFrom {count i : Nat} {c : Chunk} (hi : 0 < i)
    (hsize : i + count < UInt32.size) (hc : Chunk.Holds (i + 1) c) :
    Draw.Always (Backward i count) (exchangesFrom count i c) := by
  induction count generalizing i c with
  | zero => exact Draw.always_pure ⟨rfl, nofun⟩
  | succ count ih =>
    refine Draw.always_bind (Chunk.always_refill (by omega) (by omega) hc) ?_
    rintro c' ⟨hleft, hholds⟩
    obtain ⟨hindex, hrest⟩ := hholds.take hleft
    refine Draw.always_bind (ih (by omega) (by omega) hrest) ?_
    intro swaps hswaps
    apply Draw.always_pure
    constructor
    · rw [List.map_cons, hswaps.positions, List.range'_succ]
    · exact List.forall_mem_cons.2 ⟨hindex, hswaps.below⟩

/-! ## Orders -/

/-- The exchanges that make a random order: those of the shuffle, and one of the first two
positions when the shuffle leaves the usual order. -/
def orderExchanges (n : Nat) : Draw (List (Nat × Nat)) := do
  let drawn ← exchangesFrom (n - 1) 1 .empty
  pure (if exchangeAll (List.range n) drawn = List.range n then drawn ++ [(0, 1)] else drawn)

theorem shuffledOrder_eq (n : Nat) :
    shuffledOrder n = exchangeAll (List.range n) <$> orderExchanges n := by
  rw [shuffledOrder, shuffle, List.length_range, shuffleFrom_eq, orderExchanges, map_bind,
    bind_map_left]
  refine bind_congr fun drawn => ?_
  rw [map_pure]
  split
  · rename_i h
    simp [exchangeAll]
  · rfl

/-- The exchanges that make an order of `n` numbers: those that were drawn, and one of the first
two positions exactly when they leave the usual order. -/
structure Exchanges (n : Nat) (swaps : List (Nat × Nat)) : Prop where
  drawn : ∃ drawn, Backward 1 (n - 1) drawn ∧
    (exchangeAll (List.range n) drawn ≠ List.range n ∧ swaps = drawn ∨
      exchangeAll (List.range n) drawn = List.range n ∧ swaps = drawn ++ [(0, 1)])
  inside : ∀ s ∈ swaps, s.1 < n ∧ s.2 < n

theorem always_orderExchanges {n : Nat} (hn : 2 ≤ n) (hsize : n < UInt32.size) :
    Draw.Always (Exchanges n) (orderExchanges n) := by
  refine Draw.always_bind (always_exchangesFrom Nat.one_pos (by omega) (Chunk.holds_empty _)) ?_
  intro drawn hdrawn
  have hinside : ∀ s ∈ drawn, s.1 < n ∧ s.2 < n := by
    intro s hs
    have hlt := hdrawn.lt hs
    omega
  apply Draw.always_pure
  split
  · rename_i hsame
    refine ⟨⟨drawn, hdrawn, .inr ⟨hsame, rfl⟩⟩, ?_⟩
    intro s hs
    rcases List.mem_append.1 hs with hs | hs
    · exact hinside s hs
    · rw [List.mem_singleton.1 hs]
      dsimp only
      omega
  · rename_i hother
    exact ⟨⟨drawn, hdrawn, .inl ⟨hother, rfl⟩⟩, hinside⟩

/-- Fewer than two numbers have no other order, and the exchange is out of range. -/
theorem orderExchanges_of_lt {n : Nat} (hn : n < 2) : orderExchanges n = pure [(0, 1)] := by
  have hcount : n - 1 = 0 := by omega
  rw [orderExchanges, hcount]
  exact congrArg (pure : List (Nat × Nat) → Draw _) (if_pos rfl)

/-! ## Strategies -/

namespace Target

/-- Reorders slots until the entity changes, with orders from elsewhere. -/
def shuffleSlotsBy (order : Nat → Draw (List Nat)) (t : Target) (e : Entity) (slots : List Site)
    (p : Float) (attempts : Nat) : Attempt Text :=
  if slots.length < 2 then failure
  else do
    if ← Attempt.flip p then
      Attempt.retry attempts do
        let order ← OptionT.lift (order slots.length)
        let edits ← Attempt.ofOption (t.permuted? slots order)
        pure (e.mutated? edits)
    else failure

theorem shuffleSlotsBy_congr {order order' : Nat → Draw (List Nat)}
    (h : ∀ n, 2 ≤ n → order n = order' n) (t : Target) (e : Entity) (slots : List Site) (p : Float)
    (attempts : Nat) :
    t.shuffleSlotsBy order e slots p attempts = t.shuffleSlotsBy order' e slots p attempts := by
  unfold shuffleSlotsBy
  split
  · rfl
  · rename_i hlength
    rw [h slots.length (by omega)]

end Target

namespace Strategy

/-- Runs a strategy that reorders slots, with orders from elsewhere. -/
def runBy (order : Nat → Draw (List Nat)) (s : Strategy) (e : Entity) (p : Float)
    (attempts : Nat) : Attempt Text := do
  let t ← Attempt.ofOption e.target?
  let slots ← Attempt.ofOption (s.slots? t)
  t.shuffleSlotsBy order e slots p attempts

theorem run_eq_runBy {s : Strategy} (hs : s ∈ shuffling) (e : Entity) (p : Float)
    (attempts : Nat) : s.run e p attempts = s.runBy shuffledOrder e p attempts := by
  rcases List.mem_cons.1 hs with rfl | hs
  · rfl
  · obtain rfl := List.mem_singleton.1 hs
    rfl

theorem runBy_congr {order order' : Nat → Draw (List Nat)}
    (h : ∀ n, 2 ≤ n → order n = order' n) (s : Strategy) (e : Entity) (p : Float)
    (attempts : Nat) : s.runBy order e p attempts = s.runBy order' e p attempts := by
  refine bind_congr fun t => ?_
  refine bind_congr fun slots => ?_
  exact Target.shuffleSlotsBy_congr h t e slots p attempts

end Strategy

/-! ## The whole -/

/-- Every exchange of a random order is in range. From two numbers on, and while their number fits
into a word, a random order arranges the numbers anew by exchanges of positions below it: each
position in turn with one at or before it, by an index out of a chunk that holds as many as there
is room for, and the first two positions exactly when the usual order is left. The strategies that
reorder slots ask for no order of fewer than two: it does not matter to them what such an order
would be. -/
theorem shuffledOrder_in_range :
    (∀ n, 2 ≤ n → n < UInt32.size →
      Draw.Always (Chunk.Drawn n) (Chunk.draw n) ∧
      shuffledOrder n = exchangeAll (List.range n) <$> orderExchanges n ∧
      Draw.Always (Exchanges n) (orderExchanges n) ∧
      Draw.Always (fun order => order.Perm (List.range n) ∧ order ≠ List.range n)
        (shuffledOrder n)) ∧
    (∀ n < 2, orderExchanges n = pure [(0, 1)]) ∧
    ∀ s ∈ Strategy.shuffling, ∀ order : Nat → Draw (List Nat),
      (∀ n, 2 ≤ n → order n = shuffledOrder n) →
      ∀ e p attempts, s.runBy order e p attempts = s.run e p attempts := by
  refine ⟨?_, fun n hn => orderExchanges_of_lt hn, ?_⟩
  · intro n hn hsize
    exact ⟨Chunk.always_draw hn hsize, shuffledOrder_eq n, always_orderExchanges hn hsize,
      always_shuffledOrder hn⟩
  · intro s hs order horder e p attempts
    rw [Strategy.run_eq_runBy hs]
    exact Strategy.runBy_congr horder s e p attempts

/-- Six numbers in the order of the seed 0. -/
theorem shuffledOrder_in_range_six :
    (2 ≤ 6 ∧ 6 < UInt32.size) ∧
      (shuffledOrder 6 (.ofSeed 0)).1 = [1, 0, 2, 3, 5, 4] ∧
      Exchanges 6 (orderExchanges 6 (.ofSeed 0)).1 ∧
      [1, 0, 2, 3, 5, 4].Perm (List.range 6) := by
  have hdrawn : (shuffledOrder 6 (.ofSeed 0)).1 = [1, 0, 2, 3, 5, 4] := by decide +kernel
  obtain ⟨-, -, hswaps, horder⟩ := shuffledOrder_in_range.1 6 (by decide) (by decide)
  have hperm := (horder (.ofSeed 0)).1
  rw [hdrawn] at hperm
  exact ⟨⟨by decide, by decide⟩, hdrawn, hswaps (.ofSeed 0), hperm⟩

end Mutagen
