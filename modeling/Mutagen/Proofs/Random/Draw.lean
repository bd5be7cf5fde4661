import Mutagen.Modifier.Attempt

/-!
# What does not depend on the draws

Two properties of computations that draw: that every result has a property,
whatever is drawn, and that nothing is drawn at all. Both pass through sequences and
loops. A flip has the one at likelihood 0 and the other at likelihood 1.
-/
namespace Mutagen

variable {α β : Type}

/-- The numbers equal to 0 are the two zeros. -/
theorem unpack_of_beq_zero {p : Float} (h : (p == 0.0) = true) :
    ∃ sign, p.toModel.unpack = .zero sign := by
  have hzero : (0.0 : Float).toModel.unpack = .zero .positive := rfl
  change (p.toModel.unpack.compare (0.0 : Float).toModel.unpack == some .eq) = true at h
  rw [hzero] at h
  cases hp : p.toModel.unpack with
  | zero sign => exact ⟨sign, rfl⟩
  | notANumber =>
    rw [hp] at h
    cases h
  | infinity sign =>
    rw [hp] at h
    cases sign <;> cases h
  | finite sign mantissa exponent hpos =>
    rw [hp] at h
    cases sign <;> cases h

namespace Draw

/-- Every result has the property, whatever is drawn. -/
def Always (P : α → Prop) (d : Draw α) : Prop := ∀ g, P (d g).1

theorem always_pure {P : α → Prop} {a : α} (h : P a) : Always P (pure a) := by
  intro g
  exact h

theorem always_bind {P : α → Prop} {Q : β → Prop} {d : Draw α} {f : α → Draw β}
    (hd : Always P d) (hf : ∀ a, P a → Always Q (f a)) : Always Q (d >>= f) := by
  intro g
  exact hf (d g).1 (hd g) (d g).2

theorem always_bind_of_forall {Q : β → Prop} {d : Draw α} {f : α → Draw β}
    (hf : ∀ a, Always Q (f a)) : Always Q (d >>= f) := by
  intro g
  exact hf (d g).1 (d g).2

theorem always_foldlM {P : β → Prop} {f : β → α → Draw β} {l : List α}
    (hf : ∀ a ∈ l, ∀ b, P b → Always P (f b a)) {b : β} (hb : P b) : Always P (l.foldlM f b) := by
  induction l generalizing b with
  | nil => exact always_pure hb
  | cons a l ih =>
    obtain ⟨ha, hl⟩ := List.forall_mem_cons.1 hf
    rw [List.foldlM_cons]
    exact always_bind (ha b hb) fun b' hb' => ih hl hb'

/-- Steps that give back what they are given leave it through the loop. -/
theorem always_foldlM_self {f : β → α → Draw β} (hf : ∀ b a, Always (· = b) (f b a)) (l : List α)
    (b : β) : Always (· = b) (l.foldlM f b) := by
  refine always_foldlM ?_ rfl
  rintro a - b' rfl
  exact hf b' a

/-- Nothing is drawn. -/
def Settled (d : Draw α) : Prop := ∃ a, d = pure a

theorem settled_pure (a : α) : Settled (pure a : Draw α) := ⟨a, rfl⟩

theorem settled_bind {d : Draw α} {f : α → Draw β} (hd : Settled d) (hf : ∀ a, Settled (f a)) :
    Settled (d >>= f) := by
  obtain ⟨a, rfl⟩ := hd
  exact hf a

theorem settled_foldlM {f : β → α → Draw β} (hf : ∀ b a, Settled (f b a)) (l : List α) (b : β) :
    Settled (l.foldlM f b) := by
  induction l generalizing b with
  | nil => exact settled_pure b
  | cons a l ih =>
    rw [List.foldlM_cons]
    exact settled_bind (hf b a) ih

/-- At likelihood 1 a flip is true and draws nothing. -/
theorem flip_eq_pure_true {p : Float} (h : (p == 1.0) = true) : flip p = pure true := by
  rw [flip, if_pos h]

/-- At likelihood 0 a flip is false, whatever is drawn. -/
theorem always_flip_eq_false {p : Float} (h : (p == 0.0) = true) : Always (· = false) (flip p) := by
  obtain ⟨sign, hp⟩ := unpack_of_beq_zero h
  have hone : (p == 1.0) = false := by
    change (p.toModel.unpack.compare (1.0 : Float).toModel.unpack == some .eq) = false
    rw [hp]
    cases sign <;> rfl
  have hbound : (p * 18446744073709551616.0).toUInt64 = 0 := by
    change (Float.Model.pack (Float.Model.UnpackedFloat.mul _ p.toModel.unpack _)).toUInt64 = 0
    rw [hp]
    cases sign <;> decide +kernel
  rw [flip, if_neg (by simp [hone]), hbound]
  intro g
  change decide ((next64 g).1 < 0) = false
  simp

/-- A number drawn below `n` is below `n`: the carry of a second word is only added while the
first one leaves room for it. -/
theorem always_below {n : Nat} (hpos : 0 < n) (hn : n ≤ UInt32.size) :
    Always (· < n) (below n) := by
  unfold below
  refine always_bind_of_forall fun w => ?_
  have hw : w.toNat + 1 ≤ UInt32.size := w.toNat_lt
  have hsize : (UInt32.size - n) % UInt32.size = UInt32.size - n := Nat.mod_eq_of_lt (by omega)
  have hm : (w.toNat + 1) * n ≤ UInt32.size * n := Nat.mul_le_mul_right n hw
  have hsplit := Nat.div_add_mod (w.toNat * n) UInt32.size
  rw [Nat.add_mul, Nat.one_mul] at hm
  have hhigh : w.toNat * n / UInt32.size < n := Nat.div_lt_of_lt_mul (by omega)
  dsimp only
  split
  · rename_i hopen
    rw [hsize] at hopen
    have hroom : w.toNat * n / UInt32.size + 1 < n := by
      rcases Nat.lt_or_ge (w.toNat * n / UInt32.size + 1) n with hlt | hge
      · exact hlt
      · have heq : n = w.toNat * n / UInt32.size + 1 := by omega
        have hall := congrArg (UInt32.size * ·) heq
        simp only [Nat.mul_add, Nat.mul_one] at hall
        omega
    refine always_bind_of_forall fun w' => always_pure ?_
    split
    · exact hroom
    · exact hhigh
  · exact always_pure hhigh

end Draw

namespace Attempt

theorem run_bind (x : Attempt α) (f : α → Attempt β) :
    (x >>= f).run = x.run >>= fun r =>
      match r with
      | some a => (f a).run
      | none => pure none :=
  rfl

/-- Every result that an attempt gives has the property, whatever is drawn. -/
def Returns (P : α → Prop) (x : Attempt α) : Prop := Draw.Always (fun r => ∀ a ∈ r, P a) x.run

theorem Returns.imp {P Q : α → Prop} {x : Attempt α} (hx : Returns P x) (h : ∀ a, P a → Q a) :
    Returns Q x := by
  intro g a ha
  exact h a (hx g a ha)

theorem returns_pure {P : α → Prop} {a : α} (h : P a) : Returns P (pure a) := by
  refine Draw.always_pure ?_
  intro b hb
  cases hb
  exact h

theorem returns_failure (P : α → Prop) : Returns P (failure : Attempt α) := by
  intro g a ha
  cases ha

theorem returns_bind {P : α → Prop} {Q : β → Prop} {x : Attempt α} {f : α → Attempt β}
    (hx : Returns P x) (hf : ∀ a, P a → Returns Q (f a)) : Returns Q (x >>= f) := by
  rw [Returns, run_bind]
  refine Draw.always_bind hx ?_
  intro r hr
  cases r with
  | none => exact returns_failure Q
  | some a => exact hf a (hr a rfl)

theorem returns_bind_of_forall {Q : β → Prop} {x : Attempt α} {f : α → Attempt β}
    (hf : ∀ a, Returns Q (f a)) : Returns Q (x >>= f) :=
  returns_bind (P := fun _ => True) (fun _ _ _ => trivial) fun a _ => hf a

theorem returns_lift {P : α → Prop} {d : Draw α} (hd : Draw.Always P d) :
    Returns P (OptionT.lift d) := by
  refine Draw.always_bind hd ?_
  intro a ha
  exact returns_pure ha

theorem returns_ofOption {P : α → Prop} {r : Option α} (h : ∀ a ∈ r, P a) :
    Returns P (ofOption r) := by
  cases r with
  | none => exact returns_failure P
  | some a => exact returns_pure (h a rfl)

theorem returns_foldlM {P : β → Prop} {f : β → α → Attempt β} {l : List α}
    (hf : ∀ a ∈ l, ∀ b, P b → Returns P (f b a)) {b : β} (hb : P b) :
    Returns P (l.foldlM f b) := by
  induction l generalizing b with
  | nil => exact returns_pure hb
  | cons a l ih =>
    obtain ⟨ha, hl⟩ := List.forall_mem_cons.1 hf
    rw [List.foldlM_cons]
    exact returns_bind (ha b hb) fun b' hb' => ih hl hb'

theorem returns_foldlM_self {f : β → α → Attempt β} (hf : ∀ b a, Returns (· = b) (f b a))
    (l : List α) (b : β) : Returns (· = b) (l.foldlM f b) := by
  refine returns_foldlM ?_ rfl
  rintro a - b' rfl
  exact hf b' a

theorem returns_retry {P : α → Prop} {step : Attempt (Option α)}
    (h : Returns (fun r => ∀ a ∈ r, P a) step) (n : Nat) : Returns P (retry n step) := by
  induction n with
  | zero => exact returns_failure P
  | succ n ih =>
    refine returns_bind h ?_
    intro r hr
    cases r with
    | none => exact ih
    | some a => exact returns_pure (hr a rfl)

/-- Nothing is drawn. -/
def Settled (x : Attempt α) : Prop := Draw.Settled x.run

theorem settled_pure (a : α) : Settled (pure a : Attempt α) := Draw.settled_pure (some a)

theorem settled_failure : Settled (failure : Attempt α) := Draw.settled_pure none

theorem settled_bind {x : Attempt α} {f : α → Attempt β} (hx : Settled x)
    (hf : ∀ a, Settled (f a)) : Settled (x >>= f) := by
  rw [Settled, run_bind]
  refine Draw.settled_bind hx ?_
  intro r
  cases r with
  | none => exact settled_failure
  | some a => exact hf a

theorem settled_lift {d : Draw α} (hd : Draw.Settled d) : Settled (OptionT.lift d) :=
  Draw.settled_bind hd settled_pure

theorem settled_ofOption (r : Option α) : Settled (ofOption r) := by
  cases r with
  | none => exact settled_failure
  | some a => exact settled_pure a

theorem settled_foldlM {f : β → α → Attempt β} (hf : ∀ b a, Settled (f b a)) (l : List α)
    (b : β) : Settled (l.foldlM f b) := by
  induction l generalizing b with
  | nil => exact settled_pure b
  | cons a l ih =>
    rw [List.foldlM_cons]
    exact settled_bind (hf b a) ih

theorem settled_retry {step : Attempt (Option α)} (h : Settled step) (n : Nat) :
    Settled (retry n step) := by
  induction n with
  | zero => exact settled_failure
  | succ n ih =>
    refine settled_bind h ?_
    intro r
    cases r with
    | none => exact ih
    | some a => exact settled_pure a

end Attempt
end Mutagen
