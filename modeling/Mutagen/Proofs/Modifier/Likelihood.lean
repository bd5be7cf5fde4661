import Mutagen.Modifier.Basic
import Mutagen.Proofs.Random.Draw

/-!
# The extremes of the likelihood

Every change that a strategy makes is behind a gate, a flip with the likelihood of the
modifier. At likelihood 0 the gates are closed and nothing changes. At likelihood 1
they are open without a draw, so that a strategy with no other randomness shows
neither seed nor past in what it does.
-/
namespace Mutagen

variable {α : Type} {p : Float}

namespace Draw

/-- Either `skip`, or a flip that leads to a computation with the property, or else to `skip`. -/
def Gated (p : Float) (Q : Draw α → Prop) (skip d : Draw α) : Prop :=
  d = skip ∨ ∃ x, Q x ∧ d = flip p >>= fun b => if b = true then x else skip

/-- Closed gates lead past what they guard. -/
theorem Gated.always {Q : Draw α → Prop} {P : α → Prop} {skip d : Draw α} (hd : Gated p Q skip d)
    (h : (p == 0.0) = true) (hskip : Always P skip) : Always P d := by
  rcases hd with rfl | ⟨x, -, rfl⟩
  · exact hskip
  · refine always_bind (always_flip_eq_false h) ?_
    rintro b rfl
    exact hskip

/-- Open gates draw nothing. -/
theorem Gated.settled {skip d : Draw α} (hd : Gated p Settled skip d) (h : (p == 1.0) = true)
    (hskip : Settled skip) : Settled d := by
  rcases hd with rfl | ⟨x, hx, rfl⟩
  · exact hskip
  · rw [flip_eq_pure_true h]
    exact hx

/-- Filtering by closed gates keeps nothing. -/
theorem always_filterM_flip (h : (p == 0.0) = true) (l : List α) :
    Always (· = []) (l.filterM fun _ => flip p) := by
  have haux : ∀ kept : List α, Always (· = kept) (l.filterAuxM (fun _ => flip p) kept) := by
    induction l with
    | nil => exact fun kept => always_pure rfl
    | cons a l ih =>
      intro kept
      refine always_bind (always_flip_eq_false h) ?_
      rintro b rfl
      exact ih kept
  refine always_bind (haux []) ?_
  rintro kept rfl
  exact always_pure rfl

theorem settled_filterM_flip (h : (p == 1.0) = true) (l : List α) :
    Settled (l.filterM fun _ => flip p) := by
  have haux : ∀ kept : List α, Settled (l.filterAuxM (fun _ => flip p) kept) := by
    induction l with
    | nil => exact settled_pure
    | cons a l ih =>
      intro kept
      exact settled_bind ⟨true, flip_eq_pure_true h⟩ fun b => ih _
  exact settled_bind (haux []) fun kept => settled_pure _

end Draw

theorem Attempt.run_gate (x y : Attempt α) :
    (Attempt.flip p >>= fun b => if b = true then x else y).run =
      Draw.flip p >>= fun b => if b = true then x.run else y.run := by
  rw [Attempt.run_bind, Attempt.flip, OptionT.run_lift]
  change (Draw.flip p >>= fun b => pure (some b)) >>= _ = _
  rw [bind_assoc]
  refine congrArg (Draw.flip p >>= ·) (funext fun b => ?_)
  cases b <;> rfl

namespace Target

variable (t : Target)

theorem gated_changeStep (edits : EditList) (b : Site × BinaryParts) :
    Draw.Gated p (fun _ => True) (pure edits) (t.changeStep p edits b) := by
  unfold changeStep
  dsimp only
  split
  · exact .inl rfl
  · exact .inr ⟨_, trivial, rfl⟩

theorem gated_flipStep (edits : EditList) (b : Site × BinaryParts) :
    Draw.Gated p Draw.Settled (pure edits) (t.flipStep p edits b) := by
  unfold flipStep
  split
  · exact .inl rfl
  · exact .inr ⟨_, Draw.settled_pure _, rfl⟩

theorem gated_breakStep (edits : EditList) (b : Site × BinaryParts) :
    Draw.Gated p Draw.Settled (pure edits) (t.breakStep p edits b) := by
  unfold breakStep
  split
  · exact .inl rfl
  · split
    · exact .inl rfl
    · exact .inr ⟨_, Draw.settled_pure _, rfl⟩

theorem gated_constantStep (edits : EditList) (operand : Site) :
    Draw.Gated p (fun _ => True) (pure edits) (t.constantStep p edits operand) := by
  unfold constantStep
  dsimp only
  split
  · exact .inl rfl
  · exact .inr ⟨_, trivial, rfl⟩

theorem gated_chooseStep (chosen : List Site) (s : Site) :
    Draw.Gated p Draw.Settled (pure chosen) (t.chooseStep p chosen s) := by
  unfold chooseStep
  split
  · exact .inl rfl
  · split
    · exact .inl rfl
    · split
      · exact .inl rfl
      · exact .inr ⟨_, Draw.settled_pure _, rfl⟩

theorem gated_invertStep (edits : EditList) (s : Site) :
    Draw.Gated p Draw.Settled (pure edits : Attempt EditList).run
      (t.invertStep p edits s).run := by
  unfold invertStep
  split
  · exact .inl rfl
  · split
    · exact .inl rfl
    · refine .inr ⟨_, ?_, Attempt.run_gate _ _⟩
      split
      · exact Attempt.settled_pure _
      · split
        · exact Attempt.settled_failure
        · exact Attempt.settled_pure _

theorem gated_swapStep (edits : EditList) (b : Site × BinaryParts) :
    Draw.Gated p Draw.Settled (pure edits : Attempt EditList).run (t.swapStep p edits b).run := by
  unfold swapStep
  dsimp only
  split
  · exact .inl rfl
  · refine .inr ⟨_, Attempt.settled_foldlM ?_ _ _, Attempt.run_gate _ _⟩
    intro edits' e
    split
    · exact Attempt.settled_pure _
    · exact Attempt.settled_failure

theorem gated_shuffleSlots (e : Entity) (slots : List Site) (n : Nat) :
    Draw.Gated p (fun _ => True) (failure : Attempt Text).run (t.shuffleSlots e slots p n).run := by
  unfold shuffleSlots
  split
  · exact .inl rfl
  · exact .inr ⟨_, trivial, Attempt.run_gate _ _⟩

theorem gated_removeBase :
    Draw.Gated p (fun _ => True) (failure : Attempt EditList).run (t.removeBase p).run := by
  unfold removeBase
  dsimp only
  split
  · exact .inl rfl
  · exact .inr ⟨_, trivial, Attempt.run_gate _ _⟩

/-- Without a statement there is nothing to remove. -/
theorem always_removeMatching_of_chosen {kinds : List String}
    (hchosen : Draw.Always (· = []) (t.chooseStatements kinds p)) :
    Draw.Always (· = .empty) (t.removeMatching kinds p) := by
  refine Draw.always_bind hchosen ?_
  rintro chosen rfl
  exact Draw.always_pure (by simp [removalEdits, removals, removeFrom])

theorem always_removeMatching (h : (p == 0.0) = true) (kinds : List String) :
    Draw.Always (· = .empty) (t.removeMatching kinds p) :=
  t.always_removeMatching_of_chosen <| Draw.always_foldlM_self
    (fun chosen s => (t.gated_chooseStep chosen s).always h (Draw.always_pure rfl)) _ []

theorem settled_removeMatching (h : (p == 1.0) = true) (kinds : List String) :
    (t.removeMatching kinds p).Settled := by
  have hchosen : (t.chooseStatements kinds p).Settled :=
    Draw.settled_foldlM
      (fun chosen s => (t.gated_chooseStep chosen s).settled h (Draw.settled_pure _)) _ []
  exact Draw.settled_bind hchosen fun _ => Draw.settled_pure _

theorem returns_removeMethods (h : (p == 0.0) = true) (e : Entity) (n : Nat) :
    Attempt.Returns (fun _ => False) (t.removeMethods e p n) := by
  refine Attempt.returns_bind (Attempt.returns_ofOption (fun _ _ => trivial)) ?_
  intro methods _
  split
  · exact Attempt.returns_failure _
  · refine Attempt.returns_retry ?_ n
    refine Attempt.returns_bind (Attempt.returns_lift (Draw.always_filterM_flip h methods)) ?_
    rintro removed rfl
    exact Attempt.returns_pure (by simp)

theorem settled_removeMethods (h : (p == 1.0) = true) (e : Entity) (n : Nat) :
    (t.removeMethods e p n).Settled := by
  refine Attempt.settled_bind (Attempt.settled_ofOption _) ?_
  intro methods
  split
  · exact Attempt.settled_failure
  · refine Attempt.settled_retry ?_ n
    refine Attempt.settled_bind (Attempt.settled_lift (Draw.settled_filterM_flip h methods)) ?_
    exact fun removed => Attempt.settled_pure _

end Target

namespace Strategy

/-- Edits that change nothing make no mutant. -/
theorem returns_unmutated {e : Entity} {x : Attempt EditList}
    (hx : Attempt.Returns (fun edits => e.mutated? edits = none) x) :
    Attempt.Returns (fun _ => False) (x >>= fun edits => Attempt.ofOption (e.mutated? edits)) := by
  refine Attempt.returns_bind hx ?_
  intro edits hedits
  rw [hedits]
  exact Attempt.returns_failure _

/-- Without an edit there is no mutant. -/
theorem returns_mutated? (e : Entity) {x : Attempt EditList} (hx : Attempt.Returns (· = .empty) x) :
    Attempt.Returns (fun _ => False) (x >>= fun edits => Attempt.ofOption (e.mutated? edits)) := by
  refine returns_unmutated (hx.imp ?_)
  rintro edits rfl
  rfl

theorem settled_mutated? (e : Entity) {x : Attempt EditList} (hx : x.Settled) :
    (x >>= fun edits => Attempt.ofOption (e.mutated? edits)).Settled :=
  Attempt.settled_bind hx fun _ => Attempt.settled_ofOption _

section Loops

variable {β : Type} {Q : Draw (Option EditList) → Prop} {R : Draw EditList → Prop}
  {attempt : EditList → β → Attempt EditList} {draw : EditList → β → Draw EditList}

/-- A loop of steps behind closed gates ends without an edit. -/
theorem returns_foldlM_gated (h : (p == 0.0) = true)
    (hstep : ∀ edits b, Draw.Gated p Q (pure edits : Attempt EditList).run (attempt edits b).run)
    (l : List β) : Attempt.Returns (· = .empty) (l.foldlM attempt .empty) :=
  Attempt.returns_foldlM_self
    (fun edits b => (hstep edits b).always h (Attempt.returns_pure rfl)) l _

theorem returns_lift_foldlM_gated (h : (p == 0.0) = true)
    (hstep : ∀ edits b, Draw.Gated p R (pure edits) (draw edits b)) (l : List β) :
    Attempt.Returns (· = .empty) (OptionT.lift (l.foldlM draw .empty)) :=
  Attempt.returns_lift
    (Draw.always_foldlM_self (fun edits b => (hstep edits b).always h (Draw.always_pure rfl)) l _)

/-- A loop of steps behind open gates draws nothing. -/
theorem settled_foldlM_gated (h : (p == 1.0) = true)
    (hstep : ∀ edits b,
      Draw.Gated p Draw.Settled (pure edits : Attempt EditList).run (attempt edits b).run)
    (l : List β) : Attempt.Settled (l.foldlM attempt .empty) :=
  Attempt.settled_foldlM (fun edits b => (hstep edits b).settled h (Attempt.settled_pure _)) l _

theorem settled_lift_foldlM_gated (h : (p == 1.0) = true)
    (hstep : ∀ edits b, Draw.Gated p Draw.Settled (pure edits) (draw edits b)) (l : List β) :
    Attempt.Settled (OptionT.lift (l.foldlM draw .empty)) :=
  Attempt.settled_lift
    (Draw.settled_foldlM (fun edits b => (hstep edits b).settled h (Draw.settled_pure _)) l _)

end Loops

/-- At likelihood 0 no strategy makes a mutant. -/
theorem returns_run (h : (p == 0.0) = true) (s : Strategy) (e : Entity) (n : Nat) :
    Attempt.Returns (fun _ => False) (s.run e p n) := by
  refine Attempt.returns_bind (Attempt.returns_ofOption (fun _ _ => trivial)) ?_
  intro t _
  have hremove : ∀ kinds, Attempt.Returns (· = .empty) (OptionT.lift (t.removeMatching kinds p)) :=
    fun kinds => Attempt.returns_lift (t.always_removeMatching h kinds)
  have hshuffle : ∀ slots? : Option (List Site), Attempt.Returns (fun _ => False)
      (Attempt.ofOption slots? >>= fun slots => t.shuffleSlots e slots p n) := by
    intro slots?
    refine Attempt.returns_bind (Attempt.returns_ofOption (fun _ _ => trivial)) ?_
    intro slots _
    exact (t.gated_shuffleSlots e slots n).always h (Attempt.returns_failure _)
  cases s with
  | invertBranches => exact returns_mutated? e (returns_foldlM_gated h t.gated_invertStep _)
  | shuffleStatements => exact hshuffle _
  | changeOperators => exact returns_mutated? e (returns_lift_foldlM_gated h t.gated_changeStep _)
  | flipOperators => exact returns_mutated? e (returns_lift_foldlM_gated h t.gated_flipStep _)
  | swapOperands => exact returns_mutated? e (returns_foldlM_gated h t.gated_swapStep _)
  | breakChains => exact returns_mutated? e (returns_lift_foldlM_gated h t.gated_breakStep _)
  | changeConstants => exact returns_mutated? e (returns_lift_foldlM_gated h t.gated_constantStep _)
  | removeLoops => exact returns_mutated? e (hremove _)
  | removeConditionals => exact returns_mutated? e (hremove _)
  | removeAssignments => exact returns_mutated? e (hremove _)
  | removeWrappers => exact returns_mutated? e (hremove _)
  | removeBase => exact returns_mutated? e (t.gated_removeBase.always h (Attempt.returns_failure _))
  | removeMethods => exact t.returns_removeMethods h e n
  | shuffleMethods => exact hshuffle _

/-- The strategies that draw nothing but flips. -/
def flipping : List Strategy :=
  [invertBranches, flipOperators, swapOperands, breakChains, removeLoops, removeConditionals,
    removeAssignments, removeWrappers, removeMethods]

/-- At likelihood 1 these strategies draw nothing. -/
theorem settled_run (h : (p == 1.0) = true) {s : Strategy} (hs : s ∈ flipping) (e : Entity)
    (n : Nat) : (s.run e p n).Settled := by
  refine Attempt.settled_bind (Attempt.settled_ofOption _) ?_
  intro t
  have hremove : ∀ kinds, Attempt.Settled (OptionT.lift (t.removeMatching kinds p)) :=
    fun kinds => Attempt.settled_lift (t.settled_removeMatching h kinds)
  cases s with
  | invertBranches => exact settled_mutated? e (settled_foldlM_gated h t.gated_invertStep _)
  | flipOperators => exact settled_mutated? e (settled_lift_foldlM_gated h t.gated_flipStep _)
  | swapOperands => exact settled_mutated? e (settled_foldlM_gated h t.gated_swapStep _)
  | breakChains => exact settled_mutated? e (settled_lift_foldlM_gated h t.gated_breakStep _)
  | removeLoops => exact settled_mutated? e (hremove _)
  | removeConditionals => exact settled_mutated? e (hremove _)
  | removeAssignments => exact settled_mutated? e (hremove _)
  | removeWrappers => exact settled_mutated? e (hremove _)
  | removeMethods => exact t.settled_removeMethods h e n
  | shuffleStatements => exact absurd hs (by decide)
  | changeOperators => exact absurd hs (by decide)
  | changeConstants => exact absurd hs (by decide)
  | removeBase => exact absurd hs (by decide)
  | shuffleMethods => exact absurd hs (by decide)

end Strategy

/-! ## Modifiers -/

namespace Modifier

/-- The modifier when it has tried to change entities in turn. -/
def after (m : Modifier) (past : List Entity) : Modifier :=
  past.foldl (fun m e => (m.modify e).2) m

/-- What holds of every text that the strategy returns holds of the mutant. -/
theorem of_modify_eq_some {m : Modifier} {e : Entity} {P : Text → Prop}
    (hrun : Attempt.Returns P (m.strategy.run e m.likelihood m.attempts)) {w : Mutant}
    (hw : (m.modify e).1 = some w) : w.strategy = m.strategy ∧ P w.code := by
  obtain ⟨code, hcode, rfl⟩ := Option.map_eq_some_iff.1 hw
  exact ⟨rfl, hrun m.generator code hcode⟩

/-- The edits behind the mutant of a strategy that makes them once. -/
theorem exists_edits_of_modify {m : Modifier} {e : Entity} {edit : Target → Attempt EditList}
    {Q : Target → EditList → Prop}
    (hrun : m.strategy.run e m.likelihood m.attempts = Attempt.ofOption e.target? >>= fun t =>
      edit t >>= fun edits => Attempt.ofOption (e.mutated? edits))
    (hedit : ∀ t, e.target? = some t → Attempt.Returns (Q t) (edit t)) {w : Mutant}
    (hw : (m.modify e).1 = some w) :
    ∃ t edits, e.target? = some t ∧ Q t edits ∧ e.mutated? edits = some w.code := by
  have hreturns : Attempt.Returns (fun code => ∃ t edits, e.target? = some t ∧ Q t edits ∧
      e.mutated? edits = some code) (m.strategy.run e m.likelihood m.attempts) := by
    rw [hrun]
    refine Attempt.returns_bind (Attempt.returns_ofOption fun t ht => ht) ?_
    intro t ht
    refine Attempt.returns_bind (hedit t ht) ?_
    intro edits hedits
    exact Attempt.returns_ofOption fun code hcode => ⟨t, edits, ht, hedits, hcode⟩
  exact (of_modify_eq_some hreturns hw).2

/-- A strategy whose edits are drawn once makes the mutant of these edits, and keeps the generator
that they were drawn from last. -/
theorem modify_eq_of_draw {m : Modifier} {e : Entity} {t : Target} (draw : Target → Draw EditList)
    (hrun : m.strategy.run e m.likelihood m.attempts = Attempt.ofOption e.target? >>= fun t =>
      OptionT.lift (draw t) >>= fun edits => Attempt.ofOption (e.mutated? edits))
    (ht : e.target? = some t) :
    m.modify e = ((e.mutated? (draw t m.generator).1).map fun code => ⟨code, m.strategy⟩,
      { m with generator := (draw t m.generator).2 }) := by
  have hstep : (m.strategy.run e m.likelihood m.attempts).run m.generator =
      (Attempt.ofOption (e.mutated? (draw t m.generator).1)).run (draw t m.generator).2 := by
    rw [hrun, ht]
    rfl
  rw [modify, hstep]
  cases e.mutated? (draw t m.generator).1 <;> rfl

theorem modify_eq_none_of_returns {m : Modifier} {e : Entity}
    (hrun : Attempt.Returns (fun _ => False) (m.strategy.run e m.likelihood m.attempts)) :
    (m.modify e).1 = none := by
  cases hw : (m.modify e).1 with
  | none => rfl
  | some w => exact (of_modify_eq_some hrun hw).2.elim

theorem modify_eq_none (m : Modifier) (h : (m.likelihood == 0.0) = true) (e : Entity) :
    (m.modify e).1 = none :=
  modify_eq_none_of_returns (Strategy.returns_run h m.strategy e m.attempts)

/-- At likelihood 1 a strategy of flips gives one result, whatever the generator, and leaves the
generator where it is. -/
theorem exists_modify_eq (m : Modifier) (h : (m.likelihood == 1.0) = true)
    (hs : m.strategy ∈ Strategy.flipping) (e : Entity) :
    ∃ result, ∀ g, { m with generator := g }.modify e = (result, { m with generator := g }) := by
  obtain ⟨code, hcode⟩ := Strategy.settled_run h hs e m.attempts
  refine ⟨code.map fun c => ⟨c, m.strategy⟩, ?_⟩
  intro g
  rw [modify]
  dsimp only
  rw [hcode]
  rfl

/-- Then no run of the modifier leaves a trace in it. -/
theorem after_eq (m : Modifier) (h : (m.likelihood == 1.0) = true)
    (hs : m.strategy ∈ Strategy.flipping) (past : List Entity) : m.after past = m := by
  induction past with
  | nil => rfl
  | cons e past ih =>
    obtain ⟨result, hresult⟩ := m.exists_modify_eq h hs e
    have hkept : (m.modify e).2 = m := congrArg Prod.snd (hresult m.generator)
    rw [after, List.foldl_cons, hkept]
    exact ih

/-- At likelihood 0 no modifier changes anything. At likelihood 1 a modifier whose strategy draws
nothing but flips keeps its generator, and what it does depends neither on the generator nor on
its seed or past. -/
theorem modify_at_extremes (m : Modifier) (e : Entity) :
    ((m.likelihood == 0.0) = true → (m.modify e).1 = none) ∧
      ((m.likelihood == 1.0) = true → m.strategy ∈ Strategy.flipping →
        (m.modify e).2 = m ∧
          (∀ g, ({ m with generator := g }.modify e).1 = (m.modify e).1) ∧
          ∀ seed₁ seed₂ past₁ past₂,
            (((m.reseed seed₁).after past₁).modify e).1 =
              (((m.reseed seed₂).after past₂).modify e).1) := by
  refine ⟨fun h => m.modify_eq_none h e, ?_⟩
  intro h hs
  obtain ⟨result, hresult⟩ := m.exists_modify_eq h hs e
  have hself : m.modify e = (result, m) := hresult m.generator
  refine ⟨by rw [hself], ?_, ?_⟩
  · intro g
    rw [hresult g, hself]
  · intro seed₁ seed₂ past₁ past₂
    have hafter : ∀ g past, { m with generator := g }.after past = { m with generator := g } := by
      intro g past
      exact after_eq { m with generator := g } h hs past
    rw [reseed, reseed, hafter, hafter, hresult, hresult]

end Modifier
end Mutagen
