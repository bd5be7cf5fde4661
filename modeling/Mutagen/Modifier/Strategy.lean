import Mutagen.Modifier.ClassShape
import Mutagen.Modifier.Operation

/-!
# Strategies

The catalog of mutations: their names, what they need of an entity, their usual
settings, and how each one runs.
-/
namespace Mutagen

inductive Family where
  | controlFlow
  | operation
  | removal
  | classShape
  deriving DecidableEq, Repr

def Family.name : Family → String
  | controlFlow => "control_flow"
  | operation => "operation"
  | removal => "removal"
  | classShape => "class"

inductive Strategy where
  | invertBranches
  | shuffleStatements
  | changeOperators
  | flipOperators
  | swapOperands
  | breakChains
  | changeConstants
  | removeLoops
  | removeConditionals
  | removeAssignments
  | removeWrappers
  | removeBase
  | removeMethods
  | shuffleMethods
  deriving DecidableEq, Repr

/-- The complexity that stands for no upper bound. -/
def unboundedComplexity : Nat := 4294967295

namespace Strategy

/-- Every strategy, in the order of application. -/
def all : List Strategy :=
  [invertBranches, shuffleStatements, changeOperators, flipOperators, swapOperands, breakChains,
    changeConstants, removeLoops, removeConditionals, removeAssignments, removeWrappers,
    removeBase, removeMethods, shuffleMethods]

@[simp] theorem mem_all (s : Strategy) : s ∈ all := by cases s <;> decide

def name : Strategy → String
  | invertBranches => "func_pm_ctrl_invert_if"
  | shuffleStatements => "func_pm_ctrl_shuffle"
  | changeOperators => "func_pm_op_change"
  | flipOperators => "func_pm_op_flip"
  | swapOperands => "func_pm_op_swap"
  | breakChains => "func_pm_op_break_chains"
  | changeConstants => "func_pm_op_change_const"
  | removeLoops => "func_pm_remove_loop"
  | removeConditionals => "func_pm_remove_cond"
  | removeAssignments => "func_pm_remove_assign"
  | removeWrappers => "func_pm_remove_wrapper"
  | removeBase => "func_pm_class_rm_base"
  | removeMethods => "func_pm_class_rm_funcs"
  | shuffleMethods => "func_pm_class_shuffle_funcs"

def ofName? (s : String) : Option Strategy := all.find? fun st => st.name == s

def family : Strategy → Family
  | invertBranches | shuffleStatements => .controlFlow
  | changeOperators | flipOperators | swapOperands | breakChains | changeConstants => .operation
  | removeLoops | removeConditionals | removeAssignments | removeWrappers => .removal
  | removeBase | removeMethods | shuffleMethods => .classShape

def explanation : Strategy → String
  | invertBranches => "The if and else branches of a conditional have been swapped."
  | shuffleStatements => "The statements of the function body have been reordered."
  | changeOperators =>
    "A binary operator has been replaced with a different operator of the same kind."
  | flipOperators => "A binary operator has been flipped to its opposite."
  | swapOperands => "The operands of a binary expression have been swapped."
  | breakChains =>
    "A chained binary expression has been reduced to one of its operands, dropping a term."
  | changeConstants =>
    "A numeric constant in a binary expression has been changed by a small amount."
  | removeLoops => "A loop statement has been removed from the function."
  | removeConditionals => "A conditional statement has been removed from the function."
  | removeAssignments => "An assignment statement has been removed from the function."
  | removeWrappers =>
    "A wrapping block (try/with/using/lock) has been removed from the function."
  | removeBase => "A base class has been removed from the class definition."
  | removeMethods => "One or more methods have been removed from the class."
  | shuffleMethods => "The methods of the class have been reordered."

/-- The properties that an entity must have. -/
def conditions : Strategy → List Property
  | invertBranches => [.isFunction, .hasIfElse]
  | shuffleStatements => [.isFunction, .hasLoop]
  | changeOperators | flipOperators | swapOperands | breakChains | changeConstants =>
    [.isFunction, .hasBinaryOp]
  | removeLoops => [.isFunction, .hasLoop]
  | removeConditionals => [.isFunction, .hasIf]
  | removeAssignments => [.isFunction, .hasAssignment]
  | removeWrappers => [.isFunction, .hasWrapper]
  | removeBase => [.isClass, .hasParent]
  | removeMethods | shuffleMethods => [.isClass]

/-- The least complexity that is usually asked for. -/
def minComplexity : Strategy → Nat
  | invertBranches => 5
  | _ => 1

/-- The greatest complexity that is usually allowed. -/
def maxComplexity : Strategy → Nat
  | shuffleStatements => 10
  | _ => unboundedComplexity

def attempts : Strategy → Nat
  | shuffleStatements | removeMethods | shuffleMethods => 3
  | _ => 1

def likelihood : Strategy → Float
  | invertBranches => 0.9
  | shuffleStatements | shuffleMethods => 1.0
  | changeOperators | flipOperators | swapOperands | breakChains | changeConstants => 0.4
  | removeLoops | removeConditionals | removeWrappers | removeBase => 0.5
  | removeAssignments | removeMethods => 0.3

/-- Whether a language has anything for the strategy to work on. -/
def appliesTo (s : Strategy) (l : Language) : Bool :=
  match s with
  | removeBase | removeMethods | shuffleMethods => l.hasClasses
  | removeWrappers => l.grammar.hasWrappers
  | _ => true

/-- The strategies for a language. -/
def forLanguage (l : Language) : List Strategy := all.filter (·.appliesTo l)

/-- Runs a strategy on an entity: the changed text of it, if there is one. -/
def run (s : Strategy) (e : Entity) (p : Float) (attempts : Nat) : Attempt Text := do
  let t ← Attempt.ofOption e.target?
  let once (edits : Draw EditList) : Attempt Text := do
    let edits ← OptionT.lift edits
    Attempt.ofOption (e.mutated? edits)
  match s with
  | invertBranches => do Attempt.ofOption (e.mutated? (← t.invertBranches p))
  | shuffleStatements => do
    t.shuffleSlots e (← Attempt.ofOption t.bodyStatements?) p attempts
  | changeOperators => once (t.changeOperators p)
  | flipOperators => once (t.flipOperators p)
  | swapOperands => do Attempt.ofOption (e.mutated? (← t.swapOperands p))
  | breakChains => once (t.breakChains p)
  | changeConstants => once (t.changeConstants p)
  | removeLoops => once (t.removeMatching t.grammar.loopKinds p)
  | removeConditionals => once (t.removeMatching t.grammar.ifKinds p)
  | removeAssignments => once (t.removeMatching t.grammar.assignmentKinds p)
  | removeWrappers => once (t.removeMatching t.grammar.wrapperKinds p)
  | removeBase => do Attempt.ofOption (e.mutated? (← t.removeBase p))
  | removeMethods => t.removeMethods e p attempts
  | shuffleMethods => do t.shuffleSlots e (← Attempt.ofOption t.methods?) p attempts

end Strategy
end Mutagen
