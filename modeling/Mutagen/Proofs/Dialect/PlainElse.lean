import Mutagen.Proofs.Dialect.Tags
import Mutagen.Proofs.Tree.Nesting

/-!
# Plain elses

Two rules tell an else from a further if. The exchange of branches looks at the body of an
alternative, and the count of decisions looks at the first statement in it. They agree where the
body is the first statement. In Ruby an else holds its statements itself, so that the first of
them may be an if and the else still be exchanged: such an else is not counted.
-/
namespace Mutagen
namespace Grammar

variable {g : Grammar} {s alternative body : Site} {spans : Span × Span}

/-- Whether an alternative is a node around an else that begins with a further if. -/
def beginsWithIf (g : Grammar) (alternative : Site) : Bool :=
  g.isElse alternative.kind && (g.membersOf alternative).head?.any fun c => g.isIf c.kind

theorem head?_membersOf (s : Site) :
    (g.membersOf s).head? = s.namedChildren.find? fun c => !g.isComment c.kind :=
  List.head?_filter

/-- Of the alternatives that are no further ifs themselves, all are plain but those that begin
with one. -/
theorem isPlainElse_eq (hif : g.isIf alternative.kind = false)
    (helif : g.isElif alternative.kind = false) :
    g.isPlainElse alternative = !g.beginsWithIf alternative := by
  rw [isPlainElse, beginsWithIf, head?_membersOf, hif, helif]
  cases g.isElse alternative.kind <;> rfl

/-- An if that can be inverted has one alternative, which counts unless it begins with an if. -/
theorem elseBranches_eq (hnamed : s.named = true) (hkind : g.isIf s.kind = true)
    (h : g.invertible? s = some spans) :
    ∃ alternative, s.childrenByField "alternative" = [alternative] ∧
      g.elseBranches s = if g.beginsWithIf alternative then 0 else 1 := by
  obtain ⟨alternative, -, -, hone, helif, hif, -⟩ := invertible?_eq_some h
  refine ⟨alternative, hone, ?_⟩
  rw [elseBranches, hnamed, hkind, hone, List.countP_singleton, isPlainElse_eq hif helif]
  cases g.beginsWithIf alternative <;> rfl

/-- An else around its body that begins with a further if has another node as its body. -/
theorem body_of_beginsWithIf (hbegins : g.beginsWithIf alternative = true)
    (hinline : g.inlineBranchKinds.contains alternative.kind = false)
    (hbody : g.elseBody? alternative = some body) (hif : g.isIf body.kind = false) :
    alternative.childByField? "body" = some body := by
  rw [beginsWithIf, Bool.and_eq_true, head?_membersOf] at hbegins
  rw [elseBody?, hbegins.1, hinline] at hbody
  cases hfield : alternative.childByField? "body" with
  | some b =>
    rw [hfield] at hbody
    exact hbody
  | none =>
    -- without a field the body is the first statement, which is an if
    rw [hfield] at hbody
    obtain ⟨first, hfirst, hfirstIf⟩ := (Option.any_eq_true _ _).1 hbegins.2
    have heq : some first = some body := hfirst.symm.trans hbody
    cases heq
    rw [hif] at hfirstIf
    cases hfirstIf

end Grammar

namespace Language

/-- Only in Ruby the node around an else holds the statements of the else itself. -/
theorem inlineBranchKinds_eq_nil {l : Language} (hl : l ≠ .ruby) :
    l.grammar.inlineBranchKinds = [] := by
  cases l with
  | ruby => exact absurd rfl hl
  | _ => rfl

/-- An if whose branches can be exchanged has one alternative, and this is counted as an else,
unless it begins with a further if: then it is not counted. It is always counted in the languages
other than Ruby, where the body of an else is the first statement in it. -/
theorem elseBranches_of_invertible? (l : Language) {s : Site} {spans : Span × Span}
    (hnamed : s.named = true) (hkind : s.kind ∈ l.grammar.ifKinds)
    (h : l.grammar.invertible? s = some spans) :
    ∃ alternative, s.childrenByField "alternative" = [alternative] ∧
      (l.grammar.elseBranches s = if l.grammar.beginsWithIf alternative then 0 else 1) ∧
      (l ≠ .ruby →
        (∀ body, alternative.childByField? "body" = some body →
          (l.grammar.membersOf alternative).head? = some body) →
        l.grammar.elseBranches s = 1) := by
  obtain ⟨alternative, hone, hcount⟩ :=
    Grammar.elseBranches_eq hnamed (List.contains_iff_mem.2 hkind) h
  refine ⟨alternative, hone, hcount, ?_⟩
  intro hl hfirst
  obtain ⟨a, body, -, hone', -, -, hbody, hif, -⟩ := Grammar.invertible?_eq_some h
  obtain rfl : a = alternative := by simpa using hone'.symm.trans hone
  rw [hcount, if_neg]
  intro hbegins
  have hinline : l.grammar.inlineBranchKinds.contains a.kind = false := by
    rw [inlineBranchKinds_eq_nil hl]
    rfl
  have hfield := Grammar.body_of_beginsWithIf hbegins hinline hbody hif
  rw [Grammar.beginsWithIf, hfirst body hfield, Option.any_some, hif, Bool.and_false] at hbegins
  cases hbegins

/-- An if of Ruby with the lines `if a`, `b`, `else` and some statements in its else. -/
def rubyIf (statements : List Node) : Site :=
  .top (.ofSpan "if" true none 0 40 [
    .ofSpan "if" false none 0 2 [],
    .ofSpan "identifier" true (some "condition") 3 4 [],
    .ofSpan "then" true (some "consequence") 4 8 [.ofSpan "identifier" true none 7 8 []],
    .ofSpan "else" true (some "alternative") 9 36 (.ofSpan "else" false none 9 13 [] :: statements),
    .ofSpan "end" false none 37 40 []])

/-- The statements `if c`, with one statement in it, and `e`. -/
def rubyStatements : List Node := [
  .ofSpan "if" true none 16 32 [
    .ofSpan "if" false none 16 18 [],
    .ofSpan "identifier" true (some "condition") 19 20 [],
    .ofSpan "then" true (some "consequence") 20 26 [.ofSpan "identifier" true none 25 26 []],
    .ofSpan "end" false none 29 32 []],
  .ofSpan "identifier" true none 35 36 []]

/-- An if of Python with the lines `if a:`, `b`, `else:` and `c`. -/
def pythonIf : Site :=
  .top (.ofSpan "if_statement" true none 0 19 [
    .ofSpan "if" false none 0 2 [],
    .ofSpan "identifier" true (some "condition") 3 4 [],
    .ofSpan "block" true (some "consequence") 7 8 [],
    .ofSpan "else_clause" true (some "alternative") 9 19 [
      .ofSpan "else" false none 9 13 [],
      .ofSpan ":" false none 13 14 [],
      .ofSpan "block" true (some "body") 18 19 []]])

/-- An else with the second of these statements alone can be exchanged and is counted, and so is
the else of Python. -/
theorem elseBranches_of_invertible?_single :
    let s := rubyIf rubyStatements.tail
    (s.named = true ∧ s.kind ∈ ruby.grammar.ifKinds ∧
      ruby.grammar.invertible? s = some (⟨7, 8⟩, ⟨35, 36⟩) ∧ ruby.grammar.elseBranches s = 1) ∧
      pythonIf.named = true ∧ pythonIf.kind ∈ python.grammar.ifKinds ∧
        python.grammar.invertible? pythonIf = some (⟨7, 8⟩, ⟨18, 19⟩) ∧
        python.grammar.elseBranches pythonIf = 1 := by
  intro s
  have hspans : ruby.grammar.invertible? s = some (⟨7, 8⟩, ⟨35, 36⟩) := by decide
  obtain ⟨alternative, hone, hcount, -⟩ :=
    ruby.elseBranches_of_invertible? (s := s) rfl (by decide) hspans
  have hplain : (s.childrenByField "alternative").map ruby.grammar.beginsWithIf = [false] := by
    decide
  rw [hone, List.map_singleton, List.singleton_inj] at hplain
  refine ⟨⟨rfl, by decide, hspans, by rw [hcount, hplain]; rfl⟩, ?_⟩
  have hspans : python.grammar.invertible? pythonIf = some (⟨7, 8⟩, ⟨18, 19⟩) := by decide
  obtain ⟨alternative, hone, -, hcounted⟩ :=
    python.elseBranches_of_invertible? (s := pythonIf) rfl (by decide) hspans
  refine ⟨rfl, by decide, hspans, hcounted (by decide) fun body hbody => ?_⟩
  have hfirst : (pythonIf.childrenByField "alternative").map (·.childByField? "body") =
      (pythonIf.childrenByField "alternative").map fun a => (python.grammar.membersOf a).head? :=
    rfl
  rw [hone, List.map_singleton, List.map_singleton, List.singleton_inj] at hfirst
  exact hfirst.symm.trans hbody

/-- An else with both statements can be exchanged as well, but since it begins with an if it is
not counted. -/
theorem invertible_else_uncounted :
    let s := rubyIf rubyStatements
    s.named = true ∧ s.kind ∈ ruby.grammar.ifKinds ∧
      ruby.grammar.invertible? s = some (⟨7, 8⟩, ⟨16, 36⟩) ∧ ruby.grammar.elseBranches s = 0 := by
  decide

end Language
end Mutagen
