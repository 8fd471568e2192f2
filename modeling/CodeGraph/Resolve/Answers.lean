import CodeGraph.Resolve.ClassReference
import CodeGraph.Resolve.Expression

/-!
# Answers about a program

## Main Definitions

* `Program.level`: the answers for a budget of jumps.
* `Program.expressionSymbol?`, `Program.calleeSymbol?`, `Program.ascribedType`,
  `Program.returnType`, `Program.baseClass?`, `Program.classReference?`: the answers for the full
  budget.
-/

namespace CodeGraph.Program

/-- The answers with one unit of budget more. -/
def levelStep (program : Program) (below : Level) : Level where
  symbol? node := (program.read below node).symbol?
  type preference node := (program.read below node).type preference
  ascribed := program.ascriptionStep below
  binding := bindingStep below
  returned := returnedStep below
  base? := baseStep? below
  reference? := classStep? below

/-- The answers for a budget of jumps. -/
def level (program : Program) : (budget : Nat) → Level
  | 0 => .exhausted
  | budget + 1 => program.levelStep (program.level budget)

/-- The budget of a question from outside. -/
def fullBudget : Nat := 25

/-- The answers for the full budget. -/
def answers (program : Program) : Level := program.level fullBudget

/-- What an expression denotes, after all links. -/
def expressionSymbol? (program : Program) (expression : Node) : Option Symbol :=
  program.answers.symbol? expression

/-- What a call calls. -/
def calleeSymbol? (program : Program) (call : Node) : Option Symbol :=
  (call.child? .function).bind program.expressionSymbol?

/-- The instance type that an annotation names. -/
def ascribedType (program : Program) (ascription : Node) : Ty :=
  program.answers.ascribed ascription

/-- The declared type of what a declaration returns. -/
def returnType (program : Program) (decl : Decl) : Ty := program.answers.returned decl

/-- The class that a class extends. -/
def baseClass? (program : Program) (decl : Decl) : Option Decl := program.answers.base? decl

/-- The class that an expression in metadata or an injection token refers to. -/
def classReference? (program : Program) (expression : Node) : Option Decl :=
  program.answers.reference? expression

end CodeGraph.Program
