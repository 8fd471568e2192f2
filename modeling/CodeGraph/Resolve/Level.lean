import CodeGraph.Resolve.Alias

/-!
# Types and levels of answers

A call can be followed to a declaration when the class of the receiver is evident: from an
annotation, an initial value, `this`, or an import. What is not evident stays unknown.

## Main Definitions

* `Ty`: the types that are told apart.
* `Level`: the questions that can be asked with some budget of jumps left.
* `Reading`: what is read off an expression at once: its symbol and its type.

## Design Notes

Going down into an expression is free, since the tree bounds it. Going elsewhere (into the
annotation or value of a binding, a return type, a base class) costs one unit of a budget, and with
no unit left nothing is known. The answers for a budget are made from the answers for the budget
less one, so that programs that refer to themselves in circles need no other care.
-/

namespace CodeGraph

/-- The type of an expression, as far as it is evident. -/
inductive Ty where
  /-- An instance of a class. -/
  | instanceOf (decl : Decl)
  /-- A class itself, whose members are the static ones. -/
  | classItself (decl : Decl)
  /-- A file as a whole. -/
  | module (file : SourceFile)
  /-- An object literal. -/
  | object (node : Node)
  | unknown

namespace Ty

/-- Whether nothing is known. -/
def isUnknown : Ty → Bool
  | unknown => true
  | _ => false

/-- The first of two types, unless nothing is known of it. -/
@[macro_inline] def orElse (first second : Ty) : Ty :=
  if first.isUnknown then second else first

/-- Whether two types are the same. -/
def same : Ty → Ty → Bool
  | instanceOf a, instanceOf b => a.id = b.id
  | classItself a, classItself b => a.id = b.id
  | module a, module b => a.id = b.id
  | object a, object b => a.same b
  | unknown, unknown => true
  | _, _ => false

end Ty

/-- What counts first for the type of a binding. -/
inductive Preference where
  | declared
  | value
  deriving DecidableEq, Repr

/-- The questions that can be asked with some budget of jumps left. -/
structure Level where
  /-- What an expression denotes. -/
  symbol? : Node → Option Symbol
  /-- The type of an expression. -/
  type : Preference → Node → Ty
  /-- The type that an annotation names. -/
  ascribed : Node → Ty
  /-- The type of what a node binds. -/
  binding : Preference → Node → Ty
  /-- The declared type of what a declaration returns. -/
  returned : Decl → Ty
  /-- The class that a class extends. -/
  base? : Decl → Option Decl
  /-- The class that an expression refers to. -/
  reference? : Node → Option Decl

/-- With no budget left nothing is known. -/
def Level.exhausted : Level where
  symbol? _ := none
  type _ _ := .unknown
  ascribed _ := .unknown
  binding _ _ := .unknown
  returned _ := .unknown
  base? _ := none
  reference? _ := none

/-- What is read off an expression. -/
structure Reading where
  /-- The symbol it denotes. -/
  symbol? : Option Symbol
  /-- Its type. -/
  type : Preference → Ty

namespace Reading

/-- Nothing is known of an expression. -/
def unknown : Reading := ⟨none, fun _ => .unknown⟩

/-- An expression that denotes no symbol. -/
def ofType (type : Preference → Ty) : Reading := ⟨none, type⟩

end Reading

end CodeGraph
