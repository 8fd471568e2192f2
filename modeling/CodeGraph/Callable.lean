import CodeGraph.Graph.Basic
import CodeGraph.Resolve.Answers
import CodeGraph.Role
import CodeGraph.Tree.Decorator

/-!
# Callables

The nodes of a call graph are the functions, methods and function-valued variables and fields that
files declare at top level or in classes.

## Main Definitions

* `Callable`: a declaration with a body.
* `Program.collect`: the callables of some files.
* `Collected.get?`: the callable of a declaration.
-/

namespace CodeGraph

/-- The kind of node for a function of a syntactic kind. -/
def NodeKind.ofKind? : Kind → Option NodeKind
  | .functionDeclaration | .generatorFunctionDeclaration => some .functionDeclaration
  | .methodDefinition => some .method
  | .functionExpression | .functionWord | .generatorFunction => some .functionExpression
  | .arrowFunction => some .arrowFunction
  | _ => none

/-- A callable that has no identifier yet. -/
structure CallableDraft where
  /-- The declaration. -/
  decl : Decl
  /-- The function that carries the body. -/
  function : Node
  /-- What kind of function it is. -/
  kind : NodeKind
  /-- The class of a member. -/
  className : Option String
  /-- The role of the callable. -/
  role : Option Role

namespace CallableDraft

/-- The name of a callable; a declaration with an empty name has a name made up. -/
def name (draft : CallableDraft) : String :=
  if draft.decl.name = "" then "<anon>" else draft.decl.name

/-- The name with the class in front. -/
def qualifiedName (draft : CallableDraft) : String :=
  Identity.qualify draft.className draft.name

/-- The qualified name with the types of the parameters. -/
def signature (draft : CallableDraft) : String :=
  Identity.signature draft.qualifiedName (draft.function.parameters.map Node.parameterType)

/-- The identifier to ask for. -/
def base (draft : CallableDraft) : String :=
  Identity.compose draft.decl.file.path draft.qualifiedName draft.signature

end CallableDraft

/-- A declaration with a body. -/
structure Callable where
  /-- The identifier, unlike that of any other callable of the collection. -/
  id : String
  /-- What is known of the callable. -/
  draft : CallableDraft

namespace Callable

/-- The declaration. -/
def decl (callable : Callable) : Decl := callable.draft.decl

/-- The file. -/
def file (callable : Callable) : SourceFile := callable.decl.file

/-- The function that carries the body. -/
def function (callable : Callable) : Node := callable.draft.function

/-- The node of a callable in a graph. -/
def graphNode (callable : Callable) : GraphNode where
  id := callable.id
  label := callable.draft.qualifiedName
  kind := callable.draft.kind
  isAsync := some callable.function.isAsync
  filePath := callable.file.path
  fileKey := callable.file.key
  className := callable.draft.className
  role := callable.draft.role

end Callable

/-- Callables in the order in which they were collected. -/
structure Collected where
  /-- The callables. -/
  callables : List Callable

/-- The callable of a declaration; the last one when a file was collected twice. -/
def Collected.get? (collected : Collected) (decl : DeclId) : Option Callable :=
  collected.callables.reverse.find? fun callable => callable.decl.id = decl

/-- What the role of a class is read off. -/
def Decl.classFacts (decl : Decl) : ClassFacts where
  name := decl.name
  decorators := decl.node.decoratorNames
  path := decl.file.path

namespace Program

/-- The role of a class. -/
def classRole (conventions : Conventions) (decl : Decl) : Option Role :=
  Role.classify conventions decl.classFacts

/-- The callable that a declaration declares, when it declares one. -/
def callableDraft? (className : Option String) (role : Option Role) (decl : Decl) :
    Option CallableDraft := do
  let function ← decl.functionNode?
  let kind ← NodeKind.ofKind? function.kind
  return { decl, function, kind, className, role }

/-- The callables that a top-level declaration brings: itself, or the methods and function-valued
fields of a class. -/
def callableDrafts (program : Program) (conventions : Conventions) (decl : Decl) :
    List CallableDraft :=
  match decl.kind with
  | .function | .variable => (callableDraft? none (some .helper) decl).toList
  | .classType =>
    (program.membersOf decl.id).filterMap fun member =>
      if member.kind = .method ∨ member.kind = .property then
        callableDraft? (some decl.name) (classRole conventions decl) member
      else none
  | _ => []

/-- The top-level declarations of some files, in order. -/
def topLevels (program : Program) (files : List SourceFile) : List Decl :=
  files.flatMap fun file => (program.scopeOf file).topLevel

/-- The callables of some files, in order, without identifiers. -/
def draftsOf (program : Program) (conventions : Conventions) (files : List SourceFile) :
    List CallableDraft :=
  (program.topLevels files).flatMap (program.callableDrafts conventions)

/-- The callables of some files, in order, with their identifiers. Counts of 32 bits give the same
identifiers, until one is asked for `2 ^ 32` times. -/
def collect (program : Program) (conventions : Conventions) (files : List SourceFile) :
    Collected :=
  let drafts := program.draftsOf conventions files
  ⟨List.zipWith Callable.mk (Allocator.empty.allocateAll (drafts.map CallableDraft.base)) drafts⟩

end Program

end CodeGraph
