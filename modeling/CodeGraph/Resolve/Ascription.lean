import CodeGraph.Resolve.Level

/-!
# Types of bindings

The type of a binding is read off its annotation or its value, the type of a call off the return
annotation of what is called. Only classes of the program are found.

## Main Definitions

* `Program.ascriptionStep`: the instance type that an annotation names.
* `Program.bindingStep`, `Program.returnedStep`: the types of bindings and of calls.
* `Program.symbolType`: the type of what a symbol denotes.
-/

namespace CodeGraph

/-- The members of a union type, with the members of inner unions in their place. -/
def Node.unionMembers (node : Node) : List Node :=
  (node.namedChildren.attach.map fun member =>
    have := Node.size_lt_of_mem_namedChildren member.property
    if member.val.kind = .unionType then unionMembers member.val else [member.val]).flatten
termination_by node.size

namespace Program

/-! ### Annotations -/

/-- The type of an instance of what a symbol denotes, when that is a class. -/
def instanceType : Symbol → Ty
  | .decl decl => if decl.isClass then .instanceOf decl else .unknown
  | _ => .unknown

/-- The type of instances of what a name denotes. -/
def namedType (program : Program) (symbol : Option Symbol) : Ty :=
  match symbol.bind program.resolveAlias? with
  | some symbol => instanceType symbol
  | none => .unknown

/-- Generic types that stand for their first argument. -/
def promiseTypes : List String := ["Promise", "PromiseLike"]

/-- Members of a union that do not count. -/
def emptyTypes : List String := ["null", "undefined", "void"]

/-- The type inside a generic type, one level down. -/
def genericType (below : Level) (node : Node) : Ty :=
  match node.child? .name with
  | none => .unknown
  | some name =>
    if promiseTypes.contains name.text then
      match (node.child? .typeArguments).bind Node.firstNamed? with
      | some argument => below.ascribed argument
      | none => .unknown
    else below.ascribed name

/-- The type of a name that a module exports. -/
def nestedType (program : Program) (node : Node) : Ty :=
  match node.child? .module, node.child? .name with
  | some qualifier, some name =>
    if qualifier.kind = .identifier then
      match (program.resolveIdentifier? qualifier).bind program.resolveAlias? with
      | some (.module target) => program.namedType (program.exportSymbol? target name.text)
      | _ => .unknown
    else .unknown
  | _, _ => .unknown

/-- The instance type that an annotation names. Promises and unions with nothing but one member
stand for that member. -/
def ascriptionStep (program : Program) (below : Level) (ascription : Node) : Ty :=
  match ascription.ascribedType? with
  | none => .unknown
  | some node =>
    match node.kind with
    | .typeIdentifier | .identifier => program.namedType (program.lookup? node node.text)
    | .genericType => genericType below node
    | .nestedTypeIdentifier => program.nestedType node
    | .unionType =>
      match node.unionMembers.filter fun member =>
        !emptyTypes.contains (Text.trim member.text) with
      | [only] => below.ascribed only
      | _ => .unknown
    | .parenthesizedType | .readonlyType =>
      match node.firstNamed? with
      | some inner => below.ascribed inner
      | none => .unknown
    | _ => .unknown

/-! ### Bindings -/

/-- The type of what a node binds, by its annotation. -/
def declaredType (below : Level) (node : Node) : Ty :=
  ((node.child? .type).map below.ascribed).getD .unknown

/-- The type of what a node binds, by its value. -/
def valueType (below : Level) (preference : Preference) (node : Node) : Ty :=
  ((node.child? .value).map (below.type preference)).getD .unknown

/-- The type of what a node binds: by its annotation or by its value, whichever counts first and is
known. -/
def bindingStep (below : Level) (preference : Preference) (node : Node) : Ty :=
  match preference with
  | .declared => (declaredType below node).orElse (valueType below .declared node)
  | .value => (valueType below .value node).orElse (declaredType below node)

/-- The declared type of what a declaration returns. -/
def returnedStep (below : Level) (decl : Decl) : Ty :=
  match decl.functionNode?.bind fun function => function.child? .returnType with
  | some ascription => below.ascribed ascription
  | none => .unknown

/-- The type of what a symbol denotes. It is only asked for with symbols whose links were all
followed (`readingOf`), and these are no imports; the answer for an import is never heard. -/
def symbolType (below : Level) (preference : Preference) : Symbol → Ty
  | .module file => .module file
  | .binder node => below.binding preference node
  | .imported _ => .unknown
  | .decl decl =>
    match decl.kind with
    | .classType => .classItself decl
    | .variable | .property => below.binding preference decl.node
    | .accessor => below.returned decl
    | _ => .unknown

end Program

end CodeGraph
