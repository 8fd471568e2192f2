import CodeGraph.Resolve.Level

/-!
# Members of a receiver

## Main Definitions

* `Program.classMember?`: a member of a class, its own or one of a base class.
* `Program.objectMember?`: what an entry of an object literal denotes.
* `Program.member?`: what a name denotes on a receiver of a type.
-/

namespace CodeGraph.Program

/-- The most classes of an inheritance chain that are searched for a member. -/
def chainLimit : Nat := 24

/-- A member of a class by name, searched up the chain of base classes: at most `classes` of them,
none twice. -/
def memberUpTo? (program : Program) (below : Level) (name : String) (isStatic : Bool) :
    (classes : Nat) → (visited : List DeclId) → Decl → Option Decl
  | 0, _, _ => none
  | classes + 1, visited, owner =>
    if owner.id ∈ visited then none
    else
      match (program.membersOf owner.id).find? fun member =>
        member.name = name && member.isStatic = isStatic with
      | some member => some member
      | none =>
        (below.base? owner).bind
          (program.memberUpTo? below name isStatic classes (owner.id :: visited))

/-- A member of a class by name, its own or one of a base class. -/
def classMember? (program : Program) (below : Level) (name : String) (isStatic : Bool)
    (owner : Decl) : Option Decl :=
  program.memberUpTo? below name isStatic chainLimit [] owner

/-- The key of a pair in an object. -/
def pairKey? (pair : Node) : Option String := (pair.child? .key).bind Node.memberName?

/-- Whether an entry of an object stands under a name. -/
def isEntryOf (name : String) (entry : Node) : Bool :=
  match entry.kind with
  | .pair => pairKey? entry = some name
  | .shorthandPropertyIdentifier => entry.text = name
  | _ => false

/-- What the first entry of an object under a name denotes. -/
def objectMember? (program : Program) (below : Level) (name : String) (object : Node) :
    Option Symbol := do
  let entry ← object.namedChildren.find? (isEntryOf name)
  if entry.kind = .pair then below.symbol? (← entry.child? .value)
  else (program.lookup? entry name).bind program.resolveAlias?

/-- What a name denotes on a receiver of a type. -/
def member? (program : Program) (below : Level) (name : String) : Ty → Option Symbol
  | .instanceOf owner => (program.classMember? below name false owner).map .decl
  | .classItself owner => (program.classMember? below name true owner).map .decl
  | .module file => program.exportSymbol? file name
  | .object node => program.objectMember? below name node
  | .unknown => none

end CodeGraph.Program
