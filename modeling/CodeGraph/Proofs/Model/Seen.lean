import CodeGraph.Analysis
import CodeGraph.Proofs.Resolve.Reading

/-!
# What an analysis sees of a program

A model also notes which paths were given, where the project begins and why inputs were left out. No
name is looked up there: the passes see the files, the directories of modules and the index. So each
function of a pass gives the same answer for a program and for what is seen of it.

## Main Definitions

* `Model.seen`, `Program.seen`: a model and a program without the notes.

## Main Statements

* `Program.level_seen`: the answers of every budget are the same for what is seen of a program.
* `Program.callGraph_seen`, `Program.wiringGraph_seen`, `Program.moduleNodes_seen`: so are the
  graphs.
-/

namespace CodeGraph

/-- A model without the notes on its inputs. -/
def Model.seen (model : Model) : Model :=
  { model with inputPaths := [], projectRoot := "", faults := [] }

namespace Program

/-- A program without the notes on its inputs. -/
def seen (program : Program) : Program := { program with model := program.model.seen }

variable (program : Program)

/-! ### Looking up in the index -/

@[simp]
theorem scopeOf_seen : program.seen.scopeOf = program.scopeOf := rfl

@[simp]
theorem declAt?_seen : program.seen.declAt? = program.declAt? := rfl

@[simp]
theorem membersOf_seen : program.seen.membersOf = program.membersOf := rfl

@[simp]
theorem lookup?_seen : program.seen.lookup? = program.lookup? := rfl

@[simp]
theorem resolveIdentifier?_seen :
    program.seen.resolveIdentifier? = program.resolveIdentifier? := rfl

/-- Classes are told by their numbers, which nothing changes. -/
@[simp]
theorem classAmong?_seen : program.seen.classAmong? = program.classAmong? := by
  funext nodes
  induction nodes with
  | nil => rfl
  | cons node above inductionHypothesis =>
    simp only [classAmong?, inductionHypothesis, declAt?_seen]

@[simp]
theorem enclosingClass?_seen : program.seen.enclosingClass? = program.enclosingClass? := by
  funext place
  rw [enclosingClass?, classAmong?_seen, enclosingClass?]

/-! ### Following imports -/

@[simp]
theorem starFiles_seen : program.seen.starFiles = program.starFiles := rfl

/-- The search through star exports asks for file numbers, own tables and star files. -/
@[simp]
theorem searchExport?_seen : program.seen.searchExport? = program.searchExport? := by
  funext name unvisited pending
  fun_induction program.searchExport? name unvisited pending with
  | case1 => rw [searchExport?]
  | case2 unvisited file pending fresh _ target listed symbol gives =>
    rw [searchExport?, dif_pos fresh]
    simp [listed, gives]
  | case3 unvisited file pending fresh _ target listed gives inductionHypothesis =>
    rw [searchExport?, dif_pos fresh]
    simp [listed, gives, inductionHypothesis]
  | case4 unvisited file pending fresh _ listed isDefault inductionHypothesis =>
    rw [searchExport?, dif_pos fresh, scopeOf_seen, listed]
    simp only [if_pos isDefault, inductionHypothesis]
  | case5 unvisited file pending fresh _ listed isNamed inductionHypothesis =>
    rw [searchExport?, dif_pos fresh]
    simp [listed, isNamed, inductionHypothesis]
  | case6 unvisited file pending visited inductionHypothesis =>
    rw [searchExport?, dif_neg visited, inductionHypothesis]

@[simp]
theorem exportSymbol?_seen : program.seen.exportSymbol? = program.exportSymbol? := by
  funext file name
  rw [exportSymbol?, searchExport?_seen]
  rfl

@[simp]
theorem follow?_seen : program.seen.follow? = program.follow? := by
  funext link
  unfold follow?
  rw [exportSymbol?_seen]
  rfl

/-- Following any number of links gives the same, since each link does. -/
@[simp]
theorem followUpTo?_seen : program.seen.followUpTo? = program.followUpTo? := by
  funext looks
  induction looks with
  | zero => rfl
  | succ looks inductionHypothesis =>
    funext symbol
    cases symbol <;> simp [followUpTo?, inductionHypothesis]

@[simp]
theorem resolveAlias?_seen : program.seen.resolveAlias? = program.resolveAlias? := by
  funext symbol
  rw [resolveAlias?, followUpTo?_seen, resolveAlias?]

@[simp]
theorem literalKey?_seen : program.seen.literalKey? = program.literalKey? := by
  funext index
  unfold literalKey?
  rw [resolveAlias?_seen, resolveIdentifier?_seen]

/-! ### Types and members -/

@[simp]
theorem namedType_seen : program.seen.namedType = program.namedType := by
  funext symbol
  unfold namedType
  rw [resolveAlias?_seen]

@[simp]
theorem nestedType_seen : program.seen.nestedType = program.nestedType := by
  funext node
  simp only [nestedType, resolveIdentifier?_seen, resolveAlias?_seen, exportSymbol?_seen,
    namedType_seen]

@[simp]
theorem ascriptionStep_seen : program.seen.ascriptionStep = program.ascriptionStep := by
  funext below ascription
  simp only [ascriptionStep, namedType_seen, nestedType_seen, lookup?_seen]

/-- The search for a member goes up the same classes. -/
@[simp]
theorem memberUpTo?_seen : program.seen.memberUpTo? = program.memberUpTo? := by
  funext below name isStatic classes
  induction classes with
  | zero => rfl
  | succ classes inductionHypothesis =>
    funext visited owner
    simp only [memberUpTo?, inductionHypothesis, membersOf_seen]

@[simp]
theorem objectMember?_seen : program.seen.objectMember? = program.objectMember? := by
  funext below name object
  unfold objectMember?
  rw [lookup?_seen, resolveAlias?_seen]

@[simp]
theorem member?_seen : program.seen.member? = program.member? := by
  funext below name type
  cases type <;> simp [member?, classMember?]

/-! ### Expressions -/

@[simp]
theorem readingOf_seen : program.seen.readingOf = program.readingOf := by
  funext below symbol
  unfold readingOf
  rw [resolveAlias?_seen]

@[simp]
theorem elementSymbol?_seen : program.seen.elementSymbol? = program.elementSymbol? := by
  funext below key receiver
  unfold elementSymbol?
  rw [member?_seen]

/-- What is read off an expression, by the recursion of the reading: each form asks things that do
not see the left-out files. -/
@[simp]
theorem read_seen : program.seen.read = program.read := by
  funext below node
  induction node using read.induct program with
  | case1 node kind =>
    rw [read_identifier kind, read_identifier kind, readingOf_seen, resolveIdentifier?_seen]
  | case2 node kind object property isObject isProperty smaller inductionHypothesis =>
    rw [read_member kind isObject isProperty, read_member kind isObject isProperty,
      readingOf_seen, member?_seen, inductionHypothesis]
  | case4 node kind object key isObject isKey smaller inductionHypothesis =>
    have isKeySeen : (node.child? .index).bind program.seen.literalKey? = some key := by
      rwa [literalKey?_seen]
    rw [read_element kind isObject isKeySeen, read_element kind isObject isKey, readingOf_seen,
      elementSymbol?_seen, inductionHypothesis]
  | case6 node kind inner found smaller inductionHypothesis
  | case8 node kind inner found smaller inductionHypothesis
  | case10 node kind inner found smaller inductionHypothesis =>
    have wraps : node.kind.isWrapper := by rw [kind]; rfl
    rw [read_of_wrapper wraps found, read_of_wrapper wraps found, inductionHypothesis]
  | case12 node kind inner found smaller inductionHypothesis =>
    rw [read_await kind found, read_await kind found, inductionHypothesis]
  | case14 node kind function found smaller inductionHypothesis =>
    rw [read_call kind found, read_call kind found, inductionHypothesis]
  | case16 node kind constructor found smaller inductionHypothesis =>
    rw [read_new kind found, read_new kind found, inductionHypothesis]
  | case19 node kind operand rest children smaller inductionHypothesis =>
    rw [read_as kind children, read_as kind children, inductionHypothesis, ascriptionStep_seen]
  | case20 node kind => rw [read_this kind, read_this kind, enclosingClass?_seen]
  | case21 node kind => rw [read_super kind, read_super kind, enclosingClass?_seen]
  | case22 node kind => rw [read_object kind, read_object kind]
  -- A part is missing that the kind of the expression needs, so nothing is read.
  | case3 node kind missing | case5 node kind missing =>
    rw [read, read]
    simp only [kind, literalKey?_seen]
  | case7 node kind missing | case9 node kind missing | case11 node kind missing
  | case13 node kind missing | case15 node kind missing | case17 node kind missing
  | case18 node kind missing =>
    rw [read, read]
    simp only [kind]
    split <;> simp_all
  | case23 node =>
    rw [read, read]
    split <;> simp_all

/-! ### Answers -/

/-- The answers of every budget are the same for what is seen of a program. -/
@[simp]
theorem level_seen : program.seen.level = program.level := by
  funext budget
  induction budget with
  | zero => rfl
  | succ budget inductionHypothesis =>
    simp only [level, inductionHypothesis, levelStep, read_seen, ascriptionStep_seen]

/-- All answers are the same, as one level makes the next from what is the same. -/
@[simp]
theorem answers_seen : program.seen.answers = program.answers := by
  rw [answers, level_seen, answers]

@[simp]
theorem expressionSymbol?_seen : program.seen.expressionSymbol? = program.expressionSymbol? := by
  funext expression
  rw [expressionSymbol?, answers_seen, expressionSymbol?]

@[simp]
theorem ascribedType_seen : program.seen.ascribedType = program.ascribedType := by
  funext ascription
  rw [ascribedType, answers_seen, ascribedType]

@[simp]
theorem classReference?_seen : program.seen.classReference? = program.classReference? := by
  funext expression
  rw [classReference?, answers_seen, classReference?]

/-! ### The call graph -/

/-- A call leads to the same callable. -/
@[simp]
theorem callee?_seen : program.seen.callee? = program.callee? := by
  funext collected call
  simp only [callee?, calleeSymbol?, expressionSymbol?_seen]

/-- So a call site has the same edge, or none. -/
@[simp]
theorem siteEdge?_seen : program.seen.siteEdge? = program.siteEdge? := by
  funext collected site
  simp only [siteEdge?, callee?_seen]

/-- The call graph is that of what is seen of a program. -/
theorem callGraph_seen : program.seen.callGraph = program.callGraph := by
  funext conventions files
  have collected : program.seen.collect = program.collect := rfl
  simp only [callGraph, callEdges, collected, siteEdge?_seen]

/-! ### The wiring graph -/

@[simp]
theorem metadataEntry?_seen : program.seen.metadataEntry? = program.metadataEntry? := by
  funext entry
  simp only [ metadataEntry?, shorthandElements, lookup?_seen, resolveAlias?_seen]

/-- The lists of a module are found the same. -/
@[simp]
theorem moduleMetadata_seen : program.seen.moduleMetadata = program.moduleMetadata := by
  funext conventions decl
  simp only [moduleMetadata, listedClasses, metadataEntry?_seen, classReference?_seen]

@[simp]
theorem importedModules_seen : program.seen.importedModules = program.importedModules := by
  funext conventions decl
  rw [importedModules, moduleMetadata_seen, importedModules]

@[simp]
theorem containedClasses_seen : program.seen.containedClasses = program.containedClasses := by
  funext conventions decl
  simp only [containedClasses, moduleMetadata_seen]

/-- The classes of the wiring are reached along these lists. -/
@[simp]
theorem wiredClasses_seen : program.seen.wiredClasses = program.wiredClasses := by
  have wiredBy_seen : program.seen.wiredBy = program.wiredBy := by
    funext conventions decl
    simp only [wiredBy, importedModules_seen, containedClasses_seen]
  funext conventions modules
  rw [wiredClasses, wiredBy_seen, wiredClasses]

@[simp]
theorem moduleEdges_seen : program.seen.moduleEdges = program.moduleEdges := by
  funext conventions decl
  rw [moduleEdges, importedModules_seen, containedClasses_seen, moduleEdges]

@[simp]
theorem parameterClass?_seen : program.seen.parameterClass? = program.parameterClass? := by
  funext conventions parameter
  simp only [parameterClass?, classReference?_seen, ascribedType_seen]

/-- What is injected into a class is the same. -/
@[simp]
theorem injectionEdges_seen : program.seen.injectionEdges = program.injectionEdges := by
  funext conventions classes decl
  simp only [injectionEdges, dependencies, parameterClass?_seen]

/-- The graph of modules is that of what is seen of a program. -/
theorem moduleNodes_seen : program.seen.moduleNodes = program.moduleNodes := rfl

/-- The wiring graph is that of what is seen of a program. -/
theorem wiringGraph_seen : program.seen.wiringGraph = program.wiringGraph := by
  funext conventions files
  have modules : program.seen.modulesIn = program.modulesIn := rfl
  simp only [wiringGraph, wiringEdges, modules, wiredClasses_seen, moduleEdges_seen,
    injectionEdges_seen]

end Program

end CodeGraph
