import CodeGraph.Config.Basic
import CodeGraph.Language
import CodeGraph.Path.Specifier

/-!
# The files of a program

The input of an analysis is a list of paths with texts and syntax trees. The model orders the files
by their normalized paths, keeps one spelling of each path, leaves out files that cannot be read,
and tells which file a module specifier names.

## Main Definitions

* `Input`, `Model`: what is given, and the files made of it.
* `Model.build`: the model of a list of inputs.
* `Model.fileAt?`, `Model.wasInput`: a file by any spelling of its path.
* `Model.resolveModule?`: the file a module specifier names.

## Design Notes

Whether a file is kept does not hang on the other files, so the files are numbered after the others
were left out.
-/

namespace CodeGraph

/-- A file as it is given: a path, a text and the syntax tree of the text. -/
structure Input where
  /-- The path, in any spelling. -/
  path : String
  /-- The text. -/
  text : String
  /-- The syntax tree, when a grammar has made one. -/
  tree : Option Tree

/-- A file that is part of the model. -/
structure ModelFile where
  /-- The file. -/
  source : SourceFile
  /-- Its language and syntax tree. -/
  parsed : Parsed

/-- The root of the tree of a file. -/
def ModelFile.root (file : ModelFile) : Node := Node.root file.source file.parsed.tree

/-- The files of a program. -/
structure Model where
  /-- The files that could be read, by number. -/
  files : List ModelFile
  /-- The normalized paths of all inputs. -/
  inputPaths : List String
  /-- The directory that paths are relative to. -/
  projectRoot : String
  /-- Directories that bare specifiers are looked up in. -/
  moduleRoots : List String
  /-- Why the other inputs were left out. -/
  faults : List SourceFault

/-! ### Ordering the inputs -/

/-- The normal form of the path of an input. -/
def Input.normalized (input : Input) : String := Path.normalize input.path

/-- The order of inputs: by normalized path, and by spelling where these are the same. -/
def Input.le (a b : Input) : Bool :=
  a.normalized < b.normalized || (a.normalized = b.normalized && a.path ≤ b.path)

/-- Keeps the first of several inputs in a row with the same normalized path; `previous` is the path
that came before. -/
def dropRepeats (previous : Option String) : List Input → List Input
  | [] => []
  | input :: inputs =>
    if previous = some input.normalized then dropRepeats previous inputs
    else input :: dropRepeats (some input.normalized) inputs

/-- The inputs by normalized path, one for each path. -/
def orderInputs (inputs : List Input) : List Input :=
  dropRepeats none (inputs.mergeSort Input.le)

/-! ### Admitting files -/

/-- The file made of an input. -/
def Input.sourceFile (input : Input) (root : String) (id : Nat) : SourceFile where
  id := ⟨id⟩
  path := input.path
  normalized := input.normalized
  simplified := Path.relativeTo input.normalized root
  text := input.text

/-- Where the first syntax error of a file is, line and column counted from one. -/
def Parsed.firstFault (parsed : Parsed) : Nat × Nat :=
  match parsed.faultRanges with
  | [] => (0, 0)
  | range :: _ => (range.start.line + 1, range.start.column + 1)

/-- The parsed file of an input, or why it is left out: it is too large, its language is not known,
or it has syntax errors that are not tolerated. -/
def Input.admit (input : Input) (settings : AnalysisSettings) : Except SourceFault Parsed :=
  if settings.byteLimit < input.text.utf8ByteSize then
    .error (.tooLarge input.path input.text.utf8ByteSize settings.byteLimit)
  else
    match Parsed.ofTree (input.sourceFile "" 0) input.tree with
    | .error fault => .error fault
    | .ok parsed =>
      if parsed.hasFaults && !settings.keepsBroken then
        .error (.partialParse input.path parsed.faultCount parsed.firstFault.1
          parsed.firstFault.2)
      else .ok parsed

/-- An input with its parsed file, when it is kept. -/
def Input.kept? (settings : AnalysisSettings) (input : Input) : Option (Input × Parsed) :=
  match input.admit settings with
  | .ok parsed => some (input, parsed)
  | .error _ => none

/-- Why an input is left out, when it is. -/
def Input.fault? (settings : AnalysisSettings) (input : Input) : Option SourceFault :=
  match input.admit settings with
  | .ok _ => none
  | .error fault => some fault

namespace Model

/-- The directory that paths are relative to: the one that is set, or the common directory of all
inputs. -/
def rootOf (settings : AnalysisSettings) (inputs : List Input) : String :=
  match settings.projectRoot with
  | some root => Path.normalize root
  | none => Path.commonDir (inputs.map Input.normalized)

/-- The model of a list of inputs. -/
def build (settings : AnalysisSettings) (given : List Input) : Model :=
  let inputs := orderInputs given
  let root := rootOf settings inputs
  { files := (inputs.filterMap (Input.kept? settings)).zipIdx.map fun ((input, parsed), id) =>
      ⟨input.sourceFile root id, parsed⟩
    inputPaths := inputs.map Input.normalized
    projectRoot := root
    moduleRoots := settings.moduleRoots.map Path.normalize
    faults := inputs.filterMap (Input.fault? settings) }

/-! ### Finding files -/

/-- The file with a normalized path. -/
def fileWith? (model : Model) (normalized : String) : Option SourceFile :=
  (model.files.find? fun file => file.source.normalized = normalized).map ModelFile.source

/-- The file with a path of any spelling. -/
def fileAt? (model : Model) (path : String) : Option SourceFile :=
  model.fileWith? (Path.normalize path)

/-- Whether a path of any spelling was among the inputs. -/
def wasInput (model : Model) (path : String) : Bool :=
  model.inputPaths.contains (Path.normalize path)

/-- The first file that a base path may mean. -/
def firstCandidate? (model : Model) (base : String) : Option SourceFile :=
  (Path.candidates base).findSome? model.fileWith?

/-- The file that a module specifier in `importer` names; nothing for modules outside the model. -/
def resolveModule? (model : Model) (importer : SourceFile) (specifier : String) :
    Option SourceFile :=
  if Path.isRelativeSpecifier specifier then
    model.firstCandidate? (Path.join (Path.parent importer.normalized) specifier)
  else if Path.isRootedSpecifier specifier then
    model.firstCandidate? (Path.normalize specifier)
  else
    model.moduleRoots.findSome? fun root => model.firstCandidate? (Path.join root specifier)

end Model

/-- Whether two files differ in their project-relative paths. -/
def SourceFile.crosses (a b : SourceFile) : Bool := a.simplified ≠ b.simplified

end CodeGraph
