import CodeGraph.Config.Basic
import CodeGraph.Text.Digit

/-!
# Layers of settings

Settings are collected from several places. From the lowest to the highest: a file of the user, a
file of the project, the environment, and what the caller asks for. A higher layer wins where it
says something, setting by setting.

## Main Definitions

* `Config.merge`: a layer over another.
* `Config.applyEnvironment`, `Config.applyOverrides`: the two highest layers.
* `Config.load`: the settings of all layers.

## Design Notes

The places themselves are given as data: what is found under the path of each file, and the texts of
the environment. Reading them is the work of the caller. What the text of a file says is given by a
function, `decode?`. `Config.decode?` is the one for TOML, but nothing about layers depends on it.
-/

namespace CodeGraph

/-- What is found under the path of a settings file. -/
inductive FileState where
  /-- There is nothing. -/
  | missing
  /-- There is something that is no readable text. -/
  | unreadable
  /-- There is a text. -/
  | content (text : String)

/-- A place for a settings file. -/
structure SettingsFile where
  /-- The path of the file. -/
  path : String
  /-- What is found there. -/
  state : FileState

/-- The texts of the environment, where they are set. -/
structure Environment where
  /-- The directory that file keys are relative to. -/
  projectRoot : Option String := none
  /-- The size limit of a file. -/
  maxFileBytes : Option String := none
  /-- Whether files with syntax errors are kept. -/
  tolerateSyntaxErrors : Option String := none
  /-- Directories for bare import specifiers, with commas between them. -/
  moduleRoots : Option String := none

/-- What the caller asks for. -/
structure Overrides where
  /-- The directory that file keys are relative to. -/
  projectRoot : Option String := none
  /-- The size limit of a file. -/
  maxFileBytes : Option Nat := none
  /-- Whether files with syntax errors are kept. -/
  tolerateSyntaxErrors : Option Bool := none
  /-- Directories for bare import specifiers; an empty list counts too. -/
  moduleRoots : Option (List String) := none

namespace Config

/-! ### Files -/

/-- The higher of two lists, unless it is empty. -/
def higherList (low high : List String) : List String :=
  if high.isEmpty then low else high

/-- Lays `high` over `low`: each setting of `high` that is not open wins. -/
def merge (low high : Config) : Config where
  analysis := {
    projectRoot := high.analysis.projectRoot <|> low.analysis.projectRoot
    maxFileBytes := high.analysis.maxFileBytes <|> low.analysis.maxFileBytes
    tolerateSyntaxErrors :=
      high.analysis.tolerateSyntaxErrors <|> low.analysis.tolerateSyntaxErrors
    moduleRoots := higherList low.analysis.moduleRoots high.analysis.moduleRoots }
  conventions := {
    moduleDecorators :=
      higherList low.conventions.moduleDecorators high.conventions.moduleDecorators
    controllerDecorators :=
      higherList low.conventions.controllerDecorators high.conventions.controllerDecorators
    injectableDecorators :=
      higherList low.conventions.injectableDecorators high.conventions.injectableDecorators
    injectDecorators :=
      higherList low.conventions.injectDecorators high.conventions.injectDecorators
    moduleFileMarkers :=
      higherList low.conventions.moduleFileMarkers high.conventions.moduleFileMarkers }

/-- Lays the file of the user over the settings. A file that cannot be read is passed over; one that
says nonsense is not. -/
def applyUserFile (decode? : String → Option Config) (config : Config) :
    Option SettingsFile → Except ConfigFault Config
  | some ⟨path, .content text⟩ =>
    match decode? text with
    | some layer => .ok (config.merge layer)
    | none => .error (.malformed path "invalid TOML in user config")
  | _ => .ok config

/-- Lays the file of the project over the settings. A file that is there must be readable. -/
def applyProjectFile (decode? : String → Option Config) (config : Config) (file : SettingsFile) :
    Except ConfigFault Config :=
  match file.state with
  | .missing => .ok config
  | .unreadable => .error (.notFound file.path)
  | .content text =>
    match decode? text with
    | some layer => .ok (config.merge layer)
    | none => .error (.malformed file.path "invalid TOML")

/-! ### Environment -/

/-- The largest number of bytes that can be counted. -/
def maxCount : Nat := UInt64.size - 1

/-- The number a text says: decimal digits, with a plus in front or not. -/
def count? (text : String) : Option Nat :=
  let digits := match text.toList with
    | '+' :: digits => digits
    | digits => digits
  if digits.isEmpty then none
  else ((digits.mapM Text.decimal?).map (Text.numberOf 10)).filter (· ≤ maxCount)

/-- The truth value a text says. -/
def truth? (text : String) : Option Bool :=
  if text = "true" then some true else if text = "false" then some false else none

/-- The entries of a text with commas between them, without blank ends; empty entries are left
out. -/
def entriesOf (text : String) : List String :=
  ((text.toList.splitOn ',').map Text.trimChars).filter (· ≠ []) |>.map String.ofList

/-- Lays the environment over the settings. A text that does not say a value is passed over. -/
def applyEnvironment (config : Config) (environment : Environment) : Config :=
  { config with
    analysis := {
      projectRoot := environment.projectRoot.filter (· ≠ "") <|> config.analysis.projectRoot
      maxFileBytes := environment.maxFileBytes.bind count? <|> config.analysis.maxFileBytes
      tolerateSyntaxErrors :=
        environment.tolerateSyntaxErrors.bind truth? <|> config.analysis.tolerateSyntaxErrors
      moduleRoots := higherList config.analysis.moduleRoots
        ((environment.moduleRoots.map entriesOf).getD []) } }

/-! ### All layers -/

/-- Lays what the caller asks for over the settings. -/
def applyOverrides (config : Config) (overrides : Overrides) : Config :=
  { config with
    analysis := {
      projectRoot := overrides.projectRoot <|> config.analysis.projectRoot
      maxFileBytes := overrides.maxFileBytes <|> config.analysis.maxFileBytes
      tolerateSyntaxErrors :=
        overrides.tolerateSyntaxErrors <|> config.analysis.tolerateSyntaxErrors
      moduleRoots := overrides.moduleRoots.getD config.analysis.moduleRoots } }

/-- The file of the user: the one in the home directory when there is a home directory, else the one
in the profile directory. -/
def userFile? (home profile : Option SettingsFile) : Option SettingsFile :=
  home <|> profile

/-- The settings of all layers, when they pass the check. -/
def load (decode? : String → Option Config) (user : Option SettingsFile) (project : SettingsFile)
    (environment : Environment) (overrides : Overrides) : Except ConfigFault Config := do
  let config ← applyUserFile decode? {} user
  let config ← applyProjectFile decode? config project
  ((config.applyEnvironment environment).applyOverrides overrides).checked

end Config

end CodeGraph
