import CodeGraph.Fault
import CodeGraph.Text.Blank

/-!
# Settings

Settings come in two groups: how sources are read, and by which names a framework marks the roles of
classes. Every setting can be left open, and an open setting falls back to a default.

## Main Definitions

* `AnalysisSettings`, `Conventions`, `Config`: the settings.
* `AnalysisSettings.byteLimit`, `Conventions.moduleNames`, ...: the settings with defaults filled
  in.
* `Config.check`: refuses settings that make no sense.
-/

namespace CodeGraph

/-- Settings on how sources are read. -/
structure AnalysisSettings where
  /-- The directory that file keys are relative to; the common directory of the files when open. -/
  projectRoot : Option String := none
  /-- Files above this size are left out. -/
  maxFileBytes : Option Nat := none
  /-- Whether files with syntax errors are kept. -/
  tolerateSyntaxErrors : Option Bool := none
  /-- Directories that bare import specifiers are looked up in. -/
  moduleRoots : List String := []
  deriving DecidableEq, Repr

/-- Names by which a framework marks the roles of classes. An empty list is an open setting. -/
structure Conventions where
  /-- Decorators of module classes. -/
  moduleDecorators : List String := []
  /-- Decorators of controller classes. -/
  controllerDecorators : List String := []
  /-- Decorators of injectable classes. -/
  injectableDecorators : List String := []
  /-- Decorators of parameters that carry an injection token. -/
  injectDecorators : List String := []
  /-- Parts of file names that mark a module file. -/
  moduleFileMarkers : List String := []
  deriving DecidableEq, Repr

/-- All settings. -/
structure Config where
  /-- How sources are read. -/
  analysis : AnalysisSettings := {}
  /-- By which names roles are marked. -/
  conventions : Conventions := {}
  deriving DecidableEq, Repr

/-! ### Defaults -/

namespace AnalysisSettings

/-- The size limit of a file when none is set: two mebibytes. -/
def defaultByteLimit : Nat := 2 * 1024 * 1024

/-- The size limit of a file. -/
def byteLimit (settings : AnalysisSettings) : Nat :=
  settings.maxFileBytes.getD defaultByteLimit

/-- Whether files with syntax errors are kept; they are not unless a setting says so. -/
def keepsBroken (settings : AnalysisSettings) : Bool :=
  settings.tolerateSyntaxErrors.getD false

end AnalysisSettings

namespace Conventions

/-- A list of names, or the default when it is empty. -/
def orDefault (names fallback : List String) : List String :=
  if names.isEmpty then fallback else names

/-- Decorators of module classes. -/
def moduleNames (conventions : Conventions) : List String :=
  orDefault conventions.moduleDecorators ["Module"]

/-- Decorators of controller classes. -/
def controllerNames (conventions : Conventions) : List String :=
  orDefault conventions.controllerDecorators ["Controller"]

/-- Decorators of injectable classes. -/
def injectableNames (conventions : Conventions) : List String :=
  orDefault conventions.injectableDecorators ["Injectable"]

/-- Decorators of parameters that carry an injection token. -/
def injectNames (conventions : Conventions) : List String :=
  orDefault conventions.injectDecorators ["Inject"]

/-- Parts of file names that mark a module file. -/
def moduleMarkers (conventions : Conventions) : List String :=
  orDefault conventions.moduleFileMarkers [".module."]

/-- The lists of names with the names of their settings, in the order in which they are checked. -/
def lists (conventions : Conventions) : List (String × List String) :=
  [("conventions.module_decorators", conventions.moduleDecorators),
   ("conventions.controller_decorators", conventions.controllerDecorators),
   ("conventions.injectable_decorators", conventions.injectableDecorators),
   ("conventions.inject_decorators", conventions.injectDecorators),
   ("conventions.module_file_markers", conventions.moduleFileMarkers)]

end Conventions

/-! ### Refused settings -/

namespace Config

/-- Refuses a size limit of zero, and a list of names with a blank entry. The first setting that
fails is the one reported. -/
def check (config : Config) : Except ConfigFault Unit :=
  if config.analysis.maxFileBytes = some 0 then
    .error (.refused "analysis.max_file_bytes" "must be greater than 0")
  else
    match config.conventions.lists.find? fun entry => entry.2.any Text.isBlankText with
    | some (setting, _) => .error (.refused setting "entries must not be blank")
    | none => .ok ()

/-- The settings themselves when they pass the check. -/
def checked (config : Config) : Except ConfigFault Config :=
  config.check.map fun _ => config

end Config

end CodeGraph
