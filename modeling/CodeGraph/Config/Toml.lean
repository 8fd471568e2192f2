import CodeGraph.Config.Basic
import CodeGraph.Toml.Document

/-!
# Settings as text

## Main Definitions

* `Config.decode?`: the settings a text says, unchecked.
* `Config.ofToml`: the settings a text says, when they pass the check.
* `Config.toToml`: the text of settings.

## Design Notes

Unknown names are passed over. A group of settings is usually a table; an array gives the settings
of its group in their order.
-/

namespace CodeGraph

open Toml (Value)

/-! ### Reading -/

namespace AnalysisSettings

/-- Reads the settings of this group. -/
def ofValue? (value : Value) : Option AnalysisSettings := do
  let part ← value.parts?
  return {
    projectRoot := ← (part "project_root" 0).mapM Value.text?
    maxFileBytes := ← (part "max_file_bytes" 1).mapM Value.nat?
    tolerateSyntaxErrors := ← (part "tolerate_syntax_errors" 2).mapM Value.bool?
    moduleRoots := (← (part "module_roots" 3).mapM Value.texts?).getD [] }

end AnalysisSettings

namespace Conventions

/-- Reads the settings of this group. -/
def ofValue? (value : Value) : Option Conventions := do
  let part ← value.parts?
  let names (name : String) (place : Nat) : Option (List String) :=
    ((part name place).mapM Value.texts?).map (·.getD [])
  return {
    moduleDecorators := ← names "module_decorators" 0
    controllerDecorators := ← names "controller_decorators" 1
    injectableDecorators := ← names "injectable_decorators" 2
    injectDecorators := ← names "inject_decorators" 3
    moduleFileMarkers := ← names "module_file_markers" 4 }

end Conventions

namespace Config

/-- Reads all settings from the table of a text. -/
def ofValue? (value : Value) : Option Config := do
  let part ← value.parts?
  return {
    analysis := (← (part "analysis" 0).mapM AnalysisSettings.ofValue?).getD {}
    conventions := (← (part "conventions" 1).mapM Conventions.ofValue?).getD {} }

/-- The settings a text says, unchecked; nothing when the text is broken or a setting has a value of
the wrong kind. -/
def decode? (text : String) : Option Config :=
  (Toml.parse? text).bind ofValue?

/-- The settings a text says, when they pass the check. -/
def ofToml (text : String) : Except ConfigFault Config :=
  match decode? text with
  | some config => config.checked
  | none => .error (.malformed "<string>" "invalid TOML")

/-! ### Writing -/

/-- A line for one setting. -/
def line (name value : String) : String := name ++ " = " ++ value ++ "\n"

/-- A line for a setting that may be open. -/
def openLine (name : String) : Option String → String
  | some value => line name value
  | none => ""

/-- A list of names: on one line up to one name, on a line for each name above that. -/
def listText (names : List String) : String :=
  match names with
  | [] => "[]"
  | [name] => "[" ++ Toml.quoted name ++ "]"
  | _ =>
    "[\n" ++ String.join (names.map fun name => "    " ++ Toml.quoted name ++ ",\n") ++ "]"

/-- The text of settings. A number that is too large for a settings text is refused. -/
def toToml (config : Config) : Except ConfigFault String :=
  let analysis := config.analysis
  let conventions := config.conventions
  if analysis.maxFileBytes.any (Toml.maxInteger < ·) then
    .error (.malformed "<serialization>" "number out of range")
  else
    .ok <| "[analysis]\n"
      ++ openLine "project_root" (analysis.projectRoot.map Toml.quoted)
      ++ openLine "max_file_bytes" (analysis.maxFileBytes.map toString)
      ++ openLine "tolerate_syntax_errors"
        (analysis.tolerateSyntaxErrors.map fun value => if value then "true" else "false")
      ++ line "module_roots" (listText analysis.moduleRoots)
      ++ "\n[conventions]\n"
      ++ line "module_decorators" (listText conventions.moduleDecorators)
      ++ line "controller_decorators" (listText conventions.controllerDecorators)
      ++ line "injectable_decorators" (listText conventions.injectableDecorators)
      ++ line "inject_decorators" (listText conventions.injectDecorators)
      ++ line "module_file_markers" (listText conventions.moduleFileMarkers)

end Config

end CodeGraph
