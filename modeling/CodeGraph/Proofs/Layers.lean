import CodeGraph.Config.Layer
import Mathlib.Data.Option.Basic

/-!
# Layers of settings, setting by setting

Each setting is decided on its own: by the highest layer that sets it, or by the default when none
does. What it means to set a setting differs from layer to layer. A caller sets the list of module
roots with the empty list too, a file does not, and the environment sets a setting with a text that
says a value.

A layer is therefore taken as a partial function of settings, and every way to lay something over
settings is shown to be one operation, `Setting.overlay`. Laws of layers are then laws of this
operation.

## Main Definitions

* `Setting`, `Setting.Value`: the settings, and what each can be set to.
* `Layer`: what a layer sets. `Config.layer`, `Environment.layer`, `Overrides.layer` are the layers
  of a settings file, the environment and the caller.
* `Config.field`: what settings hold for a setting.
* `Config.Settles`: settings hold for each setting what the highest layer says.

## Main Statements

* `Config.field_merge`, `Config.field_applyEnvironment`, `Config.field_applyOverrides`: what
  settings hold after something was laid over them.
* `Config.load_eq_ok_iff`: when settings can be loaded, and which.
* `Config.layers_settled`: merging is associative with the default as identity, and loading settles
  all layers.
-/

namespace CodeGraph

/-! ### Settings -/

/-- A setting. -/
inductive Setting where
  | projectRoot
  | maxFileBytes
  | tolerateSyntaxErrors
  | moduleRoots
  | moduleDecorators
  | controllerDecorators
  | injectableDecorators
  | injectDecorators
  | moduleFileMarkers
  deriving DecidableEq, Repr

namespace Setting

/-- What a setting can be set to. -/
def Value : Setting → Type
  | projectRoot => String
  | maxFileBytes => Nat
  | tolerateSyntaxErrors => Bool
  | moduleRoots | moduleDecorators | controllerDecorators | injectableDecorators
  | injectDecorators | moduleFileMarkers => List String

/-- What settings hold for a setting: a value that may be open, or a list. -/
def Field : Setting → Type
  | projectRoot => Option String
  | maxFileBytes => Option Nat
  | tolerateSyntaxErrors => Option Bool
  | moduleRoots | moduleDecorators | controllerDecorators | injectableDecorators
  | injectDecorators | moduleFileMarkers => List String

/-- What settings hold for a setting that is set to a value. -/
def ofValue : (setting : Setting) → setting.Value → setting.Field
  | projectRoot => some
  | maxFileBytes => some
  | tolerateSyntaxErrors => some
  | moduleRoots | moduleDecorators | controllerDecorators | injectableDecorators
  | injectDecorators | moduleFileMarkers => id

/-- What settings hold after a layer over them said something, or nothing, on a setting. -/
def overlay (setting : Setting) (high : Option setting.Value) (low : setting.Field) :
    setting.Field :=
  high.elim low setting.ofValue

end Setting

/-- What a layer sets, setting by setting. -/
abbrev Layer := (setting : Setting) → Option setting.Value

/-! ### Layers -/

/-- A list that sets something: one that is not empty. -/
def Config.unlessEmpty (names : List String) : Option (List String) :=
  if names.isEmpty then none else some names

open Config (unlessEmpty)

/-- What settings hold for a setting. -/
def Config.field (config : Config) : (setting : Setting) → setting.Field
  | .projectRoot => config.analysis.projectRoot
  | .maxFileBytes => config.analysis.maxFileBytes
  | .tolerateSyntaxErrors => config.analysis.tolerateSyntaxErrors
  | .moduleRoots => config.analysis.moduleRoots
  | .moduleDecorators => config.conventions.moduleDecorators
  | .controllerDecorators => config.conventions.controllerDecorators
  | .injectableDecorators => config.conventions.injectableDecorators
  | .injectDecorators => config.conventions.injectDecorators
  | .moduleFileMarkers => config.conventions.moduleFileMarkers

/-- What the settings of a file set: those that are not open, and the lists that are not empty. -/
def Config.layer (config : Config) : Layer
  | .projectRoot => config.analysis.projectRoot
  | .maxFileBytes => config.analysis.maxFileBytes
  | .tolerateSyntaxErrors => config.analysis.tolerateSyntaxErrors
  | .moduleRoots => unlessEmpty config.analysis.moduleRoots
  | .moduleDecorators => unlessEmpty config.conventions.moduleDecorators
  | .controllerDecorators => unlessEmpty config.conventions.controllerDecorators
  | .injectableDecorators => unlessEmpty config.conventions.injectableDecorators
  | .injectDecorators => unlessEmpty config.conventions.injectDecorators
  | .moduleFileMarkers => unlessEmpty config.conventions.moduleFileMarkers

/-- What the environment sets: a directory with a name, a number, a truth value, a list with
entries. -/
def Environment.layer (environment : Environment) : Layer
  | .projectRoot => (environment.projectRoot.filter (· ≠ "") : Option String)
  | .maxFileBytes => environment.maxFileBytes.bind Config.count?
  | .tolerateSyntaxErrors => environment.tolerateSyntaxErrors.bind Config.truth?
  | .moduleRoots => environment.moduleRoots.bind fun text => unlessEmpty (Config.entriesOf text)
  | .moduleDecorators | .controllerDecorators | .injectableDecorators | .injectDecorators
  | .moduleFileMarkers => none

/-- What a caller sets: all that was asked for, the empty list of module roots too. -/
def Overrides.layer (overrides : Overrides) : Layer
  | .projectRoot => overrides.projectRoot
  | .maxFileBytes => overrides.maxFileBytes
  | .tolerateSyntaxErrors => overrides.tolerateSyntaxErrors
  | .moduleRoots => overrides.moduleRoots
  | .moduleDecorators | .controllerDecorators | .injectableDecorators | .injectDecorators
  | .moduleFileMarkers => none

/-! ### Laws of layers -/

namespace Setting

variable {setting : Setting}

/-- Two layers over settings are the higher one over the lower one over them. -/
theorem overlay_orElse (high middle : Option setting.Value) (low : setting.Field) :
    setting.overlay (high <|> middle) low = setting.overlay high (setting.overlay middle low) := by
  cases high <;> rfl

/-- A pile of layers over settings. -/
theorem overlay_findSome? (layer : Layer) (layers : List Layer) (low : setting.Field) :
    setting.overlay ((layer :: layers).findSome? fun layer => layer setting) low =
      setting.overlay (layer setting)
        (setting.overlay (layers.findSome? fun layer => layer setting) low) := by
  rw [List.findSome?_cons, ← overlay_orElse]
  cases layer setting <;> rfl

end Setting

namespace Config

theorem orElse_eq_elim {α : Type} (high low : Option α) : (high <|> low) = high.elim low some := by
  cases high <;> rfl

theorem higherList_eq_elim (low high : List String) :
    higherList low high = (unlessEmpty high).elim low id := by
  rw [higherList, unlessEmpty]
  split <;> rfl

/-- Settings are what they hold for each setting. -/
theorem eq_of_field_eq {a b : Config} (same : ∀ setting, a.field setting = b.field setting) :
    a = b := by
  have projectRoot := same .projectRoot
  have maxFileBytes := same .maxFileBytes
  have tolerateSyntaxErrors := same .tolerateSyntaxErrors
  have moduleRoots := same .moduleRoots
  have moduleDecorators := same .moduleDecorators
  have controllerDecorators := same .controllerDecorators
  have injectableDecorators := same .injectableDecorators
  have injectDecorators := same .injectDecorators
  have moduleFileMarkers := same .moduleFileMarkers
  obtain ⟨⟨_, _, _, _⟩, ⟨_, _, _, _, _⟩⟩ := a
  obtain ⟨⟨_, _, _, _⟩, ⟨_, _, _, _, _⟩⟩ := b
  simp only [field] at *
  subst_vars
  rfl

/-- Settings are what they set, over the default. -/
theorem field_eq_overlay (config : Config) (setting : Setting) :
    config.field setting = setting.overlay (config.layer setting) (field {} setting) := by
  have list : ∀ names, (unlessEmpty names).elim [] id = names := by
    intro names
    cases names <;> rfl
  have option : ∀ {α : Type} (value : Option α), value.elim none some = value := by
    intro α value
    cases value <;> rfl
  cases setting with
  | projectRoot | maxFileBytes | tolerateSyntaxErrors => exact (option _).symm
  | moduleRoots | moduleDecorators | controllerDecorators | injectableDecorators
  | injectDecorators | moduleFileMarkers => exact (list _).symm

/-- Settings with a file over them. -/
theorem field_merge (low high : Config) (setting : Setting) :
    (low.merge high).field setting = setting.overlay (high.layer setting) (low.field setting) := by
  cases setting with
  | projectRoot | maxFileBytes | tolerateSyntaxErrors => exact orElse_eq_elim _ _
  | moduleRoots | moduleDecorators | controllerDecorators | injectableDecorators
  | injectDecorators | moduleFileMarkers => exact higherList_eq_elim _ _

/-- Settings with the environment over them. -/
theorem field_applyEnvironment (config : Config) (environment : Environment) (setting : Setting) :
    (config.applyEnvironment environment).field setting =
      setting.overlay (environment.layer setting) (config.field setting) := by
  cases setting with
  | projectRoot | maxFileBytes | tolerateSyntaxErrors => exact orElse_eq_elim _ _
  | moduleRoots =>
    refine (higherList_eq_elim _ _).trans ?_
    show _ = (environment.moduleRoots.bind fun text => unlessEmpty (entriesOf text)).elim _ id
    cases environment.moduleRoots <;> rfl
  | moduleDecorators | controllerDecorators | injectableDecorators | injectDecorators
  | moduleFileMarkers => rfl

/-- Settings with what a caller asks for over them. -/
theorem field_applyOverrides (config : Config) (overrides : Overrides) (setting : Setting) :
    (config.applyOverrides overrides).field setting =
      setting.overlay (overrides.layer setting) (config.field setting) := by
  cases setting with
  | projectRoot | maxFileBytes | tolerateSyntaxErrors => exact orElse_eq_elim _ _
  | moduleRoots =>
    show overrides.moduleRoots.getD _ = overrides.moduleRoots.elim _ id
    cases overrides.moduleRoots <;> rfl
  | moduleDecorators | controllerDecorators | injectableDecorators | injectDecorators
  | moduleFileMarkers => rfl

/-- What merged settings set. -/
theorem layer_merge (low high : Config) (setting : Setting) :
    (low.merge high).layer setting = (high.layer setting <|> low.layer setting) := by
  have list : ∀ low high, unlessEmpty (higherList low high) =
      (unlessEmpty high <|> unlessEmpty low) := by
    intro low high
    cases high <;> rfl
  cases setting with
  | projectRoot | maxFileBytes | tolerateSyntaxErrors => rfl
  | moduleRoots | moduleDecorators | controllerDecorators | injectableDecorators
  | injectDecorators | moduleFileMarkers => exact list _ _

theorem merge_assoc (a b c : Config) : (a.merge b).merge c = a.merge (b.merge c) := by
  apply eq_of_field_eq
  intro setting
  rw [field_merge, field_merge, field_merge, layer_merge, Setting.overlay_orElse]

theorem default_merge (config : Config) : merge {} config = config := by
  apply eq_of_field_eq
  intro setting
  rw [field_merge, ← field_eq_overlay]

theorem merge_default (config : Config) : config.merge {} = config := by
  apply eq_of_field_eq
  intro setting
  rw [field_merge]
  cases setting <;> rfl

/-! ### Loading -/

/-- What the file of the user says: nothing when there is no file that can be read. There is no
answer when it says nonsense. -/
def userSettings? (decode? : String → Option Config) : Option SettingsFile → Option Config
  | some ⟨_, .content text⟩ => decode? text
  | _ => some {}

/-- What the file of the project says: nothing when there is no file. There is no answer when it
cannot be read or says nonsense. -/
def projectSettings? (decode? : String → Option Config) (file : SettingsFile) : Option Config :=
  match file.state with
  | .missing => some {}
  | .unreadable => none
  | .content text => decode? text

variable {decode? : String → Option Config}

/-- A file of the user that is passed over is a file that says nothing. -/
theorem applyUserFile_eq_ok_iff {config next : Config} {user : Option SettingsFile} :
    config.applyUserFile decode? user = .ok next ↔
      ∃ stated, userSettings? decode? user = some stated ∧ config.merge stated = next := by
  have nothing : ∀ {user}, config.applyUserFile decode? user = .ok config →
      userSettings? decode? user = some {} →
      (config.applyUserFile decode? user = .ok next ↔
        ∃ stated, userSettings? decode? user = some stated ∧ config.merge stated = next) := by
    intro user applied stated
    rw [applied, stated]
    simp [merge_default]
  match user with
  | none => exact nothing rfl rfl
  | some ⟨_, .missing⟩ => exact nothing rfl rfl
  | some ⟨_, .unreadable⟩ => exact nothing rfl rfl
  | some ⟨path, .content text⟩ =>
    rw [applyUserFile, userSettings?]
    cases decode? text <;> simp

/-- A file of the project that is missing is a file that says nothing. -/
theorem applyProjectFile_eq_ok_iff {config next : Config} {project : SettingsFile} :
    config.applyProjectFile decode? project = .ok next ↔
      ∃ stated, projectSettings? decode? project = some stated ∧ config.merge stated = next := by
  rw [applyProjectFile, projectSettings?]
  cases project.state with
  | missing => simp [merge_default]
  | unreadable => simp
  | content text => cases decoded : decode? text <;> simp [decoded]

theorem checked_eq_ok_iff {config result : Config} :
    config.checked = .ok result ↔ config = result ∧ result.check = .ok () := by
  rw [checked]
  cases verdict : config.check with
  | error fault =>
    refine ⟨fun passed => ?_, ?_⟩
    · cases passed
    · rintro ⟨rfl, passed⟩
      rw [verdict] at passed
      cases passed
  | ok =>
    refine ⟨fun passed => ?_, ?_⟩
    · cases passed
      exact ⟨rfl, verdict⟩
    · rintro ⟨rfl, -⟩
      rfl

/-- Settings hold for each setting what the highest layer says that sets it, or the default. -/
def Settles (config : Config) (layers : List Layer) : Prop :=
  ∀ setting, config.field setting =
    setting.overlay (layers.findSome? fun layer => layer setting) (field {} setting)

/-- The four layers one over the other. -/
theorem settles_iff {user project config : Config} {environment : Environment}
    {overrides : Overrides} :
    config.Settles [overrides.layer, environment.layer, project.layer, user.layer] ↔
      (((merge {} user).merge project).applyEnvironment environment).applyOverrides overrides =
        config := by
  have piled : ((((merge {} user).merge project).applyEnvironment environment).applyOverrides
      overrides).Settles [overrides.layer, environment.layer, project.layer, user.layer] := by
    intro setting
    rw [field_applyOverrides, field_applyEnvironment, field_merge, field_merge,
      Setting.overlay_findSome?, Setting.overlay_findSome?, Setting.overlay_findSome?,
      Setting.overlay_findSome?]
    rfl
  constructor
  · intro settles
    apply eq_of_field_eq
    intro setting
    rw [piled setting, settles setting]
  · rintro rfl
    exact piled

/-- Settings can be loaded when both files can be read and all layers together pass the check. They
are then what the layers settle. -/
theorem load_eq_ok_iff {user : Option SettingsFile} {project : SettingsFile}
    {environment : Environment} {overrides : Overrides} {config : Config} :
    load decode? user project environment overrides = .ok config ↔
      ∃ userSays projectSays, userSettings? decode? user = some userSays ∧
        projectSettings? decode? project = some projectSays ∧
        config.Settles [overrides.layer, environment.layer, projectSays.layer, userSays.layer] ∧
        config.check = .ok () := by
  have bind : ∀ {first : Except ConfigFault Config} {next : Config → Except ConfigFault Config},
      (first >>= next) = .ok config ↔ ∃ done, first = .ok done ∧ next done = .ok config := by
    intro first next
    cases first with
    | error fault => simp [Bind.bind, Except.bind]
    | ok done => simp [Bind.bind, Except.bind]
  unfold load
  simp only [bind, applyUserFile_eq_ok_iff, applyProjectFile_eq_ok_iff, checked_eq_ok_iff,
    settles_iff]
  constructor
  · rintro ⟨_, ⟨userSays, readUser, rfl⟩, _, ⟨projectSays, readProject, rfl⟩, settled, passed⟩
    exact ⟨userSays, projectSays, readUser, readProject, settled, passed⟩
  · rintro ⟨userSays, projectSays, readUser, readProject, settled, passed⟩
    exact ⟨_, ⟨userSays, readUser, rfl⟩, _, ⟨projectSays, readProject, rfl⟩, settled, passed⟩

/-- Merging is associative, and the default is its identity. Whatever the texts of files are taken
to say, loading succeeds when the files can be read and what the layers settle passes the check, and
it gives what they settle: each setting is what the highest layer says that sets it, or the default,
whatever the layers say on other settings. -/
theorem layers_settled :
    (∀ a b c : Config, (a.merge b).merge c = a.merge (b.merge c)) ∧
    (∀ config : Config, merge {} config = config ∧ config.merge {} = config) ∧
    ∀ (decode? : String → Option Config) (user : Option SettingsFile) (project : SettingsFile)
      (environment : Environment) (overrides : Overrides) (config : Config),
      load decode? user project environment overrides = .ok config ↔
        ∃ userSays projectSays, userSettings? decode? user = some userSays ∧
          projectSettings? decode? project = some projectSays ∧
          config.Settles [overrides.layer, environment.layer, projectSays.layer, userSays.layer] ∧
          config.check = .ok () := by
  refine ⟨merge_assoc, fun config => ⟨default_merge config, merge_default config⟩, ?_⟩
  intro decode? user project environment overrides config
  exact load_eq_ok_iff

end Config

end CodeGraph
