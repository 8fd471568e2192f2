import CodeGraph.Config.Basic
import CodeGraph.Text.Part

/-!
# Architectural roles

A class plays a role in an application: it declares a module, handles requests, provides a service
to other classes. The role is read off its decorators, its name and its file, in this order.

## Main Definitions

* `Role`: the roles.
* `Role.classify`: the role of a class, by the first rule that answers.
* `Role.isModuleClass`: whether a class declares a module.
* `Role.inWiring`: the role of a class that a module lists.
-/

namespace CodeGraph

/-- The role of a node in an application's architecture. -/
inductive Role where
  | module
  | controller
  | service
  | provider
  | helper
  deriving DecidableEq, Repr

/-- What the role of a class is read off. -/
structure ClassFacts where
  /-- The name of the class. -/
  name : String
  /-- The names of its decorators, in source order. -/
  decorators : List String
  /-- The path of its file. -/
  path : String

namespace Role

/-- All roles. -/
def all : List Role := [module, controller, service, provider, helper]

/-- The name of a role. -/
def name : Role → String
  | module => "module"
  | controller => "controller"
  | service => "service"
  | provider => "provider"
  | helper => "helper"

/-- The role with a name. -/
def ofName? (text : String) : Option Role :=
  all.find? fun role => role.name = text

/-- Whether one of the decorators has one of the names. -/
def anyOf (names decorators : List String) : Bool :=
  decorators.any fun decorator => names.contains decorator

/-! ### Rules -/

/-- The role told by a decorator. An injectable class is a service when its name says so. -/
def ofDecorator? (conventions : Conventions) (facts : ClassFacts) : Option Role :=
  if anyOf conventions.moduleNames facts.decorators then some module
  else if anyOf conventions.controllerNames facts.decorators then some controller
  else if anyOf conventions.injectableNames facts.decorators then
    if Text.endsIn "Service" facts.name then some service else some provider
  else none

/-- Endings of class names and the roles they tell. -/
def nameEndings : List (String × Role) :=
  [("Module", module), ("Controller", controller), ("Service", service), ("Provider", provider)]

/-- The role told by the ending of the class name. -/
def ofClassName? (facts : ClassFacts) : Option Role :=
  (nameEndings.find? fun ending => Text.endsIn ending.1 facts.name).map Prod.snd

/-- What follows the last slash or backslash of a path. -/
def fileNameOf (path : String) : String :=
  String.ofList (path.toList.reverse.takeWhile fun c => c ≠ '/' ∧ c ≠ '\\').reverse

/-- Whether a file is named as a module file. -/
def isModuleFile (conventions : Conventions) (path : String) : Bool :=
  conventions.moduleMarkers.any fun marker => Text.holds marker (fileNameOf path)

/-- The role of a class: told by a decorator, else by its name, else by its file. -/
def classify (conventions : Conventions) (facts : ClassFacts) : Option Role :=
  ofDecorator? conventions facts <|> ofClassName? facts
    <|> if isModuleFile conventions facts.path then some module else none

/-- Whether a class declares a module: by a module decorator or by its file. -/
def isModuleClass (conventions : Conventions) (facts : ClassFacts) : Bool :=
  anyOf conventions.moduleNames facts.decorators || isModuleFile conventions facts.path

/-- The role of a class that a module lists, by its decorators. -/
def inWiring (conventions : Conventions) (decorators : List String) : Role :=
  if anyOf conventions.controllerNames decorators then controller
  else if anyOf conventions.injectableNames decorators then service
  else provider

end Role

end CodeGraph
