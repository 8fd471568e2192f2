/-!
# Faults and reports

What can go wrong with a source file, with the settings and with a request, each with a stable code
and a message. No fault of a source file stops an analysis: it is collected in the report beside the
result.

## Main Definitions

* `SourceFault`, `ConfigFault`, `Fault`: the causes.
* `Fault.code`, `Fault.message`, `Fault.coded`: their code and text.
* `Report`: a result with the faults collected on the way.
-/

namespace CodeGraph

/-- What can go wrong with one source file. -/
inductive SourceFault where
  /-- The grammar of a language cannot be used. -/
  | grammarUnavailable (language reason : String)
  /-- There is no syntax tree for the file. -/
  | noTree (path : String)
  /-- The extension of the file belongs to no known language. -/
  | unsupportedLanguage (path extension : String)
  /-- The file is above the size limit. -/
  | tooLarge (path : String) (size limit : Nat)
  /-- The file has syntax errors, the first at this line and column, counted from one. -/
  | partialParse (path : String) (errors line column : Nat)
  deriving DecidableEq, Repr

/-- What can go wrong with the settings. -/
inductive ConfigFault where
  /-- A settings file cannot be read. -/
  | notFound (path : String)
  /-- A settings text does not say what it should. -/
  | malformed (path reason : String)
  /-- A setting has a value that is refused. -/
  | refused (setting reason : String)
  deriving DecidableEq, Repr

/-- What can go wrong in an analysis. -/
inductive Fault where
  | source (fault : SourceFault)
  | config (fault : ConfigFault)
  /-- A path was asked for that is not part of the input. -/
  | unknownPath (path : String)
  deriving DecidableEq, Repr

/-! ### Codes and messages -/

/-- A code in brackets before a message. -/
def codedText (code message : String) : String :=
  "[" ++ code ++ "] " ++ message

namespace SourceFault

/-- The stable code of a fault. -/
def code : SourceFault → String
  | unsupportedLanguage .. => "UNSUPPORTED_LANGUAGE"
  | tooLarge .. => "FILE_TOO_LARGE"
  | _ => "PARSE_ERROR"

/-- The message of a fault. -/
def message : SourceFault → String
  | grammarUnavailable language reason =>
    "Grammar could not be loaded for " ++ language ++ ": " ++ reason
  | noTree path => "Tree-sitter produced no tree for " ++ path
  | unsupportedLanguage path extension =>
    "Unsupported language for " ++ path ++ ": " ++ extension
  | tooLarge path size limit =>
    "File " ++ path ++ " is " ++ toString size ++ " bytes, above the " ++ toString limit
      ++ " byte limit"
  | partialParse path errors line column =>
    "Partial parse of " ++ path ++ ": " ++ toString errors ++ " syntax error(s), first at "
      ++ toString line ++ ":" ++ toString column

/-- The file a fault is about. -/
def path? : SourceFault → Option String
  | grammarUnavailable .. => none
  | noTree path | unsupportedLanguage path _ | tooLarge path .. | partialParse path .. => some path

/-- The code and the message. -/
def coded (fault : SourceFault) : String := codedText fault.code fault.message

end SourceFault

namespace ConfigFault

/-- The stable code of a fault. -/
def code (_ : ConfigFault) : String := "CONFIG_ERROR"

/-- The message of a fault. -/
def message : ConfigFault → String
  | notFound path => "Config file not found: " ++ path
  | malformed path reason => "Config parse error in " ++ path ++ ": " ++ reason
  | refused setting reason => "Config validation failed for " ++ setting ++ ": " ++ reason

/-- The code and the message. -/
def coded (fault : ConfigFault) : String := codedText fault.code fault.message

end ConfigFault

namespace Fault

/-- The stable code of a fault. -/
def code : Fault → String
  | source fault => fault.code
  | config fault => fault.code
  | unknownPath _ => "UNKNOWN_SCOPE_PATH"

/-- The message of a fault. -/
def message : Fault → String
  | source fault => "Parse error: " ++ fault.message
  | config fault => "Configuration error: " ++ fault.message
  | unknownPath path =>
    "Path " ++ path ++ " was requested for analysis but is not part of the input"

/-- The code and the message. -/
def coded (fault : Fault) : String := codedText fault.code fault.message

end Fault

/-! ### Reports -/

/-- A result with the faults that did not stop it. -/
structure Report (α : Type) where
  /-- The result. -/
  data : α
  /-- The faults, in the order in which they were found. -/
  faults : List Fault := []

namespace Report

variable {α : Type}

/-- The report with one more fault. -/
def addFault (report : Report α) (fault : Fault) : Report α :=
  { report with faults := report.faults ++ [fault] }

/-- Whether there is no fault. -/
def isClean (report : Report α) : Bool := report.faults.isEmpty

/-- The number of faults. -/
def faultCount (report : Report α) : Nat := report.faults.length

end Report

end CodeGraph
