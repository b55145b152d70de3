import AspectWeaving.Token

/-!
Diagnostics: what an operation has to say besides its result. A `Diagnostics` collects them in order
and leaves out mere information if it is to be quiet; all that it takes in, and traces that are not
collected, goes to its log as well. `Diagnostics.summary` counts them and lists errors and warnings.
-/
namespace AspectWeaving

/-- How much a diagnostic matters. -/
inductive Severity where
  | info
  | warning
  | error
  deriving DecidableEq

/-- The severity as text. -/
def Severity.text : Severity → String
  | .info => "INFO"
  | .warning => "WARN"
  | .error => "ERROR"

/-- What a diagnostic is about. -/
inductive Category where
  | discovery
  | resolution
  | transform
  | validation
  | general
  deriving DecidableEq

namespace Category

/-- The category as text. -/
def text : Category → String
  | .discovery => "Discovery"
  | .resolution => "Resolution"
  | .transform => "Transform"
  | .validation => "Validation"
  | .general => "General"

/-- Every category, in order. -/
def all : List Category := [.discovery, .resolution, .transform, .validation, .general]

end Category

/-- A diagnostic, on a type or method if it has a token. -/
structure Diagnostic where
  severity : Severity
  category : Category
  message : String
  token : Option Token := none
  deriving DecidableEq

/-- A diagnostic as text. -/
def Diagnostic.text (d : Diagnostic) : String :=
  s!"[{d.severity.text}] {d.category.text}: {d.message}" ++
    match d.token with
    | some token => s!" (token: {token.text})"
    | none => ""

/-- How much a record of a log matters. -/
inductive LogLevel where
  | error
  | warn
  | info
  | debug
  | trace
  deriving DecidableEq

/-- The level as text. -/
def LogLevel.text : LogLevel → String
  | .error => "ERROR"
  | .warn => "WARN"
  | .info => "INFO"
  | .debug => "DEBUG"
  | .trace => "TRACE"

/-- The level at which a diagnostic is logged. -/
def Severity.logLevel : Severity → LogLevel
  | .info => .debug
  | .warning => .warn
  | .error => .error

/-- A record of a log. -/
structure LogRecord where
  level : LogLevel
  text : String
  deriving DecidableEq

/-- The diagnostics taken in so far, and the log. -/
structure Diagnostics where
  recordsInfo : Bool := true
  entries : Array Diagnostic := #[]
  log : Array LogRecord := #[]
  deriving DecidableEq, Inhabited

namespace Diagnostics

/-- Takes in a diagnostic; information only if it is wanted. -/
def push (ds : Diagnostics) (d : Diagnostic) : Diagnostics :=
  if d.severity = .info ∧ !ds.recordsInfo then ds
  else { ds with entries := ds.entries.push d, log := ds.log.push ⟨d.severity.logLevel, d.text⟩ }

/-- Logs a trace, which is no diagnostic. -/
def trace (ds : Diagnostics) (text : String) : Diagnostics := { ds with log := ds.log.push ⟨.trace, text⟩ }

/-- Takes in information. -/
def info (ds : Diagnostics) (category : Category) (message : String) : Diagnostics :=
  ds.push { severity := .info, category, message }

/-- Takes in a warning. -/
def warning (ds : Diagnostics) (category : Category) (message : String) : Diagnostics :=
  ds.push { severity := .warning, category, message }

/-- Takes in an error. -/
def error (ds : Diagnostics) (category : Category) (message : String) : Diagnostics :=
  ds.push { severity := .error, category, message }

/-- The diagnostics of a severity, in order. -/
def ofSeverity (ds : Diagnostics) (severity : Severity) : List Diagnostic :=
  ds.entries.toList.filter (·.severity = severity)

/-- The diagnostics of a category, in order. -/
def ofCategory (ds : Diagnostics) (category : Category) : List Diagnostic :=
  ds.entries.toList.filter (·.category = category)

/-- The diagnostics on a token, in order. -/
def onToken (ds : Diagnostics) (token : Token) : List Diagnostic :=
  ds.entries.toList.filter (·.token = some token)

/-- The number of diagnostics of a severity. -/
def count (ds : Diagnostics) (severity : Severity) : Nat := (ds.ofSeverity severity).length

/-- The lines of a list of diagnostics under a title, if there are any. -/
def titled (title : String) (listed : List Diagnostic) : String :=
  if listed.isEmpty then ""
  else "\n" ++ title ++ ":\n" ++ String.join (listed.map fun d => "  " ++ d.text ++ "\n")

/-- The numbers of diagnostics, then the errors and the warnings. -/
def summary (ds : Diagnostics) : String :=
  s!"Diagnostics: {ds.count .error} error(s), {ds.count .warning} warning(s), {ds.count .info} info(s)\n" ++
    titled "Errors" (ds.ofSeverity .error) ++ titled "Warnings" (ds.ofSeverity .warning)

end Diagnostics

end AspectWeaving
