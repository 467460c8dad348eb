import Records.Log.Line

/-!
Loggers. Named values given with a message become its data; a logger can be bound to values that
every message carries.
-/
namespace Records

inductive LoggerError
  | template (e : Template.TemplateError)
  /-- Extra values may not replace what every record holds. -/
  | reservedKey (key : String)
  | notAssignable (v : Value)
  | missingMethod (bound : Bool) (name : String)
deriving DecidableEq

def LoggerError.message : LoggerError → String
  | .template e => e.message
  | .reservedKey key => Text.quoted ("Attempt to overwrite " ++ Text.quoted key ++ " in LogRecord")
  | .notAssignable v => "'" ++ v.typeName ++ "' object does not support item assignment"
  | .missingMethod bound name =>
    "'" ++ (if bound then "BoundLogger" else "StructuredLogger") ++ "' object has no attribute '" ++
      name ++ "'"

/-- A message that passed the threshold. -/
structure Emitted where
  level : Level
  message : String
  data : List (String × Value)
deriving DecidableEq

structure Logger where
  threshold : Int := 10
  context : Option (List (String × Value)) := none

/-- What every record holds. -/
def reservedKeys : List String :=
  ["name", "msg", "args", "levelname", "levelno", "pathname", "filename", "module", "exc_info",
    "exc_text", "stack_info", "lineno", "funcName", "created", "msecs", "relativeCreated", "thread",
    "threadName", "processName", "process", "message", "asctime"]

/-- Named values that direct the logger and are no data. -/
def directingKeys : List String := ["exc_info", "stack_info", "extra"]

/-- The named values that are data. -/
def loggedData (named : List (String × Value)) : List (String × Value) :=
  named.filter fun e => !directingKeys.contains e.1

def checkExtra (named : List (String × Value)) : Except LoggerError Unit :=
  match (Value.lookup? "extra" named).getD .null with
  | .object es =>
    match es.find? fun e => reservedKeys.contains e.1 with
    | some e => .error (.reservedKey e.1)
    | none => .ok ()
  | v => if v.isTruthy then .error (.notAssignable v) else .ok ()

namespace Logger

/-- The logger with more bound values. -/
def bind (l : Logger) (values : List (String × Value)) : Logger :=
  { l with context := some (Value.merge (l.context.getD []) values) }

/-- The level of a method by its name; a bound logger has none for the highest. -/
def method? (l : Logger) (name : String) : Except LoggerError Level :=
  match name with
  | "debug" => .ok .debug
  | "info" => .ok .info
  | "warning" => .ok .warning
  | "error" => .ok .error
  | "critical" =>
    if l.context.isSome then .error (.missingMethod true name) else .ok .critical
  | name => .error (.missingMethod l.context.isSome name)

/-- The message of a call, none below the threshold. -/
def log (l : Logger) (level : Level) (template : Value) (args : List Value)
    (named : List (String × Value)) : Except LoggerError (Option Emitted) := do
  if level.number < l.threshold then return none
  let named := Value.merge (l.context.getD []) named
  checkExtra named
  let message ← (Template.message template args).mapError .template
  return some ⟨level, message, loggedData named⟩

end Logger

end Records
