import Records.Value.Written

/-!
What an action reports besides its result: log entries in order, each with a message and named
data. Values from outside are cut before they are logged.
-/
namespace Records

inductive Level
  | debug
  | info
  | warning
  | error
  | critical
deriving DecidableEq

/-- The part of the library that reports. -/
inductive Reporter
  | filters
  | listing
  | repository
  | service
  | problems
deriving DecidableEq

structure LogEntry where
  level : Level
  reporter : Reporter
  message : String
  data : List (String × Value)
deriving DecidableEq

/-- The longest text of a value from outside in a log entry. -/
def maxLoggedLength : Nat := 200

/-- The text of a value for a log entry: text as it is, anything else in its literal form. -/
def Value.logText : Value → String
  | .text s => s
  | v => v.literal

/-- A text cut to `limit` characters, with an ellipsis when it was longer. A negative limit counts
from the end. -/
def truncatedText (limit : Int) (s : String) : String :=
  if (s.length : Int) ≤ limit then s
  else
    let count := if limit < 0 then (s.length + limit).toNat else limit.toNat
    String.ofList (s.toList.take count) ++ "..."

def Value.truncated (v : Value) : Value := .text (truncatedText maxLoggedLength v.logText)

/-- A result or an error, with the log entries made on the way. -/
structure Reported (ε α : Type) where
  log : List LogEntry
  outcome : Except ε α

namespace Reported

variable {ε α β : Type}

def pure (a : α) : Reported ε α := ⟨[], .ok a⟩

def bind (x : Reported ε α) (f : α → Reported ε β) : Reported ε β :=
  match x.outcome with
  | .ok a => ⟨x.log ++ (f a).log, (f a).outcome⟩
  | .error e => ⟨x.log, .error e⟩

instance : Monad (Reported ε) where
  pure := pure
  bind := bind

def fail (e : ε) : Reported ε α := ⟨[], .error e⟩

def ofExcept (x : Except ε α) : Reported ε α := ⟨[], x⟩

def entry (e : LogEntry) : Reported ε Unit := ⟨[e], .ok ()⟩

def mapError {ε' : Type} (f : ε → ε') (x : Reported ε α) : Reported ε' α :=
  ⟨x.log, x.outcome.mapError f⟩

@[simp] theorem outcome_pure (a : α) : (Pure.pure a : Reported ε α).outcome = .ok a := rfl

@[simp] theorem log_pure (a : α) : (Pure.pure a : Reported ε α).log = [] := rfl

@[simp] theorem outcome_bind (x : Reported ε α) (f : α → Reported ε β) :
    (x >>= f).outcome = x.outcome.bind fun a => (f a).outcome := by
  change (x.bind f).outcome = _
  unfold bind
  cases x.outcome <;> rfl

@[simp] theorem outcome_entry (e : LogEntry) : (entry e : Reported ε Unit).outcome = .ok () := rfl

end Reported

end Records
