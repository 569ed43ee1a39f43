namespace WordMachine

inductive LogLevel where
  | debug
  | info
  | warning
  | error
  deriving DecidableEq, Repr

namespace LogLevel

def label : LogLevel → String
  | .debug => "DEBUG"
  | .info => "INFO"
  | .warning => "WARNING"
  | .error => "ERROR"

def severity : LogLevel → Nat
  | .debug => 10
  | .info => 20
  | .warning => 30
  | .error => 40

end LogLevel

structure LogRecord where
  level : LogLevel
  source : String
  text : String
  deriving DecidableEq, Repr

namespace LogRecord

def line (r : LogRecord) : String :=
  s!"{r.level.label} {r.source}: {r.text}"

-- Whether a log that starts at a level shows the record.
def shownAt (threshold : LogLevel) (r : LogRecord) : Bool :=
  threshold.severity ≤ r.level.severity

end LogRecord

end WordMachine
