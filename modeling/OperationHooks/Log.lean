set_option autoImplicit false

namespace OperationHooks.Log

inductive Level where
  | debug
  | info
  | warning
  | error
  | critical
  deriving DecidableEq, Repr

def Level.text : Level → String
  | .debug => "DEBUG"
  | .info => "INFO"
  | .warning => "WARNING"
  | .error => "ERROR"
  | .critical => "CRITICAL"

def Level.all : List Level := [.debug, .info, .warning, .error, .critical]
def Level.ofString? (s : String) : Option Level := all.find? (·.text == s)

def Level.rank : Level → Nat
  | .debug => 0
  | .info => 1
  | .warning => 2
  | .error => 3
  | .critical => 4

structure Record where
  level : Level
  message : String
  deriving DecidableEq, Repr

def Record.line (r : Record) : String := s!"[gql-hookgen] {r.level.text} {r.message}"

/-- The lowest level that is shown. Asking for more wins over asking for less. -/
def threshold (verbose quiet : Bool) : Level :=
  if verbose then .debug else if quiet then .warning else .info

def isShown (threshold : Level) (r : Record) : Bool := threshold.rank ≤ r.level.rank

def lines (threshold : Level) (records : List Record) : List String :=
  (records.filter (isShown threshold)).map Record.line

def sourceName (name : Option String) : String :=
  match name.filter (· ≠ "") with
  | some name => s!"gql_hookgen.{name}"
  | none => "gql_hookgen"

end OperationHooks.Log
