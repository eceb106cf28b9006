/-! The log of a run. -/

namespace RouteCatalog

inductive LogLevel where
  | debug
  | info
  | error
  deriving DecidableEq, Repr

inductive LogSource where
  | graph
  | document
  deriving DecidableEq, Repr

structure LogEntry where
  level : LogLevel
  source : LogSource
  message : String
  deriving DecidableEq, Repr

namespace LogLevel

def name : LogLevel → String
  | debug => "DEBUG"
  | info => "INFO"
  | error => "ERROR"

end LogLevel

namespace LogSource

def name : LogSource → String
  | graph => "routedoc.project.graph"
  | document => "routedoc.generator.document"

end LogSource

namespace LogEntry

def line (e : LogEntry) : String := e.level.name ++ " " ++ e.source.name ++ ": " ++ e.message ++ "\n"

/-- Debugging entries are only shown on request. -/
def isShown (verbose : Bool) (e : LogEntry) : Bool := verbose || e.level != .debug

end LogEntry

end RouteCatalog
