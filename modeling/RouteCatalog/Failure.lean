import RouteCatalog.Document.Checked
import RouteCatalog.Fault
import RouteCatalog.Graph.Validation

/-! Why a run or a part of it has no result. -/

namespace RouteCatalog

inductive ReadCause where
  | inaccessible
  | notYaml
  | notJson
  deriving DecidableEq, Repr

inductive GraphError where
  | malformed (source : String) (m : Malformation)
  | unreadable (path : String) (cause : ReadCause)
  | closed
  deriving DecidableEq, Repr

inductive ConfigError where
  | unreadable (path : String) (cause : ReadCause)
  | notMapping (path : String)
  | invalid (path : String) (findings : List Finding)
  deriving DecidableEq, Repr

inductive OutputError where
  | isDirectory
  | notDirectory
  | parentIsFile
  deriving DecidableEq, Repr

inductive Failure where
  | fault (f : Fault)
  | invalid (findings : List Finding)
  | graph (e : GraphError)
  | config (e : ConfigError)
  | sourceMissing (service file : String)
  | aliasMissing (service aliasName : String)
  | output (e : OutputError)
  deriving DecidableEq, Repr

/-- The text that stands for the cause of an error that comes from reading. -/
def causeText : String := "<cause>"

namespace GraphError

def message : GraphError → String
  | malformed source m => m.message source
  | unreadable path .inaccessible => "cannot read type graph " ++ path ++ ": " ++ causeText
  | unreadable path _ => "cannot parse type graph " ++ path ++ ": " ++ causeText
  | closed => "type graph session is closed"

end GraphError

namespace ConfigError

def message : ConfigError → String
  | unreadable path .inaccessible => "cannot read config " ++ path ++ ": " ++ causeText
  | unreadable path _ => "cannot parse config " ++ path ++ ": " ++ causeText
  | notMapping path => path ++ ": config must be a mapping"
  | invalid path _ => path ++ ": " ++ causeText

end ConfigError

namespace Failure

/-- Whether a failure only concerns one service, which is then left out. -/
def isSkippable : Failure → Bool
  | sourceMissing .. | aliasMissing .. => true
  | _ => false

def notFoundMessage : Failure → String
  | sourceMissing service file => service ++ " entry file not found: " ++ file
  | aliasMissing service aliasName => service ++ " type alias not found: " ++ aliasName
  | _ => ""

def ofRejection (source : String) : Rejection → Failure
  | .malformed m => .graph (.malformed source m)
  | .fault f => .fault f

end Failure

/-- A failing question about a document as a failing part of a run. -/
def liftFault {α : Type} : Except Fault α → Except Failure α
  | .ok a => .ok a
  | .error f => .error (.fault f)

def Checked.toExcept {α : Type} : Checked α → Except Failure α
  | .valid a => .ok a
  | .invalid fs => .error (.invalid fs)

end RouteCatalog
