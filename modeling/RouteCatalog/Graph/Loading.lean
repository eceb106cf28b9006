import RouteCatalog.FileTree
import RouteCatalog.Json.Reading
import RouteCatalog.Log
import RouteCatalog.Yaml.Reading

/-! Loading a type graph from a file. A file whose name ends in `.json` holds JSON and any other
YAML. -/

namespace RouteCatalog

namespace Graph

def loadedMessage (g : Graph) : String :=
  "Loaded type graph " ++ g.source ++ " (" ++ Decimal.natText g.files.length ++ " files, " ++
    Decimal.natText g.declarations.length ++ " declarations)"

def readValue (doc : Document) (path : Path) (text : String) :
    Except Failure (Value × Document) :=
  if path.suffix = ".json" then
    match Json.read doc text with
    | .ok r => .ok r
    | .error .malformed => .error (.graph (.unreadable path.text .notJson))
    | .error .oversizedNumber => .error (.fault .badNumber)
  else
    match Yaml.read doc text with
    | .ok r => .ok r
    | .error .malformed => .error (.graph (.unreadable path.text .notYaml))
    | .error (.fault f) => .error (.fault f)

/-- Makes a type graph from the text of the file at a path. The values in `doc` stay available
beside those of the graph. -/
def ofText (doc : Document) (path : Path) (text : String) : Except Failure Graph := do
  let (v, doc) ← readValue doc path text
  match ofValue doc v path.text with
  | .ok g => return g
  | .error e => throw (.ofRejection path.text e)

def load (t : FileTree) (path : Path) : Except Failure Graph × List LogEntry :=
  let result : Except Failure Graph := do
    match ← liftFault (t.readText path) with
    | none => throw (.graph (.unreadable path.text .inaccessible))
    | some text => ofText {} path text
  match result with
  | .ok g => (.ok g, [⟨.debug, .graph, g.loadedMessage⟩])
  | .error e => (.error e, [])

end Graph

end RouteCatalog
