import RouteCatalog.Config.Checking
import RouteCatalog.FileTree
import RouteCatalog.Yaml.Reading

/-! Loading the options of a run from a YAML file. Relative paths in it start from the directory
of the file. -/

namespace RouteCatalog.Options

/-- A mapping can only be spread into options if all its keys are texts. -/
def hasTextKeys (entries : List Entry) : Bool := entries.all (·.1.isText)

/-- The options with the project's root seen from the directory of the file at a path. -/
def anchored (o : Options) (path : Path) : Options :=
  { o with projectRoot := path.parent.join o.projectRoot }

def ofEntries (doc : Document) (path : Path) (entries : List Entry) : Except Failure Options :=
  if hasTextKeys entries then
    match check doc entries with
    | .valid o => .ok (o.anchored path)
    | .invalid findings => .error (.config (.invalid path.text findings))
  else .error (.fault .badField)

def ofText (path : Path) (text : String) : Except Failure Options :=
  match Yaml.read {} text with
  | .error .malformed => .error (.config (.unreadable path.text .notYaml))
  | .error (.fault f) => .error (.fault f)
  | .ok (v, doc) =>
    match doc.entries? v with
    | none => .error (.config (.notMapping path.text))
    | some entries => ofEntries doc path entries

def load (t : FileTree) (path : Path) : Except Failure Options := do
  match ← liftFault (t.readText path) with
  | none => throw (.config (.unreadable path.text .inaccessible))
  | some text => ofText path text

end RouteCatalog.Options
