import RouteCatalog.Session.History

/-! Source files as objects. A session makes an object for a file whenever the file is to be loaded,
but keeps only the first one of each name and answers with it. Taking the objects for their names
gives the session that only knows names. -/

namespace RouteCatalog

/-- A source file as an object; its serial number tells it from others of the same name. -/
structure FileObject where
  serial : Nat
  path : String
  deriving DecidableEq, Repr

/-- A session with the objects that it keeps, under their names and in the order of their first
load. A closed session keeps none. -/
structure Shelf where
  graph : Graph
  /-- The number of objects made so far. -/
  made : Nat := 0
  kept : Option (List (String × FileObject)) := some []

namespace FileObject

def file (f : FileObject) : SourceFile := ⟨f.path⟩

end FileObject

namespace Shelf

def ofGraph (g : Graph) : Shelf := { graph := g }

def keep (kept : List (String × FileObject)) (key : String) (f : FileObject) :
    List (String × FileObject) :=
  if kept.any (·.1 == key) then kept else kept ++ [(key, f)]

def addFile (s : Shelf) (path : String) : Except Failure (Option FileObject) × Shelf :=
  let key := fileKey path
  match s.kept with
  | none => (.error (.graph .closed), s)
  | some kept =>
    if s.graph.hasFile key then
      let kept := keep kept key ⟨s.made, key⟩
      (.ok (kept.lookup key), { s with made := s.made + 1, kept := some kept })
    else (.ok none, s)

def addEach (s : Shelf) : List String → Except Failure (List (Option FileObject)) × Shelf
  | [] => (.ok [], s)
  | path :: paths =>
    match s.addFile path with
    | (.error e, s) => (.error e, s)
    | (.ok f, s) =>
      let (fs, s) := s.addEach paths
      (fs.map (f :: ·), s)

def addMatching (s : Shelf) (pattern : String) :
    Except Failure (List (Option FileObject)) × Shelf :=
  s.addEach ((s.graph.files.map Prod.fst).filter (matchesGlob (fileKey pattern)))

def sourceFile (s : Shelf) (path : String) : Except Failure (Option FileObject) :=
  match s.kept with
  | none => .error (.graph .closed)
  | some kept => .ok (kept.lookup (fileKey path))

def addSources (s : Shelf) (service : Service) : Shelf :=
  match service.sourceGlob with
  | some pattern =>
    if pattern.isEmpty then (s.addFile service.entryFile).2 else (s.addMatching pattern).2
  | none => (s.addFile service.entryFile).2

def close (s : Shelf) : Shelf := { s with kept := none }

def after (s : Shelf) : SessionCall → Shelf
  | .addFile path => (s.addFile path).2
  | .addMatching pattern => (s.addMatching pattern).2
  | .sourceFile _ => s
  | .findRouteType service => s.addSources service
  | .close => s.close

def afterAll (s : Shelf) (calls : List SessionCall) : Shelf := calls.foldl after s

def given (answer : Except Failure (List (Option FileObject))) : List FileObject :=
  match answer with
  | .ok fs => fs.filterMap id
  | .error _ => []

/-- The objects that a request gets: those that it returns, or the entry file in which it looks for
an alias. -/
def obtained (s : Shelf) : SessionCall → List FileObject
  | .addFile path => given ((s.addFile path).1.map ([·]))
  | .addMatching pattern => given (s.addMatching pattern).1
  | .sourceFile path => given ((s.sourceFile path).map ([·]))
  | .findRouteType service =>
    given (((s.addSources service).sourceFile service.entryFile).map ([·]))
  | .close => []

def obtainedAll (s : Shelf) : List SessionCall → List FileObject
  | [] => []
  | call :: calls => s.obtained call ++ (s.after call).obtainedAll calls

/-- The session that knows the files by their names only. -/
def named (s : Shelf) : Session := ⟨s.graph, s.kept.map (·.map Prod.fst)⟩

end Shelf

end RouteCatalog
