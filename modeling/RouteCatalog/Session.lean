import RouteCatalog.Config.Basic
import RouteCatalog.Glob
import RouteCatalog.Route.Walk

/-! Sessions: the source files of a graph that one documentation run has loaded. A session only
ever loads more files, until it is closed for good. -/

namespace RouteCatalog

/-- A loaded source file, known by its normalized name. -/
structure SourceFile where
  path : String
  deriving DecidableEq, Repr

/-- The loaded files are listed in the order of their first load; a closed session has no list. -/
structure Session where
  graph : Graph
  loaded : Option (List String) := some []

namespace Graph

def hasFile (g : Graph) (key : String) : Bool := g.files.any (·.1 == key)

def alias? (g : Graph) (file : SourceFile) (name : String) : Except Fault (Option Handle) := do
  let entry := ((g.files.find? (·.1 == file.path)).map Prod.snd).getD .null
  match Entries.get? (← aliasesOf g.doc entry) name with
  | none => return none
  | some spec => return some (← g.handle spec)

end Graph

namespace Session

def ofGraph (g : Graph) : Session := { graph := g }

def isClosed (s : Session) : Bool := s.loaded.isNone

def close (s : Session) : Session := { s with loaded := none }

/-- Adds a file to the loaded ones, unless it is there. -/
def addKey (loaded : List String) (key : String) : List String :=
  if loaded.contains key then loaded else loaded ++ [key]

/-- Loads a file; the graph may have none of that name. -/
def addFile (s : Session) (path : String) : Except Failure (Option SourceFile) × Session :=
  let key := fileKey path
  match s.loaded with
  | none => (.error (.graph .closed), s)
  | some loaded =>
    if s.graph.hasFile key then (.ok (some ⟨key⟩), { s with loaded := some (addKey loaded key) })
    else (.ok none, s)

/-- The names of the graph's files that a pattern describes, in the order of the graph. -/
def matching (s : Session) (pattern : String) : List String :=
  (s.graph.files.map Prod.fst).filter (matchesGlob (fileKey pattern))

def addMatching (s : Session) (pattern : String) : Except Failure (List SourceFile) × Session :=
  match s.matching pattern, s.loaded with
  | [], _ => (.ok [], s)
  | _, none => (.error (.graph .closed), s)
  | keys, some loaded =>
    (.ok (keys.map SourceFile.mk), { s with loaded := some (keys.foldl addKey loaded) })

def sourceFile (s : Session) (path : String) : Except Failure (Option SourceFile) :=
  match s.loaded with
  | none => .error (.graph .closed)
  | some loaded =>
    .ok (if loaded.contains (fileKey path) then some ⟨fileKey path⟩ else none)

/-- Loads the files of a service: those of its pattern, or else its entry file. -/
def addSources (s : Session) (service : Service) : Except Failure Unit × Session :=
  match service.sourceGlob with
  | some pattern =>
    if pattern.isEmpty then
      let (r, s) := s.addFile service.entryFile
      (r.map fun _ => (), s)
    else
      let (r, s) := s.addMatching pattern
      (r.map fun _ => (), s)
  | none =>
    let (r, s) := s.addFile service.entryFile
    (r.map fun _ => (), s)

/-- The route descriptor that a service's entry file exports, once its files are loaded. -/
def routeTypeOf (s : Session) (service : Service) : Except Failure Handle := do
  match ← s.sourceFile service.entryFile with
  | none => throw (.sourceMissing service.name service.entryFile)
  | some file =>
    match ← liftFault (s.graph.alias? file service.aliasName) with
    | none => throw (.aliasMissing service.name service.aliasName)
    | some h => return h

def findRouteType (s : Session) (service : Service) : Except Failure Handle × Session :=
  match s.addSources service with
  | (.error e, s) => (.error e, s)
  | (.ok (), s) => (s.routeTypeOf service, s)

def collectEndpoints (s : Session) (service : Service) :
    Except Failure (List Endpoint) × Session :=
  match s.findRouteType service with
  | (.error e, s) => (.error e, s)
  | (.ok h, s) => (s.graph.walk {} h "", s)

end Session

end RouteCatalog
