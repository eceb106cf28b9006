import RouteCatalog.Config.Loading
import RouteCatalog.Graph.Loading
import RouteCatalog.Markdown.Section
import RouteCatalog.Session

/-! Documenting all services of a run in one file. A service whose entry file or route alias is
missing is logged and left out; any other failure ends the run before anything is written. -/

namespace RouteCatalog

/-- The document of a run and the number of endpoints in it. -/
structure Generated where
  document : String
  endpointCount : Nat
  deriving DecidableEq, Repr

/-- A service with the endpoints that were found for it. -/
structure Documented where
  service : Service
  endpoints : List Endpoint

/-- What came of a step of a run, and what it left behind. -/
structure Outcome (α : Type) where
  result : Except Failure α
  session : Session
  log : List LogEntry

namespace Session

def startMessage (service : Service) : LogEntry :=
  ⟨.info, .document, "Generating docs for " ++ service.name ++ "..."⟩

def countMessage (service : Service) (count : Nat) : LogEntry :=
  ⟨.debug, .document, service.name ++ ": " ++ Decimal.natText count ++ " endpoints"⟩

def skipMessage (e : Failure) : LogEntry := ⟨.error, .document, e.notFoundMessage⟩

/-- Documents one service, or nothing if it is left out. -/
def documentService (s : Session) (service : Service) : Outcome (Option Documented) :=
  match s.collectEndpoints service with
  | (.ok endpoints, s) =>
    ⟨.ok (some ⟨service, endpoints⟩), s,
      [startMessage service, countMessage service endpoints.length]⟩
  | (.error e, s) =>
    if e.isSkippable then ⟨.ok none, s, [startMessage service, skipMessage e]⟩
    else ⟨.error e, s, [startMessage service]⟩

/-- Documents services one after the other, up to the first failure. -/
def documentAll (s : Session) : List Service → Outcome (List Documented)
  | [] => ⟨.ok [], s, []⟩
  | service :: rest =>
    match s.documentService service with
    | ⟨.error e, s, log⟩ => ⟨.error e, s, log⟩
    | ⟨.ok found, s, log⟩ =>
      let later := s.documentAll rest
      ⟨later.result.map (found.toList ++ ·), later.session, log ++ later.log⟩

end Session

namespace Documented

def markdown (d : Documented) : String :=
  Markdown.serviceSection d.service.title d.endpoints d.service.sdk

end Documented

namespace Options

def preamble (o : Options) : String := "# " ++ o.title ++ "\n\n" ++ o.description ++ "\n\n"

def assemble (o : Options) (ds : List Documented) : Generated :=
  ⟨o.preamble ++ String.join (ds.map Documented.markdown),
    ds.foldl (fun count d => count + d.endpoints.length) 0⟩

def resolvedOutput (o : Options) : Path := o.resolve o.outputPath

def writtenMessage (o : Options) (count : Nat) : LogEntry :=
  ⟨.info, .document, o.resolvedOutput.text ++ " generated (" ++ Decimal.natText count ++
    " endpoints)"⟩

/-- Writes the document of a run. The directories on the way to it stay if that fails. -/
def write (o : Options) (t : FileTree) (g : Generated) : Except Failure Unit × FileTree :=
  let p := o.resolvedOutput
  if p.parent.holdsNull then (.error (.fault .badPath), t)
  else
    match t.makeParents p with
    | (.error e, t) => (.error (.output e), t)
    | (.ok (), t) =>
      if p.holdsNull then (.error (.fault .badPath), t)
      else
        match t.writeFile p g.document.toUTF8.toList with
        | .ok t => (.ok (), t)
        | .error e => (.error (.output e), t)

/-- Documents the services in a session and writes the document. -/
def generateIn (o : Options) (s : Session) (t : FileTree) : Outcome Generated × FileTree :=
  match s.documentAll o.services with
  | ⟨.error e, s, log⟩ => (⟨.error e, s, log⟩, t)
  | ⟨.ok ds, s, log⟩ =>
    let g := o.assemble ds
    match o.write t g with
    | (.ok (), t) => (⟨.ok g, s, log ++ [o.writtenMessage g.endpointCount]⟩, t)
    | (.error e, t) => (⟨.error e, s, log⟩, t)

/-- Loads the type graph that the options name and documents the services. -/
def generate (o : Options) (t : FileTree) : Except Failure Generated × List LogEntry × FileTree :=
  match Graph.load t (o.resolve o.typeGraph) with
  | (.error e, log) => (.error e, log, t)
  | (.ok g, log) =>
    let (outcome, t) := o.generateIn (.ofGraph g) t
    (outcome.result, log ++ outcome.log, t)

end Options

end RouteCatalog
