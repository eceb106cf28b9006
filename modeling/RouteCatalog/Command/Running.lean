import RouteCatalog.Command.Arguments
import RouteCatalog.Generation

/-! Running a command: what it prints, what it logs and which files it leaves. -/

namespace RouteCatalog.Command

/-- Why a command ends without success. A reported failure is told to the user in one line; any
other one interrupts the program. -/
inductive Ending where
  | misuse (m : Misuse)
  | reported (e : Failure)
  | noEntryFile (file : String)
  | noAlias (name : String)
  | interrupted (e : Failure)
  deriving DecidableEq, Repr

structure Report where
  ending : Option Ending
  output : String
  log : List LogEntry
  tree : FileTree

namespace Ending

def exitCode : Ending → Nat
  | misuse _ => 2
  | _ => 1

def message? : Ending → Option String
  | reported (.graph e) => some e.message
  | reported (.config e) => some e.message
  | noEntryFile file => some ("entry file not found: " ++ file)
  | noAlias name => some ("type alias not found: " ++ name)
  | _ => none

/-- Failures of the configuration and of the type graph are reported. -/
def ofFailure : Failure → Ending
  | .graph e => reported (.graph e)
  | .config e => reported (.config e)
  | e => interrupted e

end Ending

/-- Whether the last piece of a path says that it leads to a directory. -/
def namesDirectory (path : String) : Bool :=
  match (Text.pieces '/' path.toList).getLast? with
  | some last => last.isEmpty || last == ['.']
  | none => true

def isFile (t : FileTree) (path : String) : Bool :=
  match t.look (.ofText path) with
  | .file _ => !namesDirectory path
  | _ => false

/-- The absolute path without double dots that a path comes to. -/
def absolute (t : FileTree) (p : Path) : Path :=
  let start : Path := if p.isAbsolute then ⟨1, []⟩ else t.homePath
  p.parts.foldl (fun here part => if part = ".." then here.parent else here.join ⟨0, [part]⟩) start

/-- The options with another output file, which is named from the working directory. -/
def redirect (t : FileTree) (o : Options) : Option String → Options
  | none => o
  | some output => { o with outputPath := absolute t (.ofText output) }

def startLine (o : Options) : String :=
  "Documenting " ++ Decimal.natText o.services.length ++ " services from " ++
    (o.resolve o.typeGraph).text ++ "...\n"

def endLine (o : Options) (count : Nat) : String :=
  "Wrote " ++ Decimal.natText count ++ " endpoints to " ++ o.resolvedOutput.text ++ "\n"

def runGenerate (t : FileTree) (config : String) (output : Option String) : Report :=
  match Options.load t (.ofText config) with
  | .error e => ⟨some (.ofFailure e), "", [], t⟩
  | .ok o =>
    let o := redirect t o output
    match o.generate t with
    | (.ok g, log, t) => ⟨none, startLine o ++ endLine o g.endpointCount, log, t⟩
    | (.error e, log, t) => ⟨some (.ofFailure e), startLine o, log, t⟩

def listEndpoints (g : Graph) (file aliasName : String) : Except Ending (List Endpoint) := do
  let liftFailure {α : Type} (r : Except Failure α) : Except Ending α := r.mapError .ofFailure
  match (Session.ofGraph g).addFile file with
  | (.error e, _) => throw (.ofFailure e)
  | (.ok none, _) => throw (.noEntryFile file)
  | (.ok (some source), s) =>
    match ← liftFailure (liftFault (s.graph.alias? source aliasName)) with
    | none => throw (.noAlias aliasName)
    | some h => liftFailure (s.graph.walk {} h "")

def runEndpoints (t : FileTree) (graph file aliasName : String) : Report :=
  match Graph.load t (.ofText graph) with
  | (.error e, log) => ⟨some (.ofFailure e), "", log, t⟩
  | (.ok g, log) =>
    match listEndpoints g file aliasName with
    | .error e => ⟨some e, "", log, t⟩
    | .ok es => ⟨none, String.join (es.map fun e => e.title ++ "\n"), log, t⟩

def Request.run (t : FileTree) : Request → Report
  | .generate config output => runGenerate t config output
  | .endpoints graph file aliasName => runEndpoints t graph file aliasName

/-- Runs a command line; the flag says whether debugging entries are shown. -/
def run (t : FileTree) (args : List String) : Bool × Report :=
  match readInvocation (isFile t) args with
  | .error m => (false, ⟨some (.misuse m), "", [], t⟩)
  | .ok i => (i.verbose, i.request.run t)

def shownLog (verbose : Bool) (log : List LogEntry) : String :=
  String.join ((log.filter (LogEntry.isShown verbose)).map LogEntry.line)

end RouteCatalog.Command
