import RouteCatalog.Command.Running

/-! The program: reads the files that its arguments name, runs the command and writes what the run
has changed. -/

namespace RouteCatalog.Command

/-- The files that a request reads, as far as the files known already tell. -/
def Request.reads (t : FileTree) : Request → List Path
  | .generate config _ =>
    match Options.load t (.ofText config) with
    | .ok o => [.ofText config, o.resolve o.typeGraph]
    | .error _ => [.ofText config]
  | .endpoints graph _ _ => [.ofText graph]

def fetch (t : FileTree) (p : Path) : IO FileTree := do
  try
    let bytes ← IO.FS.readBinFile p.text
    return t.addFile p bytes.toList
  catch _ => return t

/-- Adds the files that a command line reads. A configuration has to be read before it is known
which type graph it names. -/
def fetchAll (t : FileTree) (args : List String) : IO FileTree := do
  match readInvocation (fun _ => true) args with
  | .error _ => return t
  | .ok i =>
    let t ← (i.request.reads t).foldlM fetch t
    (i.request.reads t).foldlM fetch t

def store (before after : FileTree) : IO Unit :=
  for (parts, bytes) in after.changedSince before do
    IO.FS.createDirAll (Path.text ⟨1, parts.dropLast⟩)
    IO.FS.writeBinFile (Path.text ⟨1, parts⟩) ⟨bytes.toArray⟩

end RouteCatalog.Command

open RouteCatalog in
def main (args : List String) : IO UInt32 := do
  let home := (Path.ofText (toString (← IO.currentDir))).parts
  let tree ← Command.fetchAll ⟨home, []⟩ args
  let (verbose, report) := Command.run tree args
  IO.print report.output
  IO.eprint (Command.shownLog verbose report.log)
  Command.store tree report.tree
  match report.ending with
  | none => return 0
  | some ending =>
    IO.eprintln ("Error: " ++ (ending.message?.getD "the command did not succeed"))
    return ending.exitCode.toUInt32
