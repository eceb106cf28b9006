import RouteCatalog.Failure
import RouteCatalog.Path

/-! File trees: what a run can read and write. What is not listed in a tree does not exist, apart
from the directories above the working directory. -/

namespace RouteCatalog

inductive FileNode where
  | file (bytes : List UInt8)
  | directory
  deriving DecidableEq

structure FileTree where
  /-- The parts of the absolute path of the working directory. -/
  home : List String
  /-- The files and directories, by the parts of their absolute paths. -/
  nodes : List (List String × FileNode)

inductive Located where
  | file (bytes : List UInt8)
  | directory
  | missing
  /-- A part that the path goes on from is no directory. -/
  | blocked
  deriving DecidableEq

namespace FileTree

/-- The absolute path of the working directory. -/
def homePath (t : FileTree) : Path := ⟨1, t.home⟩

def nodeAt? (t : FileTree) (parts : List String) : Option FileNode :=
  if parts.isPrefixOf t.home then some .directory
  else (t.nodes.find? (·.1 == parts)).map Prod.snd

/-- Follows parts from a directory; the second answer is where they lead without double dots. -/
def follow (t : FileTree) (here : List String) : List String → Located × List String
  | [] =>
    match t.nodeAt? here with
    | some (.file bytes) => (.file bytes, here)
    | some .directory => (.directory, here)
    | none => (.missing, here)
  | part :: rest =>
    match t.nodeAt? here with
    | some (.file _) => (.blocked, here)
    | none => (.missing, here)
    | some .directory =>
      follow t (if part = ".." then here.dropLast else here ++ [part]) rest

/-- The parts from which and along which a path is followed. -/
def locate (t : FileTree) (p : Path) : Located × List String :=
  if p.isAbsolute then t.follow [] p.parts else t.follow t.home p.parts

def look (t : FileTree) (p : Path) : Located := (t.locate p).1

def put (t : FileTree) (parts : List String) (n : FileNode) : FileTree :=
  { t with nodes := t.nodes.filter (·.1 != parts) ++ [(parts, n)] }

/-- Puts a file at a path from the working directory and directories on the way to it. -/
def addFile (t : FileTree) (p : Path) (bytes : List UInt8) : FileTree :=
  let start := if p.isAbsolute then [] else t.home
  let parts := start ++ p.parts
  let above := (List.range p.parts.length).map fun n => start ++ p.parts.take n
  let missing := above.filter fun d => (t.nodeAt? d).isNone
  (missing.foldl (fun t d => t.put d .directory) t).put parts (.file bytes)

def addDirectory (t : FileTree) (p : Path) : FileTree :=
  let start := if p.isAbsolute then [] else t.home
  let above := (List.range (p.parts.length + 1)).map fun n => start ++ p.parts.take n
  let missing := above.filter fun d => (t.nodeAt? d).isNone
  missing.foldl (fun t d => t.put d .directory) t

/-- Makes the directories of a path that are missing, one after the other. A file in their place is
told apart from one further up the path, unless a directory has been made before it. -/
def makeDirectories (t : FileTree) (made : Bool) (start : Path) :
    List String → Except OutputError Unit × FileTree
  | [] => (.ok (), t)
  | part :: rest =>
    let p : Path := ⟨start.root, start.parts ++ [part]⟩
    match t.locate p with
    | (.missing, parts) => makeDirectories (t.put parts .directory) true p rest
    | (.directory, _) => makeDirectories t made p rest
    | (.file _, _) => (.error (if made ∨ rest.isEmpty then .parentIsFile else .notDirectory), t)
    | (.blocked, _) => (.error .notDirectory, t)

def makeParents (t : FileTree) (p : Path) : Except OutputError Unit × FileTree :=
  t.makeDirectories false ⟨p.root, []⟩ p.parent.parts

def writeFile (t : FileTree) (p : Path) (bytes : List UInt8) : Except OutputError FileTree :=
  match t.locate p with
  | (.directory, _) => .error .isDirectory
  | (.blocked, _) => .error .notDirectory
  | (_, parts) => .ok (t.put parts (.file bytes))

/-- Line ends of other conventions become line feeds. -/
def unifyLineEnds : List Char → List Char
  | [] => []
  | '\r' :: '\n' :: rest => '\n' :: unifyLineEnds rest
  | '\r' :: rest => '\n' :: unifyLineEnds rest
  | c :: rest => c :: unifyLineEnds rest

/-- The files of `t` that `before` does not have with the same content. -/
def changedSince (t before : FileTree) : List (List String × List UInt8) :=
  t.nodes.filterMap fun (parts, n) => match n with
    | .file bytes => if before.nodeAt? parts = some (.file bytes) then none else some (parts, bytes)
    | .directory => none

/-- The text of a file, or nothing if there is no file to read. -/
def readText (t : FileTree) (p : Path) : Except Fault (Option String) :=
  if p.holdsNull then .error .badPath
  else match t.look p with
  | .file bytes =>
    match String.fromUTF8? ⟨bytes.toArray⟩ with
    | some s => .ok (some (String.ofList (unifyLineEnds s.toList)))
    | none => .error .notUnicode
  | _ => .ok none

end FileTree

end RouteCatalog
