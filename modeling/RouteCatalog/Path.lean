import RouteCatalog.Text.Pieces

/-! Slash-separated paths. Empty and single-dot parts do not count; double-dot parts are kept. A
path that begins with a slash is absolute, and exactly two slashes at the beginning are kept
apart from one. -/

namespace RouteCatalog

open Text

structure Path where
  /-- The number of slashes at the beginning: none, one or two. -/
  root : Nat
  parts : List String
  deriving DecidableEq, Repr

namespace Path

def ofText (s : String) : Path :=
  let slashes := (s.toList.takeWhile (· == '/')).length
  let parts := (pieces '/' s.toList).filter fun p => !p.isEmpty && p != ['.']
  ⟨if slashes = 0 then 0 else if slashes = 2 then 2 else 1, parts.map String.ofList⟩

def text (p : Path) : String :=
  if p.root = 0 ∧ p.parts = [] then "."
  else String.ofList (List.replicate p.root '/') ++ "/".intercalate p.parts

def isAbsolute (p : Path) : Bool := p.root != 0

/-- An absolute path stands for itself; a relative one goes on from the first path. -/
def join (p q : Path) : Path := if q.isAbsolute then q else ⟨p.root, p.parts ++ q.parts⟩

def parent (p : Path) : Path := ⟨p.root, p.parts.dropLast⟩

def name (p : Path) : String := p.parts.getLast?.getD ""

/-- The end of the last part from its last dot on. A dot at the beginning or at the end of the
part starts no suffix. -/
def suffix (p : Path) : String :=
  let cs := p.name.toList
  let after := (cs.reverse.takeWhile (· != '.')).reverse
  if after.isEmpty ∨ cs.length ≤ after.length + 1 then ""
  else String.ofList ('.' :: after)

/-- No file can be found under a path with the null character in it. -/
def holdsNull (p : Path) : Bool := p.parts.any (·.toList.contains '\x00')

end Path

/-- The normalized form of a file name: backslashes separate parts like slashes. -/
def fileKey (s : String) : String :=
  (Path.ofText (String.ofList (s.toList.map fun c => if c = '\\' then '/' else c))).text

end RouteCatalog
