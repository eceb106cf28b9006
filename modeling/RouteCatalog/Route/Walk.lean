import RouteCatalog.Failure
import RouteCatalog.Graph.Normalization
import RouteCatalog.Route.Endpoint
import RouteCatalog.Route.Params

/-! Walking a route descriptor. Its properties are path segments, which lead to further
descriptors, and methods, which describe endpoints. A descriptor that is met again on the way down
to itself is left out. -/

namespace RouteCatalog

inductive Role where
  /-- An endpoint of the path walked so far. -/
  | endpoint (m : Method)
  /-- More routes of the same path. -/
  | nested
  /-- The framework's own business. -/
  | internal
  | segment
  deriving DecidableEq, Repr

namespace Route

def nestedName : String := "~Routes"

def internalNames : List String :=
  ["decorator", "store", "derive", "resolve", "schema", "standaloneSchema", "response"]

def isPrivate (name : String) : Bool :=
  match name.toList with
  | c :: _ => c == '~' || c == '_'
  | [] => false

def role (name : String) : Role :=
  match Method.ofName? name with
  | some m => .endpoint m
  | none =>
    if name = nestedName then .nested
    else if internalNames.contains name || isPrivate name then .internal
    else .segment

/-- The path of a segment below a path. A parameter that begins the whole path has no slash. -/
def extend (path name : String) : String :=
  if path.isEmpty && name.toList.head? == some ':' then name else path ++ "/" ++ name

/-- The most descriptors that may stand on the way down to one. -/
def maxAncestors : Nat := 64

end Route

structure Parts where
  body : Label := .text "unknown"
  params : Label := .text "\x7b\x7d"
  query : Label := .text "unknown"
  response : Label := .text "\x7b\x7d"

namespace Parts

/-- Puts a part in its place; a property with another name is none. -/
def set? (parts : Parts) (name : String) (l : Label) : Option Parts :=
  match name with
  | "body" => some { parts with body := l }
  | "params" => some { parts with params := l }
  | "query" => some { parts with query := l }
  | "response" => some { parts with response := l }
  | _ => none

def isPart (name : String) : Bool := ["body", "params", "query", "response"].contains name

/-- A part as a value; one that is equal to its default is absent. -/
def present (default : String) : Label → Value
  | .text s => if s = default then .null else .text s
  | .bare v => v

def value : Label → Value
  | .text s => .text s
  | .bare v => v

/-- Repairs the parameters by the path; they have to be a text that can be asked how it
begins. -/
def repair (path : String) (parts : Parts) : Except Fault Parts :=
  match parts.params with
  | .text s => .ok { parts with params := .text ((Route.repairedParams? s path).getD s) }
  | .bare (.bytes _) => .error .notText
  | .bare _ => .error .noBeginning

def check (path : String) (m : Method) (parts : Parts) : Checked Endpoint :=
  Endpoint.mk path m
    <$> (present "unknown" parts.body).checkOptionalText.locate "body"
    <*> (present "\x7b\x7d" parts.params).checkOptionalText.locate "params"
    <*> (present "unknown" parts.query).checkOptionalText.locate "query"
    <*> (value parts.response).checkText.locate "response"

end Parts

/-- What a walk asks of the handles of a type system: which of them are one object, what the
properties of a type are called and lead to, and how a type is written. A handle without an identity
is made anew for every request, so that it is the same as no other. -/
structure HandleSystem (H I : Type) where
  identity? : H → Option I
  properties : H → Except Fault (List (String × H))
  express : H → Except Fault Label

namespace HandleSystem

variable {H I : Type} (sys : HandleSystem H I)

/-- Writes the parts that a method's descriptor gives; of two with one name the later one
counts. -/
def collectParts (parts : Parts) : List (String × H) → Except Fault Parts
  | [] => .ok parts
  | (name, type) :: rest =>
    if Parts.isPart name then do
      let l ← sys.express type
      collectParts ((parts.set? name l).getD parts) rest
    else collectParts parts rest

def endpoint (descriptor : H) (path : String) (m : Method) : Except Failure Endpoint := do
  let parts ← liftFault do
    (← sys.collectParts {} (← sys.properties descriptor)).repair path
  (parts.check path m).toExcept

/-- The endpoints that a property gives: its own if it is a method, else those of the descriptor
that it leads to, which `deeper` finds. -/
def endpointsOf (deeper : H → String → Except Failure (List Endpoint)) (path : String)
    (p : String × H) : Except Failure (List Endpoint) :=
  match Route.role p.1 with
  | .endpoint m => if path.isEmpty then .ok [] else (sys.endpoint p.2 path m).map ([·])
  | .nested => deeper p.2 path
  | .internal => .ok []
  | .segment => deeper p.2 (Route.extend path p.1)

/-- The endpoints of a descriptor and of all below it in the order of their declaration.
`ancestors` are the handles on the way to it, and `levels` is how many more may follow. -/
def walkWithin [DecidableEq I] (levels : Nat) (ancestors : List I) (h : H) (path : String) :
    Except Failure (List Endpoint) :=
  match levels with
  | 0 => .ok []
  | levels + 1 => do
    if (sys.identity? h).any (ancestors.contains ·) then return []
    let below := (sys.identity? h).toList ++ ancestors
    let properties ← liftFault (sys.properties h)
    let found ← properties.mapM (sys.endpointsOf (walkWithin levels below) path)
    return found.flatten

def walk [DecidableEq I] (h : H) (path : String) : Except Failure (List Endpoint) :=
  sys.walkWithin (Route.maxAncestors + 1) [] h path

end HandleSystem

namespace Graph

def handles (g : Graph) (n : Normalizer) : HandleSystem Handle Identity where
  identity? := Handle.identity?
  properties h := (g.properties h).map (·.map fun p => (p.name, p.type))
  express h := n.normalize g h 0

def walk (g : Graph) (n : Normalizer) (h : Handle) (path : String) :
    Except Failure (List Endpoint) :=
  (g.handles n).walk h path

end Graph

end RouteCatalog
