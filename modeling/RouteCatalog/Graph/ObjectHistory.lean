import RouteCatalog.Graph.Objects

/-! What happens to the objects of a graph: they are requested, and they are asked about their
types. -/

namespace RouteCatalog

inductive HandleQuery where
  | kind
  | element
  | numberIndex
  | elements
  | members
  | properties
  | callSignatures
  | symbol
  | text
  deriving DecidableEq, Repr

/-- An answer about a type, which may hold other types: handles or objects. -/
inductive HandleAnswer (η : Type) where
  | kind (stated : Value)
  | type (t : Option η)
  | types (ts : List η)
  | properties (ps : List (String × η × Bool))
  | count (n : Int)
  | symbol (s : Option (Value × List η))
  | label (l : Label)

namespace HandleAnswer

variable {η θ : Type}

def map (f : η → θ) : HandleAnswer η → HandleAnswer θ
  | kind stated => kind stated
  | type t => type (t.map f)
  | types ts => types (ts.map f)
  | properties ps => properties (ps.map fun p => (p.1, f p.2.1, p.2.2))
  | count n => count n
  | symbol s => symbol (s.map fun x => (x.1, x.2.map f))
  | label l => label l

end HandleAnswer

namespace Graph

def answer (g : Graph) (q : HandleQuery) (h : Handle) : Except Fault (HandleAnswer Handle) :=
  match q with
  | .kind => .ok (.kind (g.statedKind h))
  | .element => (g.element h).map .type
  | .numberIndex => (g.numberIndex h).map .type
  | .elements => (g.elements h).map .types
  | .members => (g.members h).map .types
  | .properties =>
    (g.properties h).map fun ps => .properties (ps.map fun p => (p.name, p.type, p.optional))
  | .callSignatures => (g.callSignatures h).map .count
  | .symbol => (g.symbol h).map fun s => .symbol (s.map fun x => (x.name, x.arguments))
  | .text => (g.text h).map .label

end Graph

namespace Asking

variable (g : Graph)

def answer (q : HandleQuery) (o : ObjectId) : Asking (HandleAnswer ObjectId) := do
  match q with
  | .kind => return .kind (statedKind g (← look o))
  | .element => return .type (← element g o)
  | .numberIndex => return .type (← numberIndex g o)
  | .elements => return .types (← elements g o)
  | .members => return .types (← members g o)
  | .properties =>
    return .properties ((← properties g o).map fun p => (p.name, p.type, p.optional))
  | .callSignatures => return .count (← callSignatures g o)
  | .symbol => return .symbol ((← symbol g o).map fun x => (x.name, x.arguments))
  | .text => return .label (← text g o)

end Asking

/-- A request for an object: by a specification, by the mapping behind an object, or by an object. -/
inductive HandleRequest where
  | spec (v : Value)
  | nodeOf (o : ObjectId)
  | object (o : ObjectId)

inductive HandleCall where
  | request (r : HandleRequest)
  | query (q : HandleQuery) (o : ObjectId)

structure Grant where
  request : HandleRequest
  /-- The declared name or the mapping that was asked for. -/
  key? : Option HandleKey
  object : ObjectId

namespace Asking

def request (g : Graph) : HandleRequest → Asking ObjectId
  | .spec v => handle g v
  | .nodeOf o => do atNode (← look o).node
  | .object o => return o

end Asking

/-- What a request asks for, if that is a declared name or a mapping. -/
def HandleRequest.key? (g : Graph) (s : HandleStore) : HandleRequest → Option HandleKey
  | .spec v => g.keyOf? v
  | .nodeOf o => some (.node (s.object o).node)
  | .object _ => none

/-- One can only speak of objects that are there. -/
def HandleCall.IsPossible (s : HandleStore) : HandleCall → Prop
  | .request (.spec _) => True
  | .request (.nodeOf o) => o < s.size
  | .request (.object o) => o < s.size
  | .query _ o => o < s.size

namespace HandleStore

variable (g : Graph)

def after (s : HandleStore) : HandleCall → HandleStore
  | .request r => ((Asking.request g r).outcome s).2
  | .query q o => ((Asking.answer g q o).outcome s).2

def afterAll (s : HandleStore) (calls : List HandleCall) : HandleStore := calls.foldl (after g) s

/-- Every call speaks of objects that are there by then. -/
def ArePossible (s : HandleStore) : List HandleCall → Prop
  | [] => True
  | call :: calls => call.IsPossible s ∧ ArePossible (s.after g call) calls

def granted (s : HandleStore) : HandleCall → Option Grant
  | .request r =>
    match ((Asking.request g r).outcome s).1 with
    | .ok o => some ⟨r, r.key? g s, o⟩
    | .error _ => none
  | .query _ _ => none

def grantedAll (s : HandleStore) : List HandleCall → List Grant
  | [] => []
  | call :: calls => (s.granted g call).toList ++ grantedAll (s.after g call) calls

/-- The answer to a question, with the handles that its objects stand for. -/
def seen (s : HandleStore) (c : Asking (HandleAnswer ObjectId)) :
    Except Fault (HandleAnswer Handle) :=
  (c.outcome s).1.map (·.map (c.outcome s).2.view)

def HasKey (s : HandleStore) (o : ObjectId) : HandleKey → Prop
  | .declaration name => (s.object o).name = some name ∧
    ∃ backing, g.resolve (.text name) = .ok backing ∧ (s.object o).node = .ofBacking o backing
  | .node n => (s.object o).name = none ∧ (s.object o).node = n

end HandleStore

/-- Two requests ask for the same: the same declared name, the same mapping, or one of them for the
object that the other was granted. -/
def Grant.Matches (a b : Grant) : Prop :=
  (∃ name, a.key? = some (.declaration name) ∧ b.key? = some (.declaration name)) ∨
  (∃ n, a.key? = some (.node n) ∧ b.key? = some (.node n)) ∨
  a.request = .object b.object ∨ b.request = .object a.object

end RouteCatalog
