import RouteCatalog.Graph.Rendering

/-! Handles as objects. A graph makes an object for a declared name or for a mapping when it is first
asked for one and keeps it, so that it answers with the same object from then on; for everything else
it makes a new one. An object is marked while it is rendered, so that it is told when it is met inside
its own rendering. -/

namespace RouteCatalog

/-- The serial number of an object. -/
abbrev ObjectId := Nat

/-- The mapping behind an object: one of the document, or one that was made together with an object,
its origin. -/
inductive ObjectNode where
  | document (id : NodeId)
  | literal (origin : ObjectId) (text : String)
  | merged (origin : ObjectId) (members : List ObjectId)
  deriving DecidableEq, Repr

structure HandleObject where
  name : Option String
  node : ObjectNode
  isMarked : Bool := false
  deriving DecidableEq, Repr

inductive HandleKey where
  | declaration (name : String)
  | node (n : ObjectNode)
  deriving DecidableEq, Repr

/-- The objects that a graph has made, by their serial numbers, and those that it keeps. -/
structure HandleStore where
  objects : List HandleObject := []
  kept : List (HandleKey × ObjectId) := []
  deriving DecidableEq, Repr

def Graph.keyOf? (g : Graph) : Value → Option HandleKey
  | .text name => if (g.declaration? name).isSome then some (.declaration name) else none
  | v => (g.doc.mapping? v).map fun id => .node (.document id)

namespace ObjectNode

def origin? : ObjectNode → Option ObjectId
  | document _ => none
  | literal origin _ => some origin
  | merged origin _ => some origin

/-- The mapping that comes with a new object for a declared name. -/
def ofBacking (o : ObjectId) : Backing → ObjectNode
  | .node id => document id
  | .literal text => literal o text

end ObjectNode

namespace HandleObject

/-- The name that an object goes by; the empty name does not count. -/
def shownName? (x : HandleObject) : Option String := x.name.filter (· ≠ "")

/-- What tells an object from all others that were not made anew. -/
def identity? (x : HandleObject) : Option Identity :=
  match x.name, x.node with
  | some name, _ => some (.declaration name)
  | none, .document id => some (.node id)
  | none, _ => none

end HandleObject

namespace HandleStore

/-- The object of a number; a number that is not taken has an empty one. -/
def object (s : HandleStore) (o : ObjectId) : HandleObject :=
  s.objects.getD o ⟨none, .literal o "", false⟩

def size (s : HandleStore) : Nat := s.objects.length

/-- What an object can be kept under: its name or its mapping, unless that was made together with
it. -/
def key? (s : HandleStore) (o : ObjectId) : Option HandleKey :=
  match (s.object o).name with
  | some name => some (.declaration name)
  | none => if (s.object o).node.origin? = some o then none else some (.node (s.object o).node)

def setMark (s : HandleStore) (o : ObjectId) (isMarked : Bool) : HandleStore :=
  { s with objects := s.objects.modify o ({ · with isMarked := isMarked }) }

/-- The handle that an object stands for. -/
def view (s : HandleStore) (o : ObjectId) : Handle :=
  match (s.object o).node, (s.object o).name with
  | .document id, some name => .declared name (.node id)
  | .document id, none => .anonymous id
  | .literal _ text, some name => .declared name (.literal text)
  | .literal _ text, none => .leaf text
  | .merged _ members, _ =>
    .merged (members.map fun m => if _h : m < o then s.view m else .leaf "")
termination_by o

end HandleStore

/-- A question to objects. The objects that are made for it stay, also if it fails. -/
abbrev Asking := ExceptT Fault (StateM HandleStore)

structure ObjectProperty where
  name : String
  type : ObjectId
  optional : Bool
  deriving DecidableEq, Repr

structure ObjectSymbol where
  name : Value
  arguments : List ObjectId

namespace Asking

variable {α : Type}

/-- What comes of a question, and the objects after it. -/
def outcome (c : Asking α) (s : HandleStore) : Except Fault α × HandleStore := (c.run.run s).run

/-- A question whose answer does not depend on objects. -/
def lift (x : Except Fault α) : Asking α := ExceptT.mk fun s => (x, s)

def look (o : ObjectId) : Asking HandleObject := ExceptT.mk fun s => (.ok (s.object o), s)

/-- Makes an object, the mapping of which may name it as its origin. -/
def create (name : Option String) (node : ObjectId → ObjectNode) : Asking ObjectId :=
  ExceptT.mk fun s => (.ok s.size, { s with objects := s.objects ++ [⟨name, node s.size, false⟩] })

def createKept (key : HandleKey) (name : Option String) (node : ObjectId → ObjectNode) :
    Asking ObjectId :=
  ExceptT.mk fun s => (.ok s.size, {
    objects := s.objects ++ [⟨name, node s.size, false⟩]
    kept := s.kept ++ [(key, s.size)] })

def kept? (key : HandleKey) : Asking (Option ObjectId) :=
  ExceptT.mk fun s => (.ok (s.kept.lookup key), s)

/-- Asks something while an object is marked, and takes the mark off again whatever comes of it. -/
def whileMarked (o : ObjectId) (c : Asking α) : Asking α :=
  ExceptT.mk fun s =>
    let (r, s) := c.outcome (s.setMark o true)
    (r, s.setMark o false)

def atNode (n : ObjectNode) : Asking ObjectId := do
  match ← kept? (.node n) with
  | some o => return o
  | none => createKept (.node n) none fun _ => n

variable (g : Graph)

def atDeclaration (name : String) : Asking ObjectId := do
  match ← kept? (.declaration name) with
  | some o => return o
  | none =>
    let backing ← lift (g.resolve (.text name))
    createKept (.declaration name) (some name) fun o => .ofBacking o backing

def handle (spec : Value) : Asking ObjectId :=
  match spec with
  | .text name =>
    match g.declaration? name with
    | some _ => atDeclaration g name
    | none => create none fun o => .literal o name
  | v =>
    match g.doc.mapping? v with
    | some id => atNode (.document id)
    | none => create none fun o => .literal o (Graph.literalText g.doc v)

/-- The entries of a mapping behind an object, apart from the members of a merged type. -/
def entries : ObjectNode → List Entry
  | .document id => g.doc.entriesAt id
  | .literal _ text => [(.text "kind", .text "primitive"), (.text "value", .text text)]
  | .merged .. => [(.text "kind", .text "intersection")]

def field? (x : HandleObject) (name : String) : Option Value := Entries.get? (entries g x.node) name

def statedKind (x : HandleObject) : Value := (field? g x "kind").getD (.text "primitive")

def kind? (x : HandleObject) : Option Kind := Kind.ofValue? (statedKind g x)

def isKind (k : Kind) (x : HandleObject) : Bool := kind? g x == some k

/-! ### Questions about one object -/

def single (o : ObjectId) (field : String) : Asking (Option ObjectId) := do
  match field? g (← look o) field with
  | none => return none
  | some spec => return some (← handle g spec)

def several (o : ObjectId) (field : String) : Asking (List ObjectId) := do
  match field? g (← look o) field with
  | none => return []
  | some specs => (← lift (g.doc.parts specs)).mapM (handle g)

def element (o : ObjectId) : Asking (Option ObjectId) := single g o "element"

def numberIndex (o : ObjectId) : Asking (Option ObjectId) := single g o "number_index"

def elements (o : ObjectId) : Asking (List ObjectId) := several g o "elements"

def members (o : ObjectId) : Asking (List ObjectId) := do
  match (← look o).node with
  | .merged _ members => return members
  | _ => several g o "members"

def callSignatures (o : ObjectId) : Asking Int := do
  match field? g (← look o) "call_signatures" with
  | none => return 0
  | some v => lift (Document.toWhole v)

def symbol (o : ObjectId) : Asking (Option ObjectSymbol) := do
  let x ← look o
  if isKind g .reference x then
    let arguments ← several g o "args"
    match field? g x "name" with
    | some name => return some ⟨name, arguments⟩
    | none => throw .noName
  else return x.shownName?.map fun name => ⟨.text name, []⟩

def property (e : Entry) : Asking ObjectProperty := do
  let (type, optional) := g.propertyType e.2
  return ⟨g.doc.display e.1, ← handle g type, optional⟩

def ownProperties (o : ObjectId) : Asking (List ObjectProperty) := do
  let entries ← lift (g.doc.entriesOrNone ((field? g (← look o) "properties").getD .null))
  entries.mapM (property g)

/-- The property that all declarations of one name come to; for several a new object is made. -/
def combine (name : String) (ps : List ObjectProperty) : Asking ObjectProperty :=
  match ps with
  | [p] => return p
  | ps => do
    let type ← create none fun o => .merged o (ps.map ObjectProperty.type)
    return ⟨name, type, ps.all ObjectProperty.optional⟩

def merge (ps : List ObjectProperty) : Asking (List ObjectProperty) :=
  (ps.map ObjectProperty.name).eraseDups.mapM fun n => combine n (ps.filter (·.name == n))

/-- The properties of a type, where `free` are the intersections that are not being merged
already. -/
def propertiesWithin (free : List NodeId) (o : ObjectId) : Asking (List ObjectProperty) := do
  let x ← look o
  match kind? g x with
  | some .object => ownProperties g o
  | some .intersection =>
    match x.node with
    | .merged _ members => do
      let all ← members.mapM fun m =>
        if _h : m < o then propertiesWithin free m else throw .endless
      merge all.flatten
    | .document id =>
      if _h : id ∈ free then do
        let all ← (← members g o).mapM fun m => propertiesWithin (free.erase id) m
        merge all.flatten
      else throw .endless
    | .literal .. => return []
  | _ => return []
termination_by (free.length, o)
decreasing_by
  · apply Prod.Lex.right
    assumption
  · apply Prod.Lex.left
    rw [List.length_erase_of_mem _h]
    have := List.length_pos_of_mem _h
    omega

def properties (o : ObjectId) : Asking (List ObjectProperty) :=
  propertiesWithin g g.doc.nodeIds o

/-! ### Rendering -/

def renderNode (render : ObjectId → Asking Label) (o : ObjectId) : Asking Label := do
  let x ← look o
  match kind? g x with
  | some .primitive =>
    return .text (((field? g x "value").map g.doc.display).getD "unknown")
  | some .array =>
    match ← element g o with
    | none => return .text "unknown[]"
    | some e =>
      let inner := (← render e).spliced g.doc
      let y ← look e
      if isKind g .union y || isKind g .intersection y then return .text ("(" ++ inner ++ ")[]")
      else return .text (inner ++ "[]")
  | some .tuple =>
    let labels ← (← elements g o).mapM render
    return .text ("[" ++ (← lift (Label.join ", " labels)) ++ "]")
  | some .union =>
    let labels ← (← members g o).mapM render
    return .text (← lift (Label.join " | " labels))
  | some .intersection =>
    let labels ← (← members g o).mapM render
    return .text (← lift (Label.join " & " labels))
  | some .reference =>
    match ← symbol g o with
    | none => throw .noName
    | some s =>
      if s.arguments.isEmpty then return Label.ofValue s.name
      else
        let labels ← s.arguments.mapM render
        return .text (g.doc.display s.name ++ "<" ++ (← lift (Label.join ", " labels)) ++ ">")
  | _ =>
    let properties ← properties g o
    if properties.isEmpty then
      return .text (if (← callSignatures g o) = 0 then TypeExpr.emptyObject
        else "(...args: any[]) => any")
    else
      let entries ← properties.mapM fun p => do
        let label ← render p.type
        return TypeExpr.rawKey p.name ++ (if p.optional then "?" else "") ++ ": " ++
          label.spliced g.doc
      return .text ("\x7b " ++ "; ".intercalate entries ++ " \x7d")

/-- The label of a type. An object that is marked prints `any`. Every rendering inside another one is
of an object with an identity that is still free, or of one that the other was merged from. -/
def textWithin (free : List Identity) (o : ObjectId) : Asking Label := do
  let x ← look o
  match field? g x "text" with
  | some v => return .text (g.doc.display v)
  | none =>
    match x.shownName? with
    | some name => return .text name
    | none =>
      if x.isMarked then return .text "any"
      else
        match x.identity? with
        | some i =>
          if _h : i ∈ free then
            whileMarked o (renderNode g (fun m => textWithin (free.erase i) m) o)
          else throw .endless
        | none =>
          whileMarked o (renderNode g
            (fun m => if _h : m < o then textWithin free m else throw .endless) o)
termination_by (free.length, o)
decreasing_by
  · apply Prod.Lex.left
    rw [List.length_erase_of_mem _h]
    have := List.length_pos_of_mem _h
    omega
  · apply Prod.Lex.right
    assumption

def text (o : ObjectId) : Asking Label := textWithin g g.identities o

end Asking

end RouteCatalog
