import RouteCatalog.Document.Access
import RouteCatalog.Path

/-! Type graphs: documents that declare types by name and list, for every source file, the aliases
that it exports. A type is given by a specification: the name of a declaration, a mapping that is
a type node, or any other value, which stands for its own text. -/

namespace RouteCatalog

inductive Kind where
  | primitive
  | array
  | tuple
  | union
  | intersection
  | object
  | reference
  deriving DecidableEq, Repr

namespace Kind

def all : List Kind := [primitive, array, tuple, union, intersection, object, reference]

def name : Kind → String
  | primitive => "primitive"
  | array => "array"
  | tuple => "tuple"
  | union => "union"
  | intersection => "intersection"
  | object => "object"
  | reference => "reference"

def ofValue? : Value → Option Kind
  | .text s => all.find? (·.name = s)
  | _ => none

theorem ofValue?_name (k : Kind) : ofValue? (.text k.name) = some k := by cases k <;> decide

end Kind

structure Graph where
  doc : Document
  source : String
  /-- The entry of every source file, under the normalized name of the file. -/
  files : List (String × Value)
  declarations : List Entry

/-- What a specification comes to: a type node of the document, or a text. -/
inductive Backing where
  | node (id : NodeId)
  | literal (text : String)
  deriving DecidableEq

/-- A handle on a type. A declared handle belongs to its name and an anonymous one to its node;
leaves and merged types are made anew for every request. -/
inductive Handle where
  | declared (name : String) (backing : Backing)
  | anonymous (id : NodeId)
  | leaf (text : String)
  | merged (members : List Handle)

/-- What makes two handles one object. -/
inductive Identity where
  | declaration (name : String)
  | node (id : NodeId)
  deriving DecidableEq

namespace Handle

def identity? : Handle → Option Identity
  | declared name _ => some (.declaration name)
  | anonymous id => some (.node id)
  | leaf _ => none
  | merged _ => none

def node? : Handle → Option NodeId
  | declared _ (.node id) => some id
  | anonymous id => some id
  | _ => none

/-- The name that a handle goes by; the empty name does not count. -/
def name? : Handle → Option String
  | declared name _ => if name = "" then none else some name
  | _ => none

end Handle

namespace Graph

def declaration? (g : Graph) (name : String) : Option Value := Entries.get? g.declarations name

def declaredNames (g : Graph) : List String :=
  g.declarations.filterMap fun e => match e.1 with
    | .text name => some name
    | _ => none

/-- The text of a specification that is neither a name nor a node. -/
def literalText (doc : Document) : Value → String
  | .null => "unknown"
  | .bool b => if b then "true" else "false"
  | v => doc.display v

/-- Follows a specification through names that are declared as other names, where `free` are the
names not followed already. -/
def resolveWithin (g : Graph) (free : List String) (spec : Value) : Except Fault Backing :=
  match spec with
  | .text name =>
    match g.declaration? name with
    | none => .ok (.literal name)
    | some spec =>
      if _h : name ∈ free then resolveWithin g (free.erase name) spec else .error .endless
  | v =>
    match g.doc.mapping? v with
    | some id => .ok (.node id)
    | none => .ok (.literal (literalText g.doc v))
termination_by free.length
decreasing_by
  rw [List.length_erase_of_mem _h]
  have := List.length_pos_of_mem _h
  omega

def resolve (g : Graph) (spec : Value) : Except Fault Backing :=
  g.resolveWithin g.declaredNames spec

def handle (g : Graph) (spec : Value) : Except Fault Handle :=
  match spec with
  | .text name =>
    match g.declaration? name with
    | some _ => (g.resolve spec).map (.declared name)
    | none => .ok (.leaf name)
  | v =>
    match g.doc.mapping? v with
    | some id => .ok (.anonymous id)
    | none => .ok (.leaf (literalText g.doc v))

/-- The entries of the type node behind a handle. A text is a primitive with that value. -/
def entries (g : Graph) : Handle → List Entry
  | .declared _ (.node id) => g.doc.entriesAt id
  | .anonymous id => g.doc.entriesAt id
  | .declared _ (.literal text) => [(.text "kind", .text "primitive"), (.text "value", .text text)]
  | .leaf text => [(.text "kind", .text "primitive"), (.text "value", .text text)]
  | .merged _ => [(.text "kind", .text "intersection")]

def field? (g : Graph) (h : Handle) (name : String) : Option Value :=
  Entries.get? (g.entries h) name

/-- What a node states as its kind; without a statement it is a primitive. -/
def statedKind (g : Graph) (h : Handle) : Value := (g.field? h "kind").getD (.text "primitive")

def kind? (g : Graph) (h : Handle) : Option Kind := Kind.ofValue? (g.statedKind h)

def isKind (g : Graph) (k : Kind) (h : Handle) : Bool := g.kind? h == some k

end Graph

end RouteCatalog
