import RouteCatalog.Graph.Basic

/-! Questions that a handle answers about its type. The properties of an intersection are those of
its members, merged by name. -/

namespace RouteCatalog

structure Property where
  name : String
  type : Handle
  optional : Bool

/-- The name of a type and the arguments that it is applied to. -/
structure TypeSymbol where
  name : Value
  arguments : List Handle

namespace Property

/-- The property that all declarations of one name come to: the declaration itself if there is
one, else the intersection of their types, optional if every declaration is. -/
def combine (name : String) : List Property → Property
  | [p] => p
  | ps => ⟨name, .merged (ps.map type), ps.all optional⟩

/-- Merges declarations by name. The names come in the order in which they first occur. -/
def merge (ps : List Property) : List Property :=
  (ps.map name).eraseDups.map fun n => combine n (ps.filter (·.name == n))

end Property

namespace Graph

def single (g : Graph) (h : Handle) (field : String) : Except Fault (Option Handle) :=
  match g.field? h field with
  | none => .ok none
  | some spec => (g.handle spec).map some

def several (g : Graph) (h : Handle) (field : String) : Except Fault (List Handle) :=
  match g.field? h field with
  | none => .ok []
  | some specs => do (← g.doc.parts specs).mapM g.handle

def element (g : Graph) (h : Handle) : Except Fault (Option Handle) := g.single h "element"

def numberIndex (g : Graph) (h : Handle) : Except Fault (Option Handle) := g.single h "number_index"

def elements (g : Graph) (h : Handle) : Except Fault (List Handle) := g.several h "elements"

def members (g : Graph) : Handle → Except Fault (List Handle)
  | .merged members => .ok members
  | h => g.several h "members"

def callSignatures (g : Graph) (h : Handle) : Except Fault Int :=
  match g.field? h "call_signatures" with
  | none => .ok 0
  | some v => Document.toWhole v

/-- A reference is known by its name and arguments, another type by the name it is declared
under. -/
def symbol (g : Graph) (h : Handle) : Except Fault (Option TypeSymbol) :=
  if g.isKind .reference h then do
    let arguments ← g.several h "args"
    match g.field? h "name" with
    | some name => return some ⟨name, arguments⟩
    | none => throw .noName
  else return h.name?.map fun name => ⟨.text name, []⟩

/-- The type and the mark of a property value. A mapping that states a type and no kind wraps
them. -/
def propertyType (g : Graph) (value : Value) : Value × Bool :=
  match g.doc.entries? value with
  | none => (value, false)
  | some entries =>
    match Entries.get? entries "kind", Entries.get? entries "type" with
    | none, some type =>
      (type, ((Entries.get? entries "optional").map g.doc.isTruthy).getD false)
    | _, _ => (value, false)

def property (g : Graph) (e : Entry) : Except Fault Property := do
  let (type, optional) := g.propertyType e.2
  return ⟨g.doc.display e.1, ← g.handle type, optional⟩

def ownProperties (g : Graph) (h : Handle) : Except Fault (List Property) := do
  let entries ← g.doc.entriesOrNone ((g.field? h "properties").getD .null)
  entries.mapM g.property

/-- The properties of a type, where `free` are the intersections that are not being merged
already. -/
def propertiesWithin (g : Graph) (free : List NodeId) (h : Handle) :
    Except Fault (List Property) :=
  match g.kind? h with
  | some .object => g.ownProperties h
  | some .intersection =>
    match h, h.node? with
    | .merged members, _ => do
      let all ← members.attach.mapM fun ⟨m, _hm⟩ => propertiesWithin g free m
      return Property.merge all.flatten
    | h, some id =>
      if _h : id ∈ free then do
        let all ← (← g.members h).mapM fun m => propertiesWithin g (free.erase id) m
        return Property.merge all.flatten
      else throw .endless
    | _, none => return []
  | _ => return []
termination_by (free.length, sizeOf h)
decreasing_by
  · apply Prod.Lex.right
    have := List.sizeOf_lt_of_mem _hm
    simp_wf
    omega
  · apply Prod.Lex.left
    rw [List.length_erase_of_mem _h]
    have := List.length_pos_of_mem _h
    omega

def properties (g : Graph) (h : Handle) : Except Fault (List Property) :=
  g.propertiesWithin g.doc.nodeIds h

end Graph

end RouteCatalog
