import RouteCatalog.Graph.Basic

/-! Validation: every mapping that can be reached from a declaration or an alias states a known
kind, or wraps a type. The mappings are visited depth first, each at most once. -/

namespace RouteCatalog

/-- What is wrong with the document of a type graph, and where. -/
inductive Malformation where
  | notMapping
  | noKind (place : String)
  | unknownKind (place kind : String)
  | noName (place : String)
  deriving DecidableEq, Repr

/-- Why a document is no type graph: it is malformed, or asking for its parts fails. -/
inductive Rejection where
  | malformed (m : Malformation)
  | fault (f : Fault)
  deriving DecidableEq, Repr

namespace Malformation

def message (source : String) : Malformation → String
  | notMapping => source ++ ": type graph must be a mapping"
  | noKind place => source ++ ": " ++ place ++ ": type node has no 'kind'"
  | unknownKind place kind => source ++ ": " ++ place ++ ": unknown type kind " ++ kind
  | noName place => source ++ ": " ++ place ++ ": reference has no 'name'"

end Malformation

/-- What is still to be visited: a mapping at a place, or a fault that is met there. -/
inductive Pending where
  | node (id : NodeId) (place : String)
  | fault (f : Fault)
  deriving DecidableEq

namespace Document

/-- The mappings in a specification, through the lists in it. `free` are the lists that the
specification is not nested in; a list inside itself has no end. -/
def mappingsWithin (doc : Document) (free : List NodeId) (place : String) (v : Value) :
    List Pending :=
  match v with
  | .node id =>
    match doc.node id with
    | .mapping _ => [.node id place]
    | .list items =>
      if _h : id ∈ free then
        (items.zipIdx.map fun (item, i) =>
          mappingsWithin doc (free.erase id) (place ++ "[" ++ Decimal.natText i ++ "]") item).flatten
      else [.fault .endless]
    | _ => []
  | _ => []
termination_by free.length
decreasing_by
  rw [List.length_erase_of_mem _h]
  have := List.length_pos_of_mem _h
  omega

def mappings (doc : Document) (place : String) (v : Value) : List Pending :=
  doc.mappingsWithin doc.nodeIds place v

/-- The mappings in the values of a collection of entries, each at a place named by its key. -/
def entryMappings (doc : Document) (place : String) (entries : List Entry) : List Pending :=
  entries.flatMap fun e => doc.mappings (place ++ doc.display e.1) e.2

/-- What a possibly failing look-up leaves to be visited. -/
def pendingOr (look : Except Fault (List Pending)) : List Pending :=
  match look with
  | .ok pending => pending
  | .error f => [.fault f]

/-- The fields of a type node that hold specifications, in the order in which they are visited. -/
def specFields : List String := ["element", "number_index", "elements", "members", "args"]

def checkKind (doc : Document) (place : String) (kind : Value) : Except Rejection Kind :=
  if doc.canBeSought kind then
    match Kind.ofValue? kind with
    | some k => .ok k
    | none => .error (.malformed (.unknownKind place (doc.literal kind)))
  else .error (.fault .notKey)

/-- Looks at one mapping by itself and gives what it leads to. -/
def visit (doc : Document) (place : String) (entries : List Entry) :
    Except Rejection (List Pending) :=
  match Entries.get? entries "kind" with
  | none =>
    match Entries.get? entries "type" with
    | some type => .ok (doc.mappings place type)
    | none => .error (.malformed (.noKind place))
  | some stated => do
    let kind ← doc.checkKind place stated
    if kind = .reference ∧ Entries.get? entries "name" = none then
      throw (.malformed (.noName place))
    let specs := specFields.flatMap fun field =>
      match Entries.get? entries field with
      | some spec => doc.mappings (place ++ "." ++ field) spec
      | none => []
    let properties := pendingOr do
      let properties ← doc.entriesOrNone ((Entries.get? entries "properties").getD .null)
      return doc.entryMappings (place ++ ".") properties
    return specs ++ properties

/-- Visits what is pending, where `unseen` are the nodes not visited before. -/
def checkPending (doc : Document) (unseen : List NodeId) (pending : List Pending) :
    Except Rejection Unit :=
  match pending with
  | [] => .ok ()
  | .fault f :: _ => .error (.fault f)
  | .node id place :: rest =>
    if _h : id ∈ unseen then
      match doc.visit place (doc.entriesAt id) with
      | .ok found => checkPending doc (unseen.erase id) (found ++ rest)
      | .error e => .error e
    else checkPending doc unseen rest
termination_by (unseen.length, pending.length)
decreasing_by
  · apply Prod.Lex.left
    rw [List.length_erase_of_mem _h]
    have := List.length_pos_of_mem _h
    omega
  · apply Prod.Lex.right
    simp

end Document

namespace Graph

def aliasesOf (doc : Document) (file : Value) : Except Fault (List Entry) := do
  let fields ← doc.entriesOrNone file
  doc.entriesOrNone ((Entries.get? fields "aliases").getD .null)

/-- The mappings that the declarations and the aliases lead to, in order. -/
def roots (g : Graph) : List Pending :=
  g.doc.entryMappings "types." g.declarations ++
    g.files.flatMap fun (path, file) => Document.pendingOr do
      let aliases ← aliasesOf g.doc file
      return g.doc.entryMappings ("files." ++ path ++ ".aliases.") aliases

def validate (g : Graph) : Except Rejection Unit := g.doc.checkPending g.doc.nodeIds g.roots

/-- Puts a file under its name; a name that is there already keeps its place. -/
def putFile (files : List (String × Value)) (name : String) (file : Value) :
    List (String × Value) :=
  if files.any (·.1 == name) then files.map fun f => if f.1 == name then (name, file) else f
  else files ++ [(name, file)]

/-- The files of a graph under their normalized names. -/
def collectFiles (doc : Document) (entries : List Entry) : List (String × Value) :=
  entries.foldl (fun files e => putFile files (fileKey (doc.display e.1)) e.2) []

def ofValue (doc : Document) (v : Value) (source : String) : Except Rejection Graph :=
  match doc.entries? v with
  | none => .error (.malformed .notMapping)
  | some fields =>
    let section? (name : String) := (Entries.get? fields name).getD .null
    match doc.entriesOrNone (section? "files"), doc.toEntries (section? "types") with
    | .error f, _ => .error (.fault f)
    | _, .error f => .error (.fault f)
    | .ok files, .ok declarations =>
      let g : Graph := ⟨doc, source, collectFiles doc files, declarations⟩
      match g.validate with
      | .ok () => .ok g
      | .error e => .error e

end Graph

end RouteCatalog
