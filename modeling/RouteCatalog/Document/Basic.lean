import RouteCatalog.Document.Calendar

/-! Documents: values as they are read from structured text. Collections are nodes with an
identity of their own, kept in one table, so that a node may occur in several places and may
contain itself. Everything else is a scalar. -/

namespace RouteCatalog

/-- The place of a collection in the table of its document. -/
abbrev NodeId := Nat

inductive Value where
  | null
  | bool (b : Bool)
  | int (n : Int)
  | float (x : Float)
  | text (s : String)
  | bytes (bs : List UInt8)
  | date (d : Date)
  | moment (m : Moment)
  | node (id : NodeId)
  deriving DecidableEq

abbrev Entry := Value × Value

/-- A collection. A mapping keeps its entries in the order in which their keys first came. -/
inductive Node where
  | list (items : List Value)
  | tuple (items : List Value)
  | set (items : List Value)
  | mapping (entries : List Entry)
  deriving DecidableEq

structure Document where
  nodes : Array Node := #[]

namespace Document

/-- The collection at a place; a place outside the table holds an empty list. -/
def node (doc : Document) (id : NodeId) : Node := doc.nodes.getD id (.list [])

def add (doc : Document) (n : Node) : NodeId × Document :=
  (doc.nodes.size, ⟨doc.nodes.push n⟩)

def nodeIds (doc : Document) : List NodeId := List.range doc.nodes.size

def entries? (doc : Document) : Value → Option (List Entry)
  | .node id =>
    match doc.node id with
    | .mapping entries => some entries
    | _ => none
  | _ => none

/-- The entries of the mapping at a place; any other node has none. -/
def entriesAt (doc : Document) (id : NodeId) : List Entry := (doc.entries? (.node id)).getD []

def mapping? (doc : Document) : Value → Option NodeId
  | .node id =>
    match doc.node id with
    | .mapping _ => some id
    | _ => none
  | _ => none

def list? (doc : Document) : Value → Option (List Value)
  | .node id =>
    match doc.node id with
    | .list items => some items
    | _ => none
  | _ => none

/-- What a value holds, one after the other: the items of a list, tuple or set, the keys of a
mapping, the characters of a text and the bytes of a byte string. -/
def items? (doc : Document) : Value → Option (List Value)
  | .node id =>
    match doc.node id with
    | .list items | .tuple items | .set items => some items
    | .mapping entries => some (entries.map Prod.fst)
  | .text s => some (s.toList.map fun c => .text c.toString)
  | .bytes bs => some (bs.map fun b => .int b.toNat)
  | _ => none

/-- Zero, the empty text and empty collections count as no, like `null` and `false`. -/
def isTruthy (doc : Document) : Value → Bool
  | .null => false
  | .bool b => b
  | .int n => n != 0
  | .float x => x != 0
  | .text s => !s.isEmpty
  | .bytes bs => !bs.isEmpty
  | .date _ | .moment _ => true
  | .node id =>
    match doc.node id with
    | .list items | .tuple items | .set items => !items.isEmpty
    | .mapping entries => !entries.isEmpty

/-- Whether a value may be a key: scalars may, and tuples of scalars. -/
def isKey (doc : Document) : Value → Bool
  | .node id =>
    match doc.node id with
    | .tuple items => items.all fun
      | .node _ => false
      | _ => true
    | _ => false
  | _ => true

def isSet (doc : Document) : Value → Bool
  | .node id =>
    match doc.node id with
    | .set _ => true
    | _ => false
  | _ => false

/-- Whether a value can be looked for among keys: a key can, and so can a set, which is compared
as a whole. -/
def canBeSought (doc : Document) (v : Value) : Bool := doc.isKey v || doc.isSet v

theorem canBeSought_of_isKey {doc : Document} {v : Value} (h : doc.isKey v = true) :
    doc.canBeSought v = true := by
  rw [canBeSought, h, Bool.true_or]

end Document

namespace Value

def isText : Value → Bool
  | .text _ => true
  | _ => false

/-- The whole number that a floating-point number is equal to. -/
def wholeOfFloat? (x : Float) : Option Int :=
  if x.isNaN || x.isInf then none
  else
    let b := Decimal.Binary.ofBits x.toBits
    let scaled := b.m * Nat.pow 2 b.q.toNat
    let divisor := Nat.pow 2 (-b.q).toNat
    if scaled % divisor = 0 then
      some (if x < 0 then -(scaled / divisor : Nat) else (scaled / divisor : Nat))
    else none

/-- The part of a finite floating-point number before the point. -/
def truncateFloat (x : Float) : Int :=
  let b := Decimal.Binary.ofBits x.toBits
  let whole : Nat := b.m * Nat.pow 2 b.q.toNat / Nat.pow 2 (-b.q).toNat
  if x < 0 then -whole else whole

/-- The whole number that a truth value, a whole number or a floating-point number equals. -/
def whole? : Value → Option Int
  | .bool b => some (if b then 1 else 0)
  | .int n => some n
  | .float x => wholeOfFloat? x
  | _ => none

/-- Whether two values are one key. Numbers and truth values compare by their amount. -/
def sameKey (a b : Value) : Bool :=
  match a, b with
  | .float x, .float y => x == y
  | .moment s, .moment t => s.same t
  | _, _ =>
    match whole? a, whole? b with
    | some m, some n => m == n
    | none, none => decide (a = b)
    | _, _ => false

end Value

namespace Entries

def get? (entries : List Entry) (name : String) : Option Value :=
  (entries.find? fun e => e.1 = .text name).map Prod.snd

/-- Puts a value under a key. A key that is there already keeps its place and its spelling. -/
def put (entries : List Entry) (key value : Value) : List Entry :=
  if entries.any fun e => e.1.sameKey key then
    entries.map fun e => if e.1.sameKey key then (e.1, value) else e
  else entries ++ [(key, value)]

def ofPairs (pairs : List Entry) : List Entry :=
  pairs.foldl (fun entries e => put entries e.1 e.2) []

end Entries

end RouteCatalog
