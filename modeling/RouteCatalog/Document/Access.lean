import RouteCatalog.Decimal.Reading
import RouteCatalog.Document.Display
import RouteCatalog.Fault

/-! Looking into values whose shape is not known beforehand. -/

namespace RouteCatalog.Document

def parts (doc : Document) (v : Value) : Except Fault (List Value) :=
  match doc.items? v with
  | some items => .ok items
  | none => .error .notIterable

/-- The entries of a mapping; a value that counts as no has none. -/
def entriesOrNone (doc : Document) (v : Value) : Except Fault (List Entry) :=
  if doc.isTruthy v then
    match doc.entries? v with
    | some entries => .ok entries
    | none => .error .notMapping
  else .ok []

/-- The entry that an item of two parts stands for. -/
def toEntry (doc : Document) (item : Value) : Except Fault Entry := do
  match ← doc.parts item with
  | [key, value] => if doc.isKey key then .ok (key, value) else .error .notKey
  | _ => .error .notPairs

/-- The entries of a mapping, or those made from the pairs of another collection. -/
def toEntries (doc : Document) (v : Value) : Except Fault (List Entry) :=
  if doc.isTruthy v then
    match doc.entries? v with
    | some entries => .ok entries
    | none => do
      let pairs ← (← doc.parts v).mapM doc.toEntry
      return Entries.ofPairs pairs
  else .ok []

/-- The whole number that a value stands for; fractions are cut off. -/
def toWhole (v : Value) : Except Fault Int :=
  let read (cs : List Char) : Except Fault Int :=
    match Decimal.readInteger? 10 cs with
    | some n => .ok n
    | none => .error .badNumber
  match v with
  | .bool b => .ok (if b then 1 else 0)
  | .int n => .ok n
  | .float x =>
    if x.isNaN then .error .badNumber
    else if x.isInf then .error .infiniteNumber
    else .ok (Value.truncateFloat x)
  | .text s => read s.toList
  | .bytes bs => read (bs.map fun b => Char.ofNat b.toNat)
  | _ => .error .notNumber

end RouteCatalog.Document
