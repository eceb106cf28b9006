import RouteCatalog.Document.Basic
import RouteCatalog.Text.Literal

/-! How values are printed. Inside a collection a text stands as a literal; a collection that is
met again inside itself is abbreviated to an ellipsis in its own brackets. -/

namespace RouteCatalog

open Decimal Text

namespace Value

def boolText (b : Bool) : String := if b then "True" else "False"

def scalarLiteral : Value → String
  | .null => "None"
  | .bool b => boolText b
  | .int n => intText n
  | .float x => floatText x
  | .text s => literal s
  | .bytes bs => byteLiteral bs
  | .date d => d.literal
  | .moment m => m.literal
  | .node _ => ""

end Value

namespace Node

def ellipsis : Node → String
  | .list _ => "[...]"
  | .tuple _ => "(...)"
  | .set _ => "set(...)"
  | .mapping _ => "\x7b...\x7d"

def bracket (n : Node) (items : List String) : String :=
  match n with
  | .list _ => "[" ++ ", ".intercalate items ++ "]"
  | .tuple _ => "(" ++ ", ".intercalate items ++ (if items.length = 1 then ",)" else ")")
  | .set _ => if items.isEmpty then "set()" else "\x7b" ++ ", ".intercalate items ++ "\x7d"
  | .mapping _ => "\x7b" ++ ", ".intercalate items ++ "\x7d"

end Node

namespace Document

/-- The form of a value inside a collection, where `free` are the nodes that are not being
printed already. -/
def literalWithin (doc : Document) (free : List NodeId) : Value → String
  | .node id =>
    let n := doc.node id
    if _h : id ∈ free then
      n.bracket <| match n with
        | .list items | .tuple items | .set items =>
          items.map fun v => literalWithin doc (free.erase id) v
        | .mapping entries => entries.map fun e =>
          literalWithin doc (free.erase id) e.1 ++ ": " ++ literalWithin doc (free.erase id) e.2
    else n.ellipsis
  | v => v.scalarLiteral
termination_by free.length
decreasing_by
  all_goals
    rw [List.length_erase_of_mem _h]
    have := List.length_pos_of_mem _h
    omega

/-- The form in which a value stands inside a collection and in messages. -/
def literal (doc : Document) (v : Value) : String := doc.literalWithin doc.nodeIds v

/-- The plain text of a value: a text is itself, a date has no frame, and all else is as inside a
collection. -/
def display (doc : Document) : Value → String
  | .text s => s
  | .date d => d.text
  | .moment m => m.text
  | v => doc.literal v

end Document

end RouteCatalog
