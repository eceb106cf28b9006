import RouteCatalog.Graph.Label
import RouteCatalog.Graph.Query
import RouteCatalog.TypeExpr.Key

/-! Raw rendering: a type as its graph spells it out. A named type prints its name, a text
override prints as it stands, and a type without a name that is met again inside its own rendering
prints `any`. -/

namespace RouteCatalog.Graph

/-- Renders the node behind a handle, given how to render other handles. -/
def renderNode (g : Graph) (render : Handle → Except Fault Label) (h : Handle) :
    Except Fault Label := do
  match g.kind? h with
  | some .primitive =>
    return .text (((g.field? h "value").map g.doc.display).getD "unknown")
  | some .array =>
    match ← g.element h with
    | none => return .text "unknown[]"
    | some e =>
      let inner := (← render e).spliced g.doc
      if g.isKind .union e || g.isKind .intersection e then return .text ("(" ++ inner ++ ")[]")
      else return .text (inner ++ "[]")
  | some .tuple =>
    let labels ← (← g.elements h).mapM render
    return .text ("[" ++ (← Label.join ", " labels) ++ "]")
  | some .union =>
    let labels ← (← g.members h).mapM render
    return .text (← Label.join " | " labels)
  | some .intersection =>
    let labels ← (← g.members h).mapM render
    return .text (← Label.join " & " labels)
  | some .reference =>
    match ← g.symbol h with
    | none => throw .noName
    | some s =>
      if s.arguments.isEmpty then return Label.ofValue s.name
      else
        let labels ← s.arguments.mapM render
        return .text (g.doc.display s.name ++ "<" ++ (← Label.join ", " labels) ++ ">")
  | _ =>
    let properties ← g.properties h
    if properties.isEmpty then
      return .text (if (← g.callSignatures h) = 0 then TypeExpr.emptyObject
        else "(...args: any[]) => any")
    else
      let entries ← properties.mapM fun p => do
        let label ← render p.type
        return TypeExpr.rawKey p.name ++ (if p.optional then "?" else "") ++ ": " ++
          label.spliced g.doc
      return .text ("\x7b " ++ "; ".intercalate entries ++ " \x7d")

/-- The label of a type, where `free` are the handles that are not being rendered already. -/
def textWithin (g : Graph) (free : List Identity) (h : Handle) : Except Fault Label :=
  match g.field? h "text" with
  | some v => .ok (.text (g.doc.display v))
  | none =>
    match h.name? with
    | some name => .ok (.text name)
    | none =>
      match h with
      | .leaf text => .ok (.text text)
      | .merged members => do
        let labels ← members.attach.mapM fun ⟨m, _hm⟩ => textWithin g free m
        return .text (← Label.join " & " labels)
      | .anonymous id =>
        if _h : .node id ∈ free then
          renderNode g (fun m => textWithin g (free.erase (.node id)) m) (.anonymous id)
        else .ok (.text "any")
      | .declared name backing =>
        if _h : .declaration name ∈ free then
          renderNode g (fun m => textWithin g (free.erase (.declaration name)) m)
            (.declared name backing)
        else .ok (.text "any")
termination_by (free.length, sizeOf h)
decreasing_by
  · apply Prod.Lex.right
    have := List.sizeOf_lt_of_mem _hm
    simp_wf
    omega
  all_goals
    apply Prod.Lex.left
    rw [List.length_erase_of_mem _h]
    have := List.length_pos_of_mem _h
    omega

/-- Every handle that can be met again inside its own rendering: it goes by no name, so that it
belongs to a node or is declared under the empty name. -/
def identities (g : Graph) : List Identity := .declaration "" :: g.doc.nodeIds.map .node

def text (g : Graph) (h : Handle) : Except Fault Label := g.textWithin g.identities h

/-- The label of the node behind a handle as if it had no name and were not shared. -/
def anonymousText (g : Graph) (h : Handle) : Except Fault Label :=
  match g.field? h "text" with
  | some v => .ok (.text (g.doc.display v))
  | none =>
    match h with
    | .merged _ | .leaf _ => g.text h
    | h => renderNode g (fun m => g.text m) h

/-- A handle as it is named in diagnostics: by its name, or else by its kind. -/
def describe (g : Graph) (h : Handle) : String :=
  let subject := match h.name? with
    | some name => Text.literal name
    | none => g.doc.literal (g.statedKind h)
  "GraphType(" ++ subject ++ ")"

end RouteCatalog.Graph
