import RouteCatalog.Graph.Validation

/-! Which mappings a type node leads to. Reachability ignores the order and the number of ways;
validation visits exactly what is reachable from the roots of a graph. -/

namespace RouteCatalog.Document

/-- A specification leads to itself if it is a mapping, and a list leads to what its items lead
to. -/
inductive Leads (doc : Document) : Value → NodeId → Prop where
  | mapping {v : Value} {id : NodeId} : doc.mapping? v = some id → Leads doc v id
  | item {v w : Value} {items : List Value} {id : NodeId} :
      doc.list? v = some items → w ∈ items → Leads doc w id → Leads doc v id

/-- The specifications in a mapping: those of a type node, or the type that it wraps. -/
def specsOf (doc : Document) (entries : List Entry) : List Value :=
  match Entries.get? entries "kind" with
  | none => (Entries.get? entries "type").toList
  | some _ =>
    let properties := (Entries.get? entries "properties").bind doc.entries?
    specFields.filterMap (Entries.get? entries) ++ (properties.getD []).map Prod.snd

/-- Finite reachability between mappings; the first argument is the ancestor. -/
inductive Reaches (doc : Document) : NodeId → NodeId → Prop where
  | refl (a : NodeId) : Reaches doc a a
  | cons {a b c : NodeId} {v : Value} :
      v ∈ doc.specsOf (doc.entriesAt a) → Leads doc v b → Reaches doc b c → Reaches doc a c

theorem Reaches.trans {doc : Document} {a b c : NodeId}
    (hab : doc.Reaches a b) (hbc : doc.Reaches b c) : doc.Reaches a c := by
  induction hab with
  | refl => exact hbc
  | cons hv hl _ ih => exact .cons hv hl (ih hbc)

/-- A mapping by itself is valid if it states a known kind, and a name if it is a reference, or if
it wraps a type. -/
def IsLocallyValid (doc : Document) (id : NodeId) : Prop :=
  match Entries.get? (doc.entriesAt id) "kind" with
  | none => (Entries.get? (doc.entriesAt id) "type").isSome
  | some stated => ∃ k, Kind.ofValue? stated = some k ∧
      (k = .reference → (Entries.get? (doc.entriesAt id) "name").isSome)

end RouteCatalog.Document
