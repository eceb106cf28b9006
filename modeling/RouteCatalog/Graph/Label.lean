import RouteCatalog.Document.Access
import RouteCatalog.TypeExpr.Join

/-! Labels: what a type prints as. Nearly always that is a text; only a reference without
arguments whose name is no text prints as that bare name, which can be spliced into a text but not
joined or read like one. -/

namespace RouteCatalog

inductive Label where
  | text (s : String)
  | bare (name : Value)

namespace Label

def ofValue : Value → Label
  | .text s => text s
  | v => bare v

/-- The text that stands for a label inside a larger one. -/
def spliced (doc : Document) : Label → String
  | text s => s
  | bare name => doc.display name

def toText : Label → Except Fault String
  | text s => .ok s
  | bare _ => .error .notText

/-- The characters of a label that is read for operators. A collection is read item by item, each
of which has to be a text; none of them is an operator or an arrow. -/
def toChars (doc : Document) : Label → Except Fault (List Char)
  | text s => .ok s.toList
  | bare name =>
    match doc.items? name with
    | some items => if items.all (·.isText) then .ok [] else .error .notText
    | none => .error .notText

/-- Joins labels, all of which have to be texts. -/
def join (separator : String) (labels : List Label) : Except Fault String := do
  return separator.intercalate (← labels.mapM toText)

def same : Label → Label → Bool
  | text s, text t => s == t
  | bare v, bare w => v.sameKey w
  | _, _ => false

def isKey (doc : Document) : Label → Bool
  | text _ => true
  | bare v => doc.isKey v

def distinct (labels : List Label) : List Label :=
  labels.foldl (fun kept l => if kept.any (·.same l) then kept else kept ++ [l]) []

def isEmptyObject : Label → Bool
  | text s => s == TypeExpr.emptyObject
  | bare _ => false

/-- Joins operands some of which are bare: they have to be possible keys, and only one that is
left alone can be printed. -/
def joinBare (doc : Document) (labels : List Label) : Except Fault Label :=
  if labels.all (isKey doc) then
    match distinct labels with
    | [l] => .ok l
    | _ => .error .notText
  else .error .notKey

def union (doc : Document) (labels : List Label) : Except Fault Label :=
  match labels.mapM toText with
  | .ok parts => .ok (text (TypeExpr.canonicalUnion parts))
  | .error _ => joinBare doc labels

def intersection (doc : Document) (labels : List Label) : Except Fault Label :=
  match labels.mapM toText with
  | .ok parts => .ok (text (TypeExpr.joinIntersection parts))
  | .error _ => joinBare doc (labels.filter (!·.isEmptyObject))

theorem spliced_ofValue (doc : Document) (v : Value) :
    (ofValue v).spliced doc = doc.display v := by
  cases v <;> rfl

theorem mem_of_mem_distinct {labels : List Label} {l : Label} (h : l ∈ distinct labels) :
    l ∈ labels := by
  -- Labels are kept one after the other, so every label kept was kept before or is read.
  have hkept (labels kept : List Label)
      (h : l ∈ labels.foldl (fun kept l => if kept.any (·.same l) then kept else kept ++ [l]) kept) :
      l ∈ kept ∨ l ∈ labels := by
    induction labels generalizing kept with
    | nil => exact .inl h
    | cons first labels ih =>
      rw [List.foldl_cons] at h
      rcases ih _ h with hmem | hmem
      · split at hmem
        · exact .inl hmem
        · rcases List.mem_append.mp hmem with hmem | hmem
          · exact .inl hmem
          · exact .inr (List.mem_singleton.mp hmem ▸ List.mem_cons_self)
      · exact .inr (List.mem_cons_of_mem _ hmem)
  exact (hkept labels [] h).resolve_left List.not_mem_nil

theorem mapM_toText_map_text (parts : List String) : (parts.map text).mapM toText = .ok parts := by
  induction parts with
  | nil => rfl
  | cons p parts ih =>
    rw [List.map_cons, List.mapM_cons, ih]
    rfl

theorem union_map_text (doc : Document) (parts : List String) :
    union doc (parts.map text) = .ok (text (TypeExpr.canonicalUnion parts)) := by
  rw [union, mapM_toText_map_text]

theorem intersection_map_text (doc : Document) (parts : List String) :
    intersection doc (parts.map text) = .ok (text (TypeExpr.joinIntersection parts)) := by
  rw [intersection, mapM_toText_map_text]

end Label

end RouteCatalog
