import RouteCatalog.Graph.Expansion
import RouteCatalog.Graph.Rendering
import RouteCatalog.TypeExpr.Noise

/-! Normalization: the canonical type expression of a handle. Arrays, tuples, unions and
intersections are put together from the expressions of their parts; an object keeps its raw
rendering while that is clean and is written out property by property otherwise. Below the depth
bound the raw rendering stands for the type. -/

namespace RouteCatalog

open TypeExpr

/-- Generic types that are written as a name with arguments and never written out. -/
def knownGenerics : List String :=
  ["Array", "ReadonlyArray", "Promise", "Map", "Set", "WeakMap", "WeakSet", "Readonly", "Partial",
    "Required", "Pick", "Omit", "Record", "Exclude", "Extract", "NonNullable", "ReturnType",
    "Iterable", "Iterator", "AsyncIterable", "AsyncIterator", "Generator", "AsyncGenerator",
    "IterableIterator"]

/-- How a property begins that stands for a symbol and has no written form. -/
def symbolMark : String := "__@"

structure Normalizer where
  detector : Detector := .default
  maxDepth : Int := 10

namespace Graph

/-- The known generic that a symbol names. A name that is a list or a mapping cannot be looked up. -/
def knownGeneric? (g : Graph) (s : Option TypeSymbol) : Except Fault (Option String) :=
  match s with
  | none => .ok none
  | some s =>
    match s.name with
    | .text name => .ok (if knownGenerics.contains name then some name else none)
    | v => if g.doc.canBeSought v then .ok none else .error .notKey

/-- Whether a member of an intersection is an anonymous object: it is no function and no known
generic. -/
def isPlainObject (g : Graph) (h : Handle) : Except Fault Bool := do
  if !g.isKind .object h then return false
  if (← g.callSignatures h) ≠ 0 then return false
  return (← g.knownGeneric? (← g.symbol h)).isNone

/-- Whether a property of every one of some types satisfies a test, which stops at the first that
does not. -/
def allHandles (test : Handle → Except Fault Bool) : List Handle → Except Fault Bool
  | [] => .ok true
  | h :: hs => do if ← test h then allHandles test hs else return false

def anyHandle (test : Handle → Except Fault Bool) : List Handle → Except Fault Bool
  | [] => .ok false
  | h :: hs => do if ← test h then return true else anyHandle test hs

/-- Whether the members of an intersection are written as one object: all of them are plain
objects and at least one has properties. -/
def areMergeable (g : Graph) (members : List Handle) : Except Fault Bool := do
  if members.length ≤ 1 then return false
  if ← allHandles g.isPlainObject members then
    anyHandle (fun h => return !(← g.properties h).isEmpty) members
  else return false

def arrayOf (g : Graph) (element : Handle) (inner : Label) : Except Fault Label := do
  let isOperand := g.isKind .union element || g.isKind .intersection element
  let text := inner.spliced g.doc
  let chars ← inner.toChars g.doc
  if isOperand && isCompound chars then return .text ("Array<" ++ text ++ ">")
  else if isFunction chars then return .text ("(" ++ text ++ ")[]")
  else return .text (text ++ "[]")

/-- Writes an object from its properties; without any that can be written there is nothing. -/
def objectLiteral (g : Graph) (normalize : Handle → Except Fault Label)
    (properties : List Property) : Except Fault (Option Label) := do
  let written := properties.filter fun p => !symbolMark.toList.isPrefixOf p.name.toList
  let entries ← written.mapM fun p => do
    let label ← normalize p.type
    return formatKey p.name ++ (if p.optional then "?" else "") ++ ": " ++ label.spliced g.doc
  if entries.isEmpty then return none
  else return some (.text ("\x7b " ++ "; ".intercalate entries ++ " \x7d"))

def mergedLiteral (g : Graph) (normalize : Handle → Except Fault Label) (h : Handle)
    (members : List Handle) : Except Fault (Option Label) := do
  if ← g.areMergeable members then g.objectLiteral normalize (← g.properties h) else return none

def normalizeIntersection (g : Graph) (normalize : Handle → Except Fault Label) (h : Handle) :
    Except Fault Label := do
  let members ← g.members h
  match ← g.mergedLiteral normalize h members with
  | some merged => return merged
  | none => Label.intersection g.doc (← members.mapM normalize)

def normalizeObject (g : Graph) (d : Detector) (normalize : Handle → Except Fault Label)
    (h : Handle) : Except Fault Label := do
  match ← d.expandedElement g h with
  | some element => return .text ((← normalize element).spliced g.doc ++ "[]")
  | none =>
    let raw ← g.text h
    if isClean (← raw.toText).toList then return raw
    else if (← g.callSignatures h) = 0 then
      match ← g.objectLiteral normalize (← g.properties h) with
      | some literal => return literal
      | none => return raw
    else return raw

/-- Normalizes the parts of a type with `normalize` and puts its expression together. -/
def normalizeNode (g : Graph) (d : Detector) (normalize : Handle → Except Fault Label)
    (h : Handle) : Except Fault Label := do
  match g.kind? h with
  | some .array =>
    match ← g.element h with
    | none => return .text "unknown[]"
    | some element => g.arrayOf element (← normalize element)
  | some .tuple =>
    let labels ← (← g.elements h).mapM normalize
    return .text ("[" ++ (← Label.join ", " labels) ++ "]")
  | some .union => Label.union g.doc (← (← g.members h).mapM normalize)
  | some .intersection => g.normalizeIntersection normalize h
  | kind =>
    let symbol ← g.symbol h
    match ← g.knownGeneric? symbol with
    | some name =>
      let arguments := (symbol.map (·.arguments)).getD []
      if arguments.isEmpty then return .text name
      else
        let labels ← arguments.mapM normalize
        return .text (name ++ "<" ++ (← Label.join ", " labels) ++ ">")
    | none => if kind = some .object then g.normalizeObject d normalize h else g.text h

/-- The expression of a type when `levels` levels may be taken apart. -/
def normalizeWithin (g : Graph) (d : Detector) : (levels : Nat) → Handle → Except Fault Label
  | 0, h => g.text h
  | levels + 1, h => g.normalizeNode d (normalizeWithin g d levels) h

end Graph

namespace Normalizer

def levels (n : Normalizer) (depth : Int) : Nat := (n.maxDepth + 1 - depth).toNat

/-- The canonical expression of a type that stands at a depth. -/
def normalize (n : Normalizer) (g : Graph) (h : Handle) (depth : Int) : Except Fault Label :=
  g.normalizeWithin n.detector (n.levels depth) h

variable {n : Normalizer} {g : Graph} {h : Handle} {depth : Int}

theorem levels_of_le (hdepth : depth ≤ n.maxDepth) : n.levels depth = n.levels (depth + 1) + 1 := by
  unfold levels
  omega

/-- Within the depth bound the parts of a type are normalized one level deeper. -/
theorem normalize_of_le (hdepth : depth ≤ n.maxDepth) :
    n.normalize g h depth = g.normalizeNode n.detector (n.normalize g · (depth + 1)) h := by
  rw [normalize, levels_of_le hdepth]
  rfl

end Normalizer

end RouteCatalog
