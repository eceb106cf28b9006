import RouteCatalog.Graph.Query

/-! Expanded arrays: objects that are indexed by numbers and carry most of an array's methods. A
detector knows the methods and the share of them that gives an array away. -/

namespace RouteCatalog

/-- A share: a whole number, which is exact, or a floating-point number. -/
inductive Share where
  | whole (n : Int)
  | real (x : Float)
  deriving DecidableEq

namespace Share

/-- Whether `matched` is at least this share of `total`. -/
def isMet (share : Share) (matched total : Nat) : Bool :=
  match share with
  | whole n => decide ((matched : Int) ≥ total * n)
  | real x => decide (Float.ofNat matched ≥ Float.ofNat total * x)

end Share

structure Detector where
  /-- The names of array methods, each of which counts once. -/
  fingerprint : List String
  share : Share

namespace Detector

def arrayMethods : List String :=
  ["length", "push", "pop", "concat", "join", "reverse", "shift", "slice", "sort", "splice",
    "indexOf", "forEach", "map", "filter", "reduce", "find"]

def default : Detector := ⟨arrayMethods, .real 0.75⟩

def hits (d : Detector) (names : List String) : Nat :=
  (d.fingerprint.eraseDups.filter (names.contains ·)).length

def recognizes (d : Detector) (names : List String) : Bool :=
  d.share.isMet (d.hits names) d.fingerprint.eraseDups.length

def expandedElement (d : Detector) (g : Graph) (h : Handle) : Except Fault (Option Handle) := do
  match ← g.numberIndex h with
  | none => return none
  | some index =>
    let properties ← g.properties h
    return if d.recognizes (properties.map (·.name)) then some index else none

end Detector

end RouteCatalog
