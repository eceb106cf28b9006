import RouteCatalog.TypeExpr.Quoting

/-! The top level of a type expression: the characters outside every bracket and literal. An
angle bracket closes unless it is the head of an arrow `=>`. -/

namespace RouteCatalog.TypeExpr

/-- What the characters read so far leave behind. The level falls below zero when more brackets
close than open. -/
structure ScanState where
  level : Int
  quoting : Quoting
  previous : Option Char
  deriving DecidableEq, Repr

namespace ScanState

def start : ScanState := ⟨0, .outside, none⟩

end ScanState

def isOpener (c : Char) : Bool := c == '{' || c == '[' || c == '(' || c == '<'

/-- Whether a character closes a bracket, given the character before it. -/
def isCloser (previous : Option Char) (c : Char) : Bool :=
  c == '}' || c == ']' || c == ')' || (c == '>' && previous != some '=')

namespace ScanState

def step (s : ScanState) (c : Char) : ScanState :=
  let level :=
    if s.quoting ≠ .outside ∨ isQuote c then s.level
    else if isOpener c then s.level + 1
    else if isCloser s.previous c then s.level - 1
    else s.level
  ⟨level, s.quoting.next c, some c⟩

def isTop (s : ScanState) (c : Char) : Bool :=
  s.quoting == .outside && !isQuote c && !isOpener c && !isCloser s.previous c && s.level == 0

end ScanState

def scanFrom (s : ScanState) (cs : List Char) : ScanState := cs.foldl ScanState.step s

/-- The characters at the top level with their positions, the first of which is `position`. -/
def topLevelFrom (s : ScanState) (position : Nat) : List Char → List (Nat × Char)
  | [] => []
  | c :: cs =>
    let rest := topLevelFrom (s.step c) (position + 1) cs
    if s.isTop c then (position, c) :: rest else rest

def topLevel (cs : List Char) : List (Nat × Char) := topLevelFrom .start 0 cs

def isOperator (c : Char) : Bool := c == '|' || c == '&'

/-- Whether an operator of a union or an intersection stands at the top level. -/
def isCompound (cs : List Char) : Bool := (topLevel cs).any fun e => isOperator e.2

/-- Whether an arrow stands at the top level. -/
def isFunction (cs : List Char) : Bool :=
  (topLevel cs).any fun e => e.2 == '=' && (cs.drop (e.1 + 1)).head? == some '>'

theorem topLevelFrom_append (s : ScanState) (position : Nat) (a b : List Char) :
    topLevelFrom s position (a ++ b) =
      topLevelFrom s position a ++ topLevelFrom (scanFrom s a) (position + a.length) b := by
  induction a generalizing s position with
  | nil => simp [topLevelFrom, scanFrom]
  | cons c a ih =>
    have hpos : position + 1 + a.length = position + (c :: a).length := by
      simp only [List.length_cons]; omega
    simp only [List.cons_append, topLevelFrom, ih, hpos]
    split <;> simp [scanFrom]

end RouteCatalog.TypeExpr
