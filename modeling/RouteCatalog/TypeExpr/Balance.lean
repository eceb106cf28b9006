import RouteCatalog.TypeExpr.Scan

/-! Balanced type expressions, and cutting a type expression at characters of its top level. -/

namespace RouteCatalog.TypeExpr

/-- Whether the level stays at zero or above while a text is read. -/
def staysOpen (s : ScanState) : List Char → Bool
  | [] => true
  | c :: cs => decide (0 ≤ (s.step c).level) && staysOpen (s.step c) cs

def ScanState.isClosed (s : ScanState) : Bool := s.level == 0 && s.quoting == .outside

/-- A balanced text closes every bracket and literal that it opens, and no other. -/
def isBalanced (cs : List Char) : Bool := staysOpen .start cs && (scanFrom .start cs).isClosed

/-- The pieces of a text between the characters of its top level that satisfy `p`. -/
def topPiecesFrom (p : Char → Bool) (s : ScanState) : List Char → List (List Char)
  | [] => [[]]
  | c :: cs =>
    let rest := topPiecesFrom p (s.step c) cs
    if s.isTop c && p c then [] :: rest
    else
      match rest with
      | [] => [[c]]
      | piece :: pieces => (c :: piece) :: pieces

def topPieces (p : Char → Bool) (cs : List Char) : List (List Char) := topPiecesFrom p .start cs

theorem scanFrom_append (s : ScanState) (a b : List Char) :
    scanFrom s (a ++ b) = scanFrom (scanFrom s a) b := by
  simp [scanFrom]

theorem staysOpen_append (s : ScanState) (a b : List Char) :
    staysOpen s (a ++ b) = (staysOpen s a && staysOpen (scanFrom s a) b) := by
  induction a generalizing s with
  | nil => simp [staysOpen, scanFrom]
  | cons c a ih =>
    simp only [List.cons_append, staysOpen, ih, Bool.and_assoc]
    rfl

theorem topPiecesFrom_ne_nil (p : Char → Bool) (s : ScanState) (cs : List Char) :
    topPiecesFrom p s cs ≠ [] := by
  cases cs with
  | nil => simp [topPiecesFrom]
  | cons c cs =>
    simp only [topPiecesFrom]
    split
    · simp
    · split <;> simp

end RouteCatalog.TypeExpr
