import RouteCatalog.Text.Blank
import RouteCatalog.TypeExpr.Quoting

/-! Type expressions with one member per line. Every brace and square bracket changes the nesting
level, a line ends after an opener, a separator and before a closer, and a line is indented by two
spaces per level. Literals are copied. -/

namespace RouteCatalog.TypeExpr

open Text

/-- A part of the laid-out text. Line breaks carry the level of the line that they begin. -/
inductive Piece where
  | glyph (c : Char)
  | space
  | lineBreak (level : Nat)
  deriving DecidableEq, Repr

namespace Piece

def chars : Piece → List Char
  | .glyph c => [c]
  | .space => [' ']
  | .lineBreak level => '\n' :: List.replicate (2 * level) ' '

def isGlyph : Piece → Bool
  | .glyph _ => true
  | _ => false

end Piece

def opensBlock (c : Char) : Bool := c == '{' || c == '['
def closesBlock (c : Char) : Bool := c == '}' || c == ']'
def separates (c : Char) : Bool := c == ';' || c == ','

/-- What has been laid out so far. The pieces stand in reverse. -/
structure Layout where
  pieces : List Piece
  level : Nat
  quoting : Quoting
  deriving DecidableEq, Repr

namespace Layout

def start : Layout := ⟨[], 0, .outside⟩

/-- A closer stands directly after its opener, or else on a line of its own. -/
def close (pieces : List Piece) (level : Nat) (c : Char) : List Piece :=
  let kept := pieces.dropWhile (!·.isGlyph)
  match kept with
  | .glyph o :: _ =>
    if opensBlock o then .glyph c :: kept else .glyph c :: .lineBreak level :: kept
  | _ => .glyph c :: .lineBreak level :: kept

/-- Blanks become one space after a character and vanish elsewhere. -/
def blank (pieces : List Piece) : List Piece :=
  match pieces with
  | .glyph _ :: _ => .space :: pieces
  | _ => pieces

def step (s : Layout) (c : Char) : Layout :=
  let quoting := s.quoting.next c
  if s.quoting ≠ .outside ∨ isQuote c then ⟨.glyph c :: s.pieces, s.level, quoting⟩
  else if opensBlock c then
    ⟨.lineBreak (s.level + 1) :: .glyph c :: s.pieces, s.level + 1, quoting⟩
  else if closesBlock c then ⟨close s.pieces (s.level - 1) c, s.level - 1, quoting⟩
  else if separates c then ⟨.lineBreak s.level :: .glyph c :: s.pieces, s.level, quoting⟩
  else if isBlank c then ⟨blank s.pieces, s.level, quoting⟩
  else ⟨.glyph c :: s.pieces, s.level, quoting⟩

def chars (s : Layout) : List Char := s.pieces.reverse.flatMap Piece.chars

end Layout

def layOut (cs : List Char) : List Char := trim (cs.foldl Layout.step .start).chars

end RouteCatalog.TypeExpr
