import RouteCatalog.Fault

/-! Places in a YAML text. A cursor knows what is still to be read and on which line and in which
column it stands. -/

namespace RouteCatalog.Yaml

/-- Why a YAML text cannot be read: it is malformed, or a scalar or a version has no value. -/
inductive ReadError where
  | malformed
  | fault (f : Fault)
  deriving DecidableEq, Repr

structure Cursor where
  rest : List Char
  index : Nat
  line : Nat
  column : Nat
  deriving Repr

def isBreak (c : Char) : Bool :=
  c == '\n' || c == '\r' || c == '\x85' || c == '\u2028' || c == '\u2029'

def isGap (c : Char) : Bool := c == ' ' || c == '\t'

/-- Characters that may stand in a text at all. -/
def isAdmissible (c : Char) : Bool :=
  c == '\t' || c == '\n' || c == '\r' || (' ' ≤ c && c ≤ '~') || c == '\x85' ||
    ('\u00A0' ≤ c && c ≤ '\uFFFD') || 0x10000 ≤ c.toNat

namespace Cursor

def ofText (cs : List Char) : Cursor := ⟨cs, 0, 0, 0⟩

def atEnd (c : Cursor) : Bool := c.rest.isEmpty

/-- The character `k` places further on. -/
def peek? (c : Cursor) (k : Nat) : Option Char := c.rest[k]?

def head? (c : Cursor) : Option Char := c.rest.head?

def headIs (c : Cursor) (p : Char → Bool) : Bool := c.rest.head?.any p

/-- Whether the text ends here or goes on with a character that satisfies `p`. -/
def endOr (c : Cursor) (k : Nat) (p : Char → Bool) : Bool := (c.peek? k).all p

def breakOrEnd (c : Cursor) : Bool := c.endOr 0 isBreak

def spaceOrEnd (c : Cursor) : Bool := c.endOr 0 fun ch => ch == ' ' || isBreak ch

def gapOrEnd (c : Cursor) (k : Nat) : Bool := c.endOr k fun ch => isGap ch || isBreak ch

/-- The place after the next character. A byte order mark takes no column. -/
def next (c : Cursor) : Cursor :=
  match c.rest with
  | [] => c
  | ch :: rest =>
    if isBreak ch && !(ch == '\r' && rest.head? == some '\n') then ⟨rest, c.index + 1, c.line + 1, 0⟩
    else ⟨rest, c.index + 1, c.line, if ch = '\uFEFF' then c.column else c.column + 1⟩

def forward : Nat → Cursor → Cursor
  | 0, c => c
  | n + 1, c => forward n c.next

def takeWhile (c : Cursor) (p : Char → Bool) : List Char × Cursor :=
  let taken := c.rest.takeWhile p
  (taken, forward taken.length c)

def skipWhile (c : Cursor) (p : Char → Bool) : Cursor := (c.takeWhile p).2

def skipSpaces (c : Cursor) : Cursor := c.skipWhile (· == ' ')

/-- Passes over a line break and gives what it counts as; there may be none. -/
def takeBreak (c : Cursor) : List Char × Cursor :=
  match c.rest with
  | '\r' :: '\n' :: _ => (['\n'], forward 2 c)
  | ch :: _ =>
    if ch = '\u2028' ∨ ch = '\u2029' then ([ch], c.next)
    else if isBreak ch then (['\n'], c.next)
    else ([], c)
  | [] => ([], c)

/-- Whether a document mark of three equal characters stands here. -/
def atMark (c : Cursor) (ch : Char) : Bool :=
  c.rest.take 3 == [ch, ch, ch] && c.gapOrEnd 3

def atDocumentMark (c : Cursor) : Bool := c.atMark '-' || c.atMark '.'

/-- Passes over the rest of a line that holds nothing but a comment. -/
def skipLineEnd (c : Cursor) : Except ReadError Cursor :=
  let c := c.skipSpaces
  let c := if c.head? = some '#' then c.skipWhile (!isBreak ·) else c
  if c.breakOrEnd then .ok c.takeBreak.2 else .error .malformed

end Cursor

end RouteCatalog.Yaml
