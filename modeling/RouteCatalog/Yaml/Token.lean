import RouteCatalog.Decimal.Reading
import RouteCatalog.Yaml.Scalar

/-! The tokens of a YAML text, and how those that begin with an indicator of their own are read:
anchors, aliases, tags and directives. -/

namespace RouteCatalog.Yaml

/-- A tag as it is written: a handle, if it has one, and the rest. -/
structure TagText where
  handle : Option String
  suffix : String
  deriving DecidableEq, Repr

inductive Token where
  | version (major : Nat)
  | tagHandle (handle expansion : String)
  | directive
  | documentStart
  | documentEnd
  | streamEnd
  | blockSequenceStart
  | blockMappingStart
  | blockEnd
  | flowSequenceStart
  | flowSequenceEnd
  | flowMappingStart
  | flowMappingEnd
  | key
  | value
  | blockEntry
  | flowEntry
  | alias (name : String)
  | anchor (name : String)
  | tag (t : TagText)
  | scalar (text : String) (plain : Bool)
  deriving DecidableEq, Repr

def isNameChar (c : Char) : Bool := c.isAlphanum || c == '-' || c == '_'

def isUriChar (c : Char) : Bool := c.isAlphanum || "-;/?:@&=+$,_.!~*'()[]%".toList.contains c

namespace Cursor

/-- Passes over space and comments in front of a token; the flag says whether a line has ended. -/
def skipToToken (fuel : Nat) (crossed : Bool) (c : Cursor) : Bool × Cursor :=
  match fuel with
  | 0 => (crossed, c)
  | fuel + 1 =>
    let c := c.skipSpaces
    let c := if c.head? = some '#' then c.skipWhile (!isBreak ·) else c
    if c.headIs isBreak then skipToToken fuel true c.takeBreak.2 else (crossed, c)

def takeAnchor (c : Cursor) : Except ReadError (String × Cursor) :=
  let (name, c) := c.takeWhile isNameChar
  if name.isEmpty then .error .malformed
  else if c.endOr 0 fun ch => isGap ch || isBreak ch || "?:,]\x7d%@\x60".toList.contains ch then
    .ok (String.ofList name, c)
  else .error .malformed

/-- Reads percent-encoded bytes that follow one another; they have to be text. -/
def takeUriEscapes (fuel : Nat) (bytes : List UInt8) (c : Cursor) :
    Except ReadError (List Char × Cursor) :=
  match fuel with
  | 0 => .error .malformed
  | fuel + 1 =>
    if c.head? = some '%' then
      match (c.peek? 1).bind Text.hexValue?, (c.peek? 2).bind Text.hexValue? with
      | some a, some b => takeUriEscapes fuel (UInt8.ofNat (a * 16 + b) :: bytes) (forward 3 c)
      | _, _ => .error .malformed
    else
      match String.fromUTF8? ⟨bytes.reverse.toArray⟩ with
      | some s => .ok (s.toList, c)
      | none => .error .malformed

/-- Reads what may stand in a tag; `read` is what has been read, in reverse. -/
def takeUri (fuel : Nat) (read : List Char) (c : Cursor) : Except ReadError (String × Cursor) :=
  match fuel with
  | 0 => .error .malformed
  | fuel + 1 =>
    match c.head? with
    | some ch =>
      if ch = '%' then do
        let (decoded, c) ← c.takeUriEscapes c.budget []
        takeUri fuel (decoded.reverse ++ read) c
      else if isUriChar ch then takeUri fuel (ch :: read) c.next
      else if read.isEmpty then .error .malformed
      else .ok (String.ofList read.reverse, c)
    | none => if read.isEmpty then .error .malformed else .ok (String.ofList read.reverse, c)

/-- Reads a tag handle, from one exclamation mark to another or just the one. -/
def takeTagHandle (c : Cursor) : Except ReadError (String × Cursor) :=
  if c.head? ≠ some '!' then .error .malformed
  else if c.peek? 1 = some ' ' then .ok ("!", c.next)
  else
    let (name, after) := c.next.takeWhile isNameChar
    if after.head? = some '!' then .ok ("!" ++ String.ofList name ++ "!", after.next)
    else .error .malformed

/-- Whether another exclamation mark stands in the word that a tag begins. -/
def hasSecondMark (c : Cursor) : Bool :=
  (c.next.rest.takeWhile fun ch => ch != ' ' && !isBreak ch).contains '!'

def takeTag (c : Cursor) : Except ReadError (TagText × Cursor) := do
  let (t, c) ← (if c.peek? 1 = some '<' then do
      let (suffix, c) ← takeUri c.budget [] (forward 2 c)
      if c.head? = some '>' then return (⟨none, suffix⟩, c.next) else throw .malformed
    else if c.gapOrEnd 1 then return (⟨none, "!"⟩, c.next)
    else do
      let (handle, c) ← if c.hasSecondMark then c.takeTagHandle else .ok ("!", c.next)
      let (suffix, c) ← takeUri c.budget [] c
      return (⟨some handle, suffix⟩, c) : Except ReadError (TagText × Cursor))
  if c.spaceOrEnd then return (t, c) else throw .malformed

def numberOfDigits (digits : List Char) : Except ReadError Nat :=
  if digits.isEmpty then .error .malformed
  else if digits.length ≤ Decimal.digitLimit then
    .ok (Decimal.valueInBase 10 (digits.map fun d => d.toNat - '0'.toNat))
  else .error (.fault .badNumber)

def takeNumber (c : Cursor) : Except ReadError (Nat × Cursor) := do
  let (digits, c) := c.takeWhile Char.isDigit
  return (← numberOfDigits digits, c)

def takeDirective (c : Cursor) : Except ReadError (Token × Cursor) := do
  let (name, c) := c.takeWhile isNameChar
  if name.isEmpty || !c.spaceOrEnd then throw .malformed
  let (token, c) ← (match String.ofList name with
    | "YAML" => do
      let (major, c) ← c.skipSpaces.takeNumber
      if c.head? ≠ some '.' then throw .malformed
      let (_, c) ← c.next.takeNumber
      if c.spaceOrEnd then return (.version major, c) else throw .malformed
    | "TAG" => do
      let (handle, c) ← c.skipSpaces.takeTagHandle
      if c.head? ≠ some ' ' then throw .malformed
      let c := c.skipSpaces
      let (expansion, c) ← takeUri c.budget [] c
      if c.spaceOrEnd then return (.tagHandle handle expansion, c) else throw .malformed
    | _ => return (.directive, c.skipWhile (!isBreak ·)) : Except ReadError (Token × Cursor))
  return (token, ← c.skipLineEnd)

end Cursor

end RouteCatalog.Yaml
