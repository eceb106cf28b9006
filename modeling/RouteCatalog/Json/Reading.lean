import RouteCatalog.Document.Basic
import RouteCatalog.Decimal.Reading
import RouteCatalog.Text.Pieces
import RouteCatalog.Text.Quoted

/-! Reading a document from JSON. Besides the standard the names `NaN`, `Infinity` and `-Infinity`
are read as numbers. Every array and object becomes a node of its own; a repeated key keeps its
first place and its last value. Values may be nested to any depth, as no limit of a stack is modelled,
and an escape for half of a surrogate pair alone stands for the replacement character. -/

namespace RouteCatalog.Json

open Text Decimal

inductive ReadError where
  /-- The text is not JSON. -/
  | malformed
  /-- A whole number has more digits than are read. -/
  | oversizedNumber
  deriving DecidableEq, Repr

def isSpace (c : Char) : Bool := c == ' ' || c == '\t' || c == '\n' || c == '\r'

def skipSpace (cs : List Char) : List Char := cs.dropWhile isSpace

def isDigit (c : Char) : Bool := '0' ≤ c && c ≤ '9'

/-- Splits off the digits of a whole number, which has no leading zero. -/
def takeWhole : List Char → Option (List Char × List Char)
  | '0' :: rest => some (['0'], rest)
  | cs =>
    let digits := cs.takeWhile isDigit
    if digits.isEmpty then none else some (digits, cs.dropWhile isDigit)

/-- Splits off a point and at least one digit; gives no digits if they do not come next. -/
def takeFraction : List Char → List Char × List Char
  | '.' :: rest =>
    let digits := rest.takeWhile isDigit
    if digits.isEmpty then ([], '.' :: rest) else (digits, rest.dropWhile isDigit)
  | cs => ([], cs)

/-- Splits off an exponent; gives none if it has no digits. -/
def takeExponent (cs : List Char) : Option Int × List Char :=
  match cs with
  | e :: rest =>
    if e = 'e' ∨ e = 'E' then
      let (negative, body) := takeSign rest
      let digits := body.takeWhile isDigit
      if digits.isEmpty then (none, cs)
      else
        let n := valueInBase 10 (digits.map fun c => c.toNat - '0'.toNat)
        (some (applySign negative n), body.dropWhile isDigit)
    else (none, cs)
  | [] => (none, cs)

/-- Reads a number; it is whole if it has neither a fraction nor an exponent. -/
def takeNumber (cs : List Char) : Except ReadError (Value × List Char) :=
  let (negative, body) : Bool × List Char := match cs with
    | '-' :: rest => (true, rest)
    | _ => (false, cs)
  match takeWhole body with
  | none => .error .malformed
  | some (whole, rest) =>
    let (fraction, rest) := takeFraction rest
    let (exponent?, rest) := takeExponent rest
    let digits := (whole ++ fraction).map fun c => c.toNat - '0'.toNat
    if fraction.isEmpty && exponent?.isNone then
      if whole.length ≤ digitLimit then
        .ok (.int (applySign negative (valueInBase 10 digits)), rest)
      else .error .oversizedNumber
    else
      let x := nearestFloat (valueInBase 10 digits) (exponent?.getD 0 - fraction.length)
      .ok (.float (if negative then -x else x), rest)

def namedValues : List (List Char × Value) := [
  ("null".toList, .null), ("true".toList, .bool true), ("false".toList, .bool false),
  ("NaN".toList, .float (0 / 0)), ("Infinity".toList, .float (1 / 0)),
  ("-Infinity".toList, .float (-1 / 0))]

def takeScalar (cs : List Char) : Except ReadError (Value × List Char) :=
  match cs with
  | '"' :: rest =>
    match Quoted.readBody [] rest with
    | some (body, rest) => .ok (.text (String.ofList body), rest)
    | none => .error .malformed
  | _ =>
    match namedValues.findSome? fun (name, v) => (after? name cs).map fun rest => (v, rest) with
    | some result => .ok result
    | none => takeNumber cs

/-- A collection that has been opened and not yet closed; what it holds stands in reverse. -/
inductive Open where
  | array (items : List Value)
  | object (entries : List Entry) (key : String)

inductive Expecting where
  | value
  | valueOrClose
  | key
  | keyOrClose
  | separator

structure State where
  doc : Document
  opened : List Open
  expecting : Expecting
  /-- The value that has just been completed. -/
  last : Value

def State.complete (s : State) (v : Value) : State :=
  match s.opened with
  | [] => { s with expecting := .separator, last := v }
  | .array items :: rest => { s with opened := .array (v :: items) :: rest, expecting := .separator }
  | .object entries key :: rest =>
    { s with opened := .object ((.text key, v) :: entries) key :: rest, expecting := .separator }

/-- Closes the innermost collection, which becomes a node of the document. -/
def State.close (s : State) (n : Node) (rest : List Open) : State :=
  let (id, doc) := s.doc.add n
  { s with doc := doc, opened := rest }.complete (.node id)

def takeKey (cs : List Char) : Option (String × List Char) :=
  match cs with
  | '"' :: rest => do
    let (body, rest) ← Quoted.readBody [] rest
    match skipSpace rest with
    | ':' :: rest => some (String.ofList body, rest)
    | _ => none
  | _ => none

/-- One step of reading from a text that begins with no space: the next bracket, separator, key
or scalar. -/
def State.step (s : State) (cs : List Char) : Except ReadError (State × List Char) :=
  match s.expecting, s.opened, cs with
  | .valueOrClose, .array items :: rest, ']' :: cs => .ok (s.close (.list items.reverse) rest, cs)
  | .separator, .array items :: rest, ']' :: cs => .ok (s.close (.list items.reverse) rest, cs)
  | .separator, .array _ :: _, ',' :: cs => .ok ({ s with expecting := .value }, cs)
  | .keyOrClose, .object entries _ :: rest, '}' :: cs =>
    .ok (s.close (.mapping (Entries.ofPairs entries.reverse)) rest, cs)
  | .separator, .object entries _ :: rest, '}' :: cs =>
    .ok (s.close (.mapping (Entries.ofPairs entries.reverse)) rest, cs)
  | .separator, .object _ _ :: _, ',' :: cs => .ok ({ s with expecting := .key }, cs)
  | .key, .object entries _ :: rest, cs | .keyOrClose, .object entries _ :: rest, cs =>
    match takeKey cs with
    | some (key, cs) => .ok ({ s with opened := .object entries key :: rest, expecting := .value }, cs)
    | none => .error .malformed
  | .value, opened, '[' :: cs | .valueOrClose, opened, '[' :: cs =>
    .ok ({ s with opened := .array [] :: opened, expecting := .valueOrClose }, cs)
  | .value, opened, '{' :: cs | .valueOrClose, opened, '{' :: cs =>
    .ok ({ s with opened := .object [] "" :: opened, expecting := .keyOrClose }, cs)
  | .value, _, cs | .valueOrClose, _, cs => do
    let (v, cs) ← takeScalar cs
    return (s.complete v, cs)
  | _, _, _ => .error .malformed

/-- Takes steps until one value is complete and only space is left. Each step takes at least one
character, so `fuel` above the length of the text is never used up. -/
def run (fuel : Nat) (s : State) (cs : List Char) : Except ReadError State :=
  match fuel with
  | 0 => .error .malformed
  | fuel + 1 =>
    let cs := skipSpace cs
    match s.expecting, s.opened, cs with
    | .separator, [], [] => .ok s
    | _, _, _ => do
      let (s, cs) ← s.step cs
      run fuel s cs

def read (doc : Document) (s : String) : Except ReadError (Value × Document) := do
  let final ← run (s.length + 2) ⟨doc, [], .value, .null⟩ s.toList
  return (final.last, final.doc)

end RouteCatalog.Json
