import RouteCatalog.Text.Quoted
import RouteCatalog.Yaml.Cursor

/-! The text of scalars: block scalars, quoted scalars and plain ones. Single line breaks inside
a folded, quoted or plain scalar become spaces. -/

namespace RouteCatalog.Yaml

open Text

/-- What a block scalar does with the breaks at its end. -/
inductive Chomping where
  | strip
  | clip
  | keep
  deriving DecidableEq, Repr

namespace Cursor

/-- An upper bound on the number of steps that reading on from here takes. -/
def budget (c : Cursor) : Nat := c.rest.length + 1

def takeChomping (c : Cursor) : Option Chomping × Cursor :=
  match c.head? with
  | some '+' => (some .keep, c.next)
  | some '-' => (some .strip, c.next)
  | _ => (none, c)

/-- The number of columns by which a block scalar is indented; zero is refused. -/
def takeIncrement (c : Cursor) : Except ReadError (Option Nat × Cursor) :=
  match c.head? with
  | some ch =>
    if '0' ≤ ch ∧ ch ≤ '9' then
      if ch = '0' then .error .malformed else .ok (some (ch.toNat - '0'.toNat), c.next)
    else .ok (none, c)
  | none => .ok (none, c)

/-- The chomping and the indentation of a block scalar, in either order. -/
def takeBlockHeader (c : Cursor) : Except ReadError (Chomping × Option Nat × Cursor) := do
  let (first, c) := c.takeChomping
  let (increment, c) ← c.takeIncrement
  let (second, c) := if first.isNone && increment.isSome then c.takeChomping else (none, c)
  if c.spaceOrEnd then return ((first.or second).getD .clip, increment, c) else throw .malformed

/-- Passes over empty lines in front of a block scalar; gives the breaks in reverse and the
widest indentation. -/
def takeLeadingBreaks (fuel : Nat) (breaks : List Char) (widest : Nat) (c : Cursor) :
    List Char × Nat × Cursor :=
  match fuel with
  | 0 => (breaks, widest, c)
  | fuel + 1 =>
    if c.head? = some ' ' then
      let c := c.next
      takeLeadingBreaks fuel breaks (max widest c.column) c
    else if c.headIs isBreak then
      let (b, c) := c.takeBreak
      takeLeadingBreaks fuel (b.reverse ++ breaks) widest c
    else (breaks, widest, c)

def skipIndent (indent : Nat) (c : Cursor) : Cursor :=
  forward (min (indent - c.column) (c.rest.takeWhile (· == ' ')).length) c

def takeBlockBreaks (fuel indent : Nat) (breaks : List Char) (c : Cursor) : List Char × Cursor :=
  match fuel with
  | 0 => (breaks, c)
  | fuel + 1 =>
    let c := c.skipIndent indent
    if c.headIs isBreak then
      let (b, c) := c.takeBreak
      takeBlockBreaks fuel indent (b.reverse ++ breaks) c
    else (breaks, c)

/-- Reads the lines of a block scalar. `breaks` are the breaks before the next line and `read` is
what stands before them, both in reverse. -/
def takeBlockLines (fuel indent : Nat) (folded : Bool) (breaks read : List Char) (c : Cursor) :
    List Char × List Char × List Char × Cursor :=
  match fuel with
  | 0 => (read, [], breaks, c)
  | fuel + 1 =>
    if c.column = indent ∧ !c.atEnd then
      let startsText := !c.headIs isGap
      let (line, c) := c.takeWhile (!isBreak ·)
      let read := line.reverse ++ (breaks ++ read)
      let (lineBreak, c) := c.takeBreak
      let (breaks, c) := c.takeBlockBreaks c.budget indent []
      if c.column = indent ∧ !c.atEnd then
        let joint :=
          if folded && lineBreak == ['\n'] && startsText && !c.headIs isGap then
            if breaks.isEmpty then [' '] else []
          else lineBreak
        takeBlockLines fuel indent folded breaks (joint.reverse ++ read) c
      else (read, lineBreak, breaks, c)
    else (read, [], breaks, c)

/-- Reads a block scalar after its indicator; `parent` is the indentation around it. -/
def takeBlockScalar (parent : Int) (folded : Bool) (c : Cursor) :
    Except ReadError (List Char × Cursor) := do
  let (chomping, increment, c) ← c.takeBlockHeader
  let c ← c.skipLineEnd
  let least := (max (parent + 1) 1).toNat
  let (indent, breaks, c) :=
    match increment with
    | none =>
      let (breaks, widest, c) := c.takeLeadingBreaks c.budget [] 0
      (max least widest, breaks, c)
    | some n =>
      let indent := least + n - 1
      let (breaks, c) := c.takeBlockBreaks c.budget indent []
      (indent, breaks, c)
  let (read, lineBreak, breaks, c) := c.takeBlockLines c.budget indent folded breaks []
  let ending := match chomping with
    | .strip => []
    | .clip => lineBreak
    | .keep => lineBreak ++ breaks.reverse
  return (read.reverse ++ ending, c)

def shortEscapes : List (Char × Char) :=
  [('0', '\x00'), ('a', '\x07'), ('b', '\x08'), ('t', '\t'), ('\t', '\t'), ('n', '\n'),
    ('v', '\x0b'), ('f', '\x0c'), ('r', '\r'), ('e', '\x1b'), (' ', ' '), ('"', '"'),
    ('\\', '\\'), ('/', '/'), ('N', '\x85'), ('_', '\u00a0'), ('L', '\u2028'), ('P', '\u2029')]

/-- The number of hexadecimal digits after a letter that introduces a code point. -/
def codeWidth? : Char → Option Nat
  | 'x' => some 2
  | 'u' => some 4
  | 'U' => some 8
  | _ => none

/-- The character with a code point; one that is a surrogate becomes the replacement
character. -/
def charOfCode (n : Nat) : Except ReadError Char :=
  if n ≥ 0x80000000 then .error (.fault .hugeCodePoint)
  else if n > 0x10FFFF then .error (.fault .badCodePoint)
  else if 0xD800 ≤ n ∧ n < 0xE000 then .ok '\uFFFD'
  else .ok (Char.ofNat n)

def takeQuotedBreaks (fuel : Nat) (breaks : List Char) (c : Cursor) :
    Except ReadError (List Char × Cursor) :=
  match fuel with
  | 0 => .ok (breaks, c)
  | fuel + 1 =>
    if c.atDocumentMark then .error .malformed
    else
      let c := c.skipWhile isGap
      if c.headIs isBreak then
        let (b, c) := c.takeBreak
        takeQuotedBreaks fuel (b.reverse ++ breaks) c
      else .ok (breaks, c)

/-- Reads an escape after its backslash; gives what it stands for in reverse. -/
def takeEscape (c : Cursor) : Except ReadError (List Char × Cursor) :=
  match c.head? with
  | none => .error .malformed
  | some ch =>
    match shortEscapes.find? (·.1 == ch), codeWidth? ch with
    | some (_, meaning), _ => .ok ([meaning], c.next)
    | none, some width =>
      let c := c.next
      match (c.rest.take width).mapM hexValue? with
      | some digits =>
        if digits.length = width then do
          let meaning ← charOfCode (digits.foldl (fun n d => n * 16 + d) 0)
          return ([meaning], forward width c)
        else .error .malformed
      | none => .error .malformed
    | none, none =>
      if isBreak ch then c.takeBreak.2.takeQuotedBreaks c.budget [] else .error .malformed

def takeQuoted (fuel : Nat) (quote : Char) (read : List Char) (c : Cursor) :
    Except ReadError (List Char × Cursor) :=
  match fuel with
  | 0 => .error .malformed
  | fuel + 1 =>
    match c.head? with
    | none => .error .malformed
    | some ch =>
      if ch = quote then
        if quote = '\'' ∧ c.peek? 1 = some '\'' then takeQuoted fuel quote ('\'' :: read) (forward 2 c)
        else .ok (read.reverse, c.next)
      else if quote = '"' ∧ ch = '\\' then do
        let (meaning, c) ← c.next.takeEscape
        takeQuoted fuel quote (meaning ++ read) c
      else if isGap ch ∨ isBreak ch then do
        let (gap, c) := c.takeWhile isGap
        if c.atEnd then throw .malformed
        else if c.headIs isBreak then
          let (lineBreak, c) := c.takeBreak
          let (breaks, c) ← c.takeQuotedBreaks c.budget []
          let joint :=
            if lineBreak != ['\n'] then lineBreak else if breaks.isEmpty then [' '] else []
          takeQuoted fuel quote (breaks ++ (joint.reverse ++ read)) c
        else takeQuoted fuel quote (gap.reverse ++ read) c
      else takeQuoted fuel quote (ch :: read) c.next

/-- Passes over blank lines inside a plain scalar, up to a document mark. -/
def takePlainBreaks (fuel : Nat) (breaks : List Char) (c : Cursor) : Option (List Char) × Cursor :=
  match fuel with
  | 0 => (some breaks, c)
  | fuel + 1 =>
    if c.head? = some ' ' then takePlainBreaks fuel breaks c.next
    else if c.headIs isBreak then
      let (b, c) := c.takeBreak
      if c.atDocumentMark then (none, c) else takePlainBreaks fuel (b.reverse ++ breaks) c
    else (some breaks, c)

/-- Passes over the space between two parts of a plain scalar. Gives what it counts as, which is
nothing before a document mark, and whether it has a line break. -/
def takePlainSpace (c : Cursor) : List Char × Bool × Cursor :=
  let (gap, c) := c.takeWhile (· == ' ')
  if c.headIs isBreak then
    let (lineBreak, c) := c.takeBreak
    if c.atDocumentMark then ([], true, c)
    else
      match c.takePlainBreaks c.budget [] with
      | (none, c) => ([], true, c)
      | (some breaks, c) =>
        let joint :=
          if lineBreak != ['\n'] then lineBreak else if breaks.isEmpty then [' '] else []
        (joint ++ breaks.reverse, true, c)
  else (gap, false, c)

def isFlowMark (c : Char) : Bool := c == ',' || c == '[' || c == ']' || c == '{' || c == '}'

/-- The length of the part of a plain scalar that begins here. -/
def plainLength (inFlow : Bool) : List Char → Nat
  | [] => 0
  | ch :: rest =>
    let colonEnds := ch == ':' &&
      rest.head?.all fun d => isGap d || isBreak d || (inFlow && isFlowMark d)
    if isGap ch || isBreak ch || colonEnds || (inFlow && (isFlowMark ch || ch == '?')) then 0
    else plainLength inFlow rest + 1

/-- Reads the parts of a plain scalar. `space` is what stands before the next part and `read`
what stands before that, in reverse; the flag says whether a line break ended the scalar. -/
def takePlain (fuel : Nat) (inFlow : Bool) (indent : Int) (space read : List Char)
    (crossed : Bool) (c : Cursor) : List Char × Bool × Cursor :=
  match fuel with
  | 0 => (read.reverse, crossed, c)
  | fuel + 1 =>
    let length := plainLength inFlow c.rest
    if c.head? = some '#' ∨ length = 0 then (read.reverse, crossed, c)
    else
      let read := (c.rest.take length).reverse ++ (space.reverse ++ read)
      let (space, crossed, c) := (forward length c).takePlainSpace
      if space.isEmpty ∨ c.head? = some '#' ∨ !inFlow ∧ (c.column : Int) < indent then
        (read.reverse, crossed, c)
      else takePlain fuel inFlow indent space read crossed c

end Cursor

end RouteCatalog.Yaml
