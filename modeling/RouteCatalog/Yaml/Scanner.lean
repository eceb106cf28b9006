import RouteCatalog.Yaml.Token

/-! From characters to tokens. Indentation is made explicit: a block collection begins and ends
with a token of its own. A key that is not marked is only recognized at the colon after it, so its
token is inserted where the key began. -/

namespace RouteCatalog.Yaml

/-- A place where a key may have begun. A required one has to turn out to be a key. -/
structure PossibleKey where
  position : Nat
  required : Bool
  index : Nat
  line : Nat
  column : Nat
  deriving Repr

structure Scanner where
  cursor : Cursor
  tokens : Array Token := #[]
  /-- The number of flow collections that are open. -/
  flowLevel : Nat := 0
  indent : Int := -1
  indents : List Int := []
  keyAllowed : Bool := true
  /-- At most one possible key for every flow level. -/
  keys : List (Nat × PossibleKey) := []

namespace Scanner

def key? (s : Scanner) : Option PossibleKey :=
  (s.keys.find? (·.1 == s.flowLevel)).map Prod.snd

def dropKey (s : Scanner) : Scanner :=
  { s with keys := s.keys.filter (·.1 != s.flowLevel) }

def removeKey (s : Scanner) : Except ReadError Scanner :=
  match s.key? with
  | some k => if k.required then .error .malformed else .ok s.dropKey
  | none => .ok s

def saveKey (s : Scanner) : Except ReadError Scanner :=
  if s.keyAllowed then do
    let required := s.flowLevel == 0 && s.indent == s.cursor.column
    let s ← s.removeKey
    let key : PossibleKey :=
      ⟨s.tokens.size, required, s.cursor.index, s.cursor.line, s.cursor.column⟩
    return { s with keys := (s.flowLevel, key) :: s.keys }
  else .ok s

/-- Gives up the possible keys that are on an earlier line or too far back. -/
def dropStaleKeys (s : Scanner) : Except ReadError Scanner :=
  let isStale (k : PossibleKey) := k.line != s.cursor.line || s.cursor.index - k.index > 1024
  if s.keys.any fun k => isStale k.2 && k.2.required then .error .malformed
  else .ok { s with keys := s.keys.filter fun k => !isStale k.2 }

def push (s : Scanner) (t : Token) : Scanner := { s with tokens := s.tokens.push t }

/-- Passes over the next `n` characters, which are the token `t`. -/
def advance (s : Scanner) (n : Nat) (t : Token) : Scanner :=
  { s.push t with cursor := Cursor.forward n s.cursor }

/-- Closes block collections while they are indented further than a column. -/
def closeBlocks (column : Int) (indent : Int) (tokens : Array Token) :
    List Int → Int × List Int × Array Token
  | [] => (indent, [], tokens)
  | outer :: rest =>
    if indent > column then closeBlocks column outer (tokens.push .blockEnd) rest
    else (indent, outer :: rest, tokens)

/-- Outside flow collections, closes the block collections that a column is not part of. -/
def unwind (s : Scanner) (column : Int) : Scanner :=
  if s.flowLevel ≠ 0 then s
  else
    let (indent, indents, tokens) := closeBlocks column s.indent s.tokens s.indents
    { s with indent := indent, indents := indents, tokens := tokens }

def insertToken (s : Scanner) (position : Nat) (t : Token) : Scanner :=
  { s with tokens := s.tokens.extract 0 position ++ #[t] ++ s.tokens.extract position }

/-- Begins a block collection at a column, unless one is open there; its token is inserted at a
position. -/
def openBlock (s : Scanner) (column : Nat) (t : Token) (position : Nat) : Scanner :=
  if s.indent < column then
    { s.insertToken position t with indent := column, indents := s.indent :: s.indents }
  else s

/-- A block entry, a marked key or a value without a key has to stand where a key may; it may
begin a collection. -/
def beginBlock (s : Scanner) (t : Token) : Except ReadError Scanner :=
  if s.flowLevel ≠ 0 then .ok s
  else if s.keyAllowed then .ok (s.openBlock s.cursor.column t s.tokens.size)
  else .error .malformed

def scanBlockEntry (s : Scanner) : Except ReadError Scanner := do
  let s ← s.beginBlock .blockSequenceStart
  let s ← { s with keyAllowed := true }.removeKey
  return s.advance 1 .blockEntry

def scanKey (s : Scanner) : Except ReadError Scanner := do
  let s ← s.beginBlock .blockMappingStart
  let s ← { s with keyAllowed := s.flowLevel == 0 }.removeKey
  return s.advance 1 .key

/-- A colon turns a possible key into one. -/
def scanValue (s : Scanner) : Except ReadError Scanner :=
  match s.key? with
  | some k =>
    let s := s.dropKey.insertToken k.position .key
    let s := if s.flowLevel = 0 then s.openBlock k.column .blockMappingStart k.position else s
    .ok ({ s with keyAllowed := false }.advance 1 .value)
  | none => do
    let s ← s.beginBlock .blockMappingStart
    let s ← { s with keyAllowed := s.flowLevel == 0 }.removeKey
    return s.advance 1 .value

def scanFlowStart (s : Scanner) (t : Token) : Except ReadError Scanner := do
  let s ← s.saveKey
  return { s with flowLevel := s.flowLevel + 1, keyAllowed := true }.advance 1 t

/-- The end of a flow collection; without an open one it has no place. -/
def scanFlowEnd (s : Scanner) (t : Token) : Except ReadError Scanner := do
  let s ← s.removeKey
  if s.flowLevel = 0 then throw .malformed
  return { s with flowLevel := s.flowLevel - 1, keyAllowed := false }.advance 1 t

def scanFlowEntry (s : Scanner) : Except ReadError Scanner := do
  let s ← { s with keyAllowed := true }.removeKey
  return s.advance 1 .flowEntry

/-- Ends all blocks before something that concerns the whole document. -/
def endContent (s : Scanner) : Except ReadError Scanner := do
  let s ← (s.unwind (-1)).removeKey
  return { s with keyAllowed := false }

def scanDocumentMark (s : Scanner) (t : Token) : Except ReadError Scanner := do
  return (← s.endContent).advance 3 t

def scanDirective (s : Scanner) : Except ReadError Scanner := do
  let s ← s.endContent
  let (t, c) ← s.cursor.next.takeDirective
  return { s.push t with cursor := c }

/-- Reads a token that may be a key or belong to one. -/
def scanNodePart (s : Scanner) (take : Cursor → Except ReadError (Token × Cursor)) :
    Except ReadError Scanner := do
  let s ← s.saveKey
  let (t, c) ← take s.cursor
  return { s.push t with cursor := c, keyAllowed := false }

def scanBlockScalar (s : Scanner) (folded : Bool) : Except ReadError Scanner := do
  let s ← { s with keyAllowed := true }.removeKey
  let (text, c) ← s.cursor.next.takeBlockScalar s.indent folded
  return { s.push (.scalar (String.ofList text) false) with cursor := c }

def scanPlain (s : Scanner) : Except ReadError Scanner := do
  let s ← s.saveKey
  let c := s.cursor
  let (text, crossed, c) := c.takePlain c.budget (s.flowLevel != 0) (s.indent + 1) [] [] false
  return { s.push (.scalar (String.ofList text) true) with cursor := c, keyAllowed := crossed }

def takeQuotedToken (quote : Char) (c : Cursor) : Except ReadError (Token × Cursor) := do
  let (text, c) ← Cursor.takeQuoted c.budget quote [] c.next
  return (.scalar (String.ofList text) false, c)

def startsPlain (s : Scanner) (ch : Char) : Bool :=
  let c := s.cursor
  if isGap ch || isBreak ch then false
  else if !"-?:,[]\x7b\x7d#&*!|>'\"%@\x60".toList.contains ch then true
  else !c.gapOrEnd 1 && (ch == '-' || (s.flowLevel == 0 && (ch == '?' || ch == ':')))

def scanToken (s : Scanner) (ch : Char) : Except ReadError Scanner :=
  let c := s.cursor
  if ch = '%' ∧ c.column = 0 then s.scanDirective
  else if c.column = 0 ∧ c.atMark '-' then s.scanDocumentMark .documentStart
  else if c.column = 0 ∧ c.atMark '.' then s.scanDocumentMark .documentEnd
  else if ch = '[' then s.scanFlowStart .flowSequenceStart
  else if ch = '{' then s.scanFlowStart .flowMappingStart
  else if ch = ']' then s.scanFlowEnd .flowSequenceEnd
  else if ch = '}' then s.scanFlowEnd .flowMappingEnd
  else if ch = ',' then s.scanFlowEntry
  else if ch = '-' ∧ c.gapOrEnd 1 then s.scanBlockEntry
  else if ch = '?' ∧ (s.flowLevel ≠ 0 ∨ c.gapOrEnd 1) then s.scanKey
  else if ch = ':' ∧ (s.flowLevel ≠ 0 ∨ c.gapOrEnd 1) then s.scanValue
  else if ch = '*' then s.scanNodePart fun c => do
    let (name, c) ← c.next.takeAnchor
    return (.alias name, c)
  else if ch = '&' then s.scanNodePart fun c => do
    let (name, c) ← c.next.takeAnchor
    return (.anchor name, c)
  else if ch = '!' then s.scanNodePart fun c => do
    let (t, c) ← c.takeTag
    return (.tag t, c)
  else if ch = '|' ∧ s.flowLevel = 0 then s.scanBlockScalar false
  else if ch = '>' ∧ s.flowLevel = 0 then s.scanBlockScalar true
  else if ch = '\'' ∨ ch = '"' then s.scanNodePart (takeQuotedToken ch)
  else if s.startsPlain ch then s.scanPlain
  else .error .malformed

def scanNext (s : Scanner) : Except ReadError Scanner := do
  let (crossed, c) := s.cursor.skipToToken s.cursor.budget false
  let allowed := s.keyAllowed || (crossed && s.flowLevel == 0)
  let s ← { s with cursor := c, keyAllowed := allowed }.dropStaleKeys
  let s := s.unwind c.column
  match c.head? with
  | some ch => s.scanToken ch
  | none => return (← s.endContent).push .streamEnd

/-- Reads all tokens. If reading fails, the tokens before the failure come with it. Every token
but the last takes a character at least, so `fuel` above the length of the text is enough. -/
def run (fuel : Nat) (s : Scanner) : Array Token × Option ReadError :=
  match fuel with
  | 0 => (s.tokens, some .malformed)
  | fuel + 1 =>
    match s.scanNext with
    | .error e => (s.tokens, some e)
    | .ok s => if s.tokens.back? = some .streamEnd then (s.tokens, none) else run fuel s

end Scanner

/-- The tokens of a text, and what keeps the rest of it from being read. -/
def tokenize (text : String) : Array Token × Option ReadError :=
  if text.toList.all isAdmissible then
    let cs := if text.toList.head? = some '\uFEFF' then text.toList.drop 1 else text.toList
    Scanner.run (cs.length + 2) { cursor := .ofText cs }
  else (#[], some .malformed)

end RouteCatalog.Yaml
