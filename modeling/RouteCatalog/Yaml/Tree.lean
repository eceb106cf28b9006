import RouteCatalog.Yaml.Scanner
import RouteCatalog.Yaml.Tag

/-! The nodes of a YAML text with their tags. A node that is anchored and referred to is one node
in several places, so the nodes are kept in a table. -/

namespace RouteCatalog.Yaml

abbrev TreeId := Nat

inductive TreeNode where
  | scalar (tag : String) (text : String)
  | sequence (tag : String) (items : List TreeId)
  | mapping (tag : String) (pairs : List (TreeId × TreeId))
  deriving DecidableEq, Repr

abbrev Tree := Array TreeNode

/-- What is known while nodes are made from tokens. -/
structure TreeState where
  tokens : List Token
  tree : Tree := #[]
  anchors : List (String × TreeId) := []
  /-- What the handles of tags stand for. -/
  handles : List (String × String) := []
  /-- What keeps the text behind the tokens from being read. -/
  failure : ReadError := .malformed

namespace TreeState

/-- The next token; if there is none the text could not be read further. -/
def head (s : TreeState) : Except ReadError Token :=
  match s.tokens with
  | t :: _ => .ok t
  | [] => .error s.failure

def drop (s : TreeState) : TreeState := { s with tokens := s.tokens.drop 1 }

def accept (s : TreeState) (t : Token) : Except ReadError (Bool × TreeState) := do
  return if (← s.head) = t then (true, s.drop) else (false, s)

def expect (s : TreeState) (t : Token) : Except ReadError TreeState := do
  if (← s.head) = t then return s.drop else throw .malformed

def add (s : TreeState) (n : TreeNode) : TreeId × TreeState :=
  (s.tree.size, { s with tree := s.tree.push n })

def put (s : TreeState) (id : TreeId) (n : TreeNode) : TreeState :=
  { s with tree := s.tree.setIfInBounds id n }

/-- Gives a node its name. A name is given once. -/
def nameNode (s : TreeState) (name : Option String) (id : TreeId) :
    Except ReadError TreeState :=
  match name with
  | none => .ok s
  | some name =>
    if s.anchors.any (·.1 == name) then .error .malformed
    else .ok { s with anchors := (name, id) :: s.anchors }

def addScalar (s : TreeState) (name : Option String) (tag text : String) :
    Except ReadError (TreeId × TreeState) := do
  let (id, s) := s.add (.scalar tag text)
  return (id, ← s.nameNode name id)

/-- A scalar that is not written. -/
def addEmpty (s : TreeState) : TreeId × TreeState := s.add (.scalar Tag.null "")

def fullTag (s : TreeState) (t : TagText) : Except ReadError String :=
  match t.handle with
  | none => .ok t.suffix
  | some handle =>
    match s.handles.find? (·.1 == handle) with
    | some (_, expansion) => .ok (expansion ++ t.suffix)
    | none => .error .malformed

/-- Reads the anchor and the tag in front of a node, in either order. -/
def takeProperties (s : TreeState) :
    Except ReadError (Option String × Option String × TreeState) := do
  match ← s.head with
  | .anchor name =>
    let s := s.drop
    match ← s.head with
    | .tag t => return (some name, some (← s.fullTag t), s.drop)
    | _ => return (some name, none, s)
  | .tag t =>
    let s := s.drop
    match ← s.head with
    | .anchor name =>
      let s := s.drop
      return (some name, some (← s.fullTag t), s)
    | _ => return (none, some (← s.fullTag t), s)
  | _ => return (none, none, s)

end TreeState

/-- Where a node stands: in a block, in a block where a sequence need not be indented, or in a
flow collection. -/
inductive Setting where
  | block
  | blockValue
  | flow
  deriving DecidableEq, Repr

namespace TreeState

/-- Reads a node unless one of the tokens in `ends` says that it is not written. -/
def nodeUnless (node : TreeState → Except ReadError (TreeId × TreeState)) (s : TreeState)
    (ends : List Token) : Except ReadError (TreeId × TreeState) := do
  if ends.contains (← s.head) then return s.addEmpty else node s

/-- Reads the value of a key, which may be left out together with its colon. -/
def takeValue (node : TreeState → Except ReadError (TreeId × TreeState)) (s : TreeState)
    (ends : List Token) : Except ReadError (TreeId × TreeState) := do
  let (marked, s) ← s.accept .value
  if marked then nodeUnless node s ends else return s.addEmpty

/-- Reads the items of a block sequence. An indented one has an end of its own. -/
def blockItems (node : TreeState → Except ReadError (TreeId × TreeState)) (ends : List Token) :
    (fuel : Nat) → (items : List TreeId) → TreeState → Except ReadError (List TreeId × TreeState)
  | 0, _, _ => .error .malformed
  | fuel + 1, items, s => do
    let (more, s) ← s.accept .blockEntry
    if more then
      let (id, s) ← nodeUnless node s ends
      blockItems node ends fuel (id :: items) s
    else return (items.reverse, s)

def blockPairs (node : TreeState → Except ReadError (TreeId × TreeState)) :
    (fuel : Nat) → (pairs : List (TreeId × TreeId)) → TreeState →
      Except ReadError (List (TreeId × TreeId) × TreeState)
  | 0, _, _ => .error .malformed
  | fuel + 1, pairs, s => do
    let (more, s) ← s.accept .key
    if more then
      let ends := [.key, .value, .blockEnd]
      let (key, s) ← nodeUnless node s ends
      let (value, s) ← takeValue node s ends
      blockPairs node fuel ((key, value) :: pairs) s
    else return (pairs.reverse, ← s.expect .blockEnd)

/-- Reads an item of a flow sequence; a marked key makes it a mapping of one pair. -/
def flowItem (node : TreeState → Except ReadError (TreeId × TreeState)) (s : TreeState) :
    Except ReadError (TreeId × TreeState) := do
  let (isPair, s) ← s.accept .key
  if isPair then
    let (id, s) := s.add (.mapping Tag.map [])
    let (key, s) ← nodeUnless node s [.value, .flowEntry, .flowSequenceEnd]
    let (value, s) ← takeValue node s [.flowEntry, .flowSequenceEnd]
    return (id, s.put id (.mapping Tag.map [(key, value)]))
  else node s

def flowItems (node : TreeState → Except ReadError (TreeId × TreeState)) :
    (fuel : Nat) → (items : List TreeId) → TreeState → Except ReadError (List TreeId × TreeState)
  | 0, _, _ => .error .malformed
  | fuel + 1, items, s => do
    let (closed, s) ← s.accept .flowSequenceEnd
    if closed then return (items.reverse, s)
    let s ← if items.isEmpty then .ok s else s.expect .flowEntry
    let (closed, s) ← s.accept .flowSequenceEnd
    if closed then return (items.reverse, s)
    let (id, s) ← flowItem node s
    flowItems node fuel (id :: items) s

/-- Reads a pair of a flow mapping; a key that is not followed by a colon has no value. -/
def flowPair (node : TreeState → Except ReadError (TreeId × TreeState)) (s : TreeState) :
    Except ReadError ((TreeId × TreeId) × TreeState) := do
  let (marked, s) ← s.accept .key
  if marked then
    let (key, s) ← nodeUnless node s [.value, .flowEntry, .flowMappingEnd]
    let (value, s) ← takeValue node s [.flowEntry, .flowMappingEnd]
    return ((key, value), s)
  else
    let (key, s) ← node s
    let (value, s) := s.addEmpty
    return ((key, value), s)

def flowPairs (node : TreeState → Except ReadError (TreeId × TreeState)) :
    (fuel : Nat) → (pairs : List (TreeId × TreeId)) → TreeState →
      Except ReadError (List (TreeId × TreeId) × TreeState)
  | 0, _, _ => .error .malformed
  | fuel + 1, pairs, s => do
    let (closed, s) ← s.accept .flowMappingEnd
    if closed then return (pairs.reverse, s)
    let s ← if pairs.isEmpty then .ok s else s.expect .flowEntry
    let (closed, s) ← s.accept .flowMappingEnd
    if closed then return (pairs.reverse, s)
    let (pair, s) ← flowPair node s
    flowPairs node fuel (pair :: pairs) s

/-- Reads a sequence whose first token has been read; its node is there before its items. -/
def sequenceNode (s : TreeState) (name tag : Option String)
    (items : TreeState → Except ReadError (List TreeId × TreeState)) :
    Except ReadError (TreeId × TreeState) := do
  let tag := Tag.orDefault Tag.seq tag
  let (id, s) := s.add (.sequence tag [])
  let s ← s.nameNode name id
  let (items, s) ← items s
  return (id, s.put id (.sequence tag items))

def mappingNode (s : TreeState) (name tag : Option String)
    (pairs : TreeState → Except ReadError (List (TreeId × TreeId) × TreeState)) :
    Except ReadError (TreeId × TreeState) := do
  let tag := Tag.orDefault Tag.map tag
  let (id, s) := s.add (.mapping tag [])
  let s ← s.nameNode name id
  let (pairs, s) ← pairs s
  return (id, s.put id (.mapping tag pairs))

/-- Reads one node. Every level takes a token, so `fuel` above their number is enough. -/
def node (fuel : Nat) (setting : Setting) (s : TreeState) :
    Except ReadError (TreeId × TreeState) :=
  match fuel with
  | 0 => .error .malformed
  | fuel + 1 => do
    if let .alias name ← s.head then
      match s.anchors.find? (·.1 == name) with
      | some (_, id) => return (id, s.drop)
      | none => throw .malformed
    let (name, tag, s) ← s.takeProperties
    let inFlow := node fuel .flow
    let inBlock := node fuel .block
    match ← s.head, setting with
    | .blockEntry, .blockValue =>
      s.sequenceNode name tag (blockItems inBlock [.blockEntry, .key, .value, .blockEnd] fuel [])
    | .scalar text plain, _ => s.drop.addScalar name (Tag.ofScalar tag plain text) text
    | .flowSequenceStart, _ => s.drop.sequenceNode name tag (flowItems inFlow fuel [])
    | .flowMappingStart, _ => s.drop.mappingNode name tag (flowPairs inFlow fuel [])
    | .blockSequenceStart, .block | .blockSequenceStart, .blockValue =>
      s.drop.sequenceNode name tag fun s => do
        let (items, s) ← blockItems inBlock [.blockEntry, .blockEnd] fuel [] s
        return (items, ← s.expect .blockEnd)
    | .blockMappingStart, .block | .blockMappingStart, .blockValue =>
      s.drop.mappingNode name tag (blockPairs (node fuel .blockValue) fuel [])
    | _, _ =>
      if name.isSome || tag.isSome then s.addScalar name (Tag.ofScalar tag true "") ""
      else throw .malformed

/-- Reads the directives in front of a document. A version and a handle are given once. -/
def takeDirectives (fuel : Nat) (versioned : Bool) (s : TreeState) :
    Except ReadError TreeState :=
  match fuel with
  | 0 => .error .malformed
  | fuel + 1 => do
    match ← s.head with
    | .version major =>
      if versioned || major != 1 then throw .malformed
      takeDirectives fuel true s.drop
    | .tagHandle handle expansion =>
      if s.handles.any (·.1 == handle) then throw .malformed
      takeDirectives fuel versioned
        { s.drop with handles := s.handles ++ [(handle, expansion)] }
    | .directive => takeDirectives fuel versioned s.drop
    | _ => return s

def withDefaultHandles (s : TreeState) : TreeState :=
  { s with handles := s.handles ++ [("!", "!"), ("!!", "tag:yaml.org,2002:")] }

def skipDocumentEnds (s : TreeState) : TreeState :=
  { s with tokens := s.tokens.dropWhile (· == .documentEnd) }

/-- Reads the content of a document that has been started by a mark. -/
def markedDocument (fuel : Nat) (s : TreeState) : Except ReadError (TreeId × TreeState) := do
  match ← s.head with
  | .documentStart | .documentEnd | .streamEnd | .version _ | .tagHandle .. | .directive =>
    return s.addEmpty
  | _ => node fuel .block s

/-- Reads a text of at most one document; it may have none. -/
def document (s : TreeState) : Except ReadError (Option TreeId × Tree) := do
  let fuel := s.tokens.length + 2
  let finish (id : TreeId) (s : TreeState) : Except ReadError (Option TreeId × Tree) := do
    if (← s.skipDocumentEnds.head) = .streamEnd then return (some id, s.tree) else throw .malformed
  match ← s.head with
  | .streamEnd => return (none, s.tree)
  | .documentStart | .version _ | .tagHandle .. | .directive =>
    let s ← (← takeDirectives fuel false s).withDefaultHandles.expect .documentStart
    let (id, s) ← markedDocument fuel s
    finish id s
  | _ =>
    let (id, s) ← node fuel .block s.withDefaultHandles
    finish id s

end TreeState

def Tree.ofText (text : String) : Except ReadError (Option TreeId × Tree) :=
  let (tokens, failure) := tokenize text
  TreeState.document { tokens := tokens.toList, failure := failure.getD .malformed }

end RouteCatalog.Yaml
