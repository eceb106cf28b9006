import RouteCatalog.Yaml.Scalars
import RouteCatalog.Yaml.Tree

/-! Reading a document from YAML. Every collection becomes one node of the document, wherever and
however often it is referred to. The collections are made empty first and filled one after the
other, outer ones before inner ones. Collections may be nested to any depth, as no limit of a stack is
modelled, and an escape for half of a surrogate pair stands for the replacement character. -/

namespace RouteCatalog.Yaml

namespace TreeNode

def tag : TreeNode → String
  | scalar tag _ => tag
  | sequence tag _ => tag
  | mapping tag _ => tag

def pairs : TreeNode → List (TreeId × TreeId)
  | mapping _ pairs => pairs
  | _ => []

end TreeNode

namespace Tree

def node (tree : Tree) (id : TreeId) : TreeNode := tree.getD id (.scalar Tag.null "")

def tagOf (tree : Tree) (id : TreeId) : String := (tree.node id).tag

def putPairs (tree : Tree) (id : TreeId) (pairs : List (TreeId × TreeId)) : Tree :=
  tree.setIfInBounds id (.mapping (tree.tagOf id) pairs)

/-- The number of merge keys that are still to be replaced. -/
def mergeCount (tree : Tree) : Nat :=
  (tree.toList.flatMap TreeNode.pairs).countP fun p => tree.tagOf p.1 == Tag.merge

/-- Replaces merge keys in each of some mappings and gives their pairs, those of later mappings
first. -/
def flattenAll (flatten : Tree → TreeId → Except ReadError Tree)
    (merged : List (TreeId × TreeId)) (tree : Tree) :
    List TreeId → Except ReadError (List (TreeId × TreeId) × Tree)
  | [] => .ok (merged, tree)
  | id :: ids =>
    match tree.node id with
    | .mapping .. => do
      let tree ← flatten tree id
      flattenAll flatten ((tree.node id).pairs ++ merged) tree ids
    | _ => .error .malformed

/-- Goes over the pairs of a mapping from an index on. A merge key gives way to the pairs of the
mappings that it names, which come first; a value key becomes an ordinary one. -/
def flattenPairs (flatten : Tree → TreeId → Except ReadError Tree) (id : TreeId) :
    (steps index : Nat) → (merged : List (TreeId × TreeId)) → Tree → Except ReadError Tree
  | 0, _, merged, tree => .ok (tree.putPairs id (merged ++ (tree.node id).pairs))
  | steps + 1, index, merged, tree =>
    match (tree.node id).pairs[index]? with
    | none => .ok (tree.putPairs id (merged ++ (tree.node id).pairs))
    | some (key, value) =>
      if tree.tagOf key = Tag.merge then
        let tree := tree.putPairs id ((tree.node id).pairs.eraseIdx index)
        match tree.node value with
        | .mapping .. => do
          let tree ← flatten tree value
          flattenPairs flatten id steps index (merged ++ (tree.node value).pairs) tree
        | .sequence _ items => do
          let (pairs, tree) ← flattenAll flatten [] tree items
          flattenPairs flatten id steps index (merged ++ pairs) tree
        | .scalar .. => .error .malformed
      else
        match tree.node key with
        | .scalar tag text =>
          let tree := if tag = Tag.value then tree.setIfInBounds key (.scalar Tag.str text) else tree
          flattenPairs flatten id steps (index + 1) merged tree
        | _ => flattenPairs flatten id steps (index + 1) merged tree

/-- Replaces the merge keys of a mapping. Each level below takes a merge key, so their number
bounds the levels. -/
def flatten : (levels : Nat) → Tree → TreeId → Except ReadError Tree
  | 0, tree, _ => .ok tree
  | levels + 1, tree, id => flattenPairs (flatten levels) id (tree.node id).pairs.length 0 [] tree

/-- The text of a scalar, or of the value that a mapping has under a value key. -/
def scalarText (tree : Tree) : (fuel : Nat) → TreeId → Except ReadError String
  | 0, _ => .error (.fault .endless)
  | fuel + 1, id =>
    match tree.node id with
    | .scalar _ text => .ok text
    | .mapping _ pairs =>
      match pairs.find? fun p => tree.tagOf p.1 == Tag.value with
      | some (_, value) => scalarText tree fuel value
      | none => .error .malformed
    | .sequence .. => .error .malformed

end Tree

/-- What has been made of a tree so far. -/
structure Builder where
  tree : Tree
  doc : Document
  /-- The collections that have been made, by their places in the tree. -/
  made : List (TreeId × NodeId) := []
  /-- The collections that are still empty. -/
  waiting : List TreeId := []

namespace Builder

def emptyFor? (tag : String) : Option Node :=
  if tag = Tag.seq ∨ tag = Tag.omap ∨ tag = Tag.pairs then some (.list [])
  else if tag = Tag.map then some (.mapping [])
  else if tag = Tag.set then some (.set [])
  else none

/-- The value of a node. A collection is made when it is first asked for and filled later. -/
def value (b : Builder) (id : TreeId) : Except ReadError (Value × Builder) :=
  match b.made.find? (·.1 == id) with
  | some (_, node) => .ok (.node node, b)
  | none =>
    let tag := b.tree.tagOf id
    match emptyFor? tag with
    | some empty =>
      let (node, doc) := b.doc.add empty
      .ok (.node node, { b with
        doc := doc, made := (id, node) :: b.made, waiting := b.waiting ++ [id] })
    | none =>
      if ScalarValue.tags.contains tag then do
        let text ← b.tree.scalarText (b.tree.size + 1) id
        return (← ScalarValue.ofTag tag text, b)
      else .error .malformed

def values (b : Builder) : List TreeId → Except ReadError (List Value × Builder)
  | [] => .ok ([], b)
  | id :: ids => do
    let (v, b) ← b.value id
    let (vs, b) ← b.values ids
    return (v :: vs, b)

/-- The entries of a mapping; a collection cannot be a key. -/
def entries (b : Builder) (found : List Entry) :
    List (TreeId × TreeId) → Except ReadError (List Entry × Builder)
  | [] => .ok (found, b)
  | (key, value) :: pairs => do
    let (key, b) ← b.value key
    if !b.doc.isKey key then throw .malformed
    let (value, b) ← b.value value
    b.entries (Entries.put found key value) pairs

/-- The pairs of a sequence of mappings of one pair each. -/
def tuples (b : Builder) : List TreeId → Except ReadError (List Value × Builder)
  | [] => .ok ([], b)
  | id :: ids =>
    match b.tree.node id with
    | .mapping _ [(key, value)] => do
      let (key, b) ← b.value key
      let (value, b) ← b.value value
      let (tuple, doc) := b.doc.add (.tuple [key, value])
      let (rest, b) ← { b with doc := doc }.tuples ids
      return (.node tuple :: rest, b)
    | _ => .error .malformed

def put (b : Builder) (id : NodeId) (n : Node) : Builder :=
  { b with doc := ⟨b.doc.nodes.setIfInBounds id n⟩ }

def mappingEntries (b : Builder) (id : TreeId) : Except ReadError (List Entry × Builder) := do
  let tree ← b.tree.flatten (b.tree.mergeCount + 1) id
  { b with tree := tree }.entries [] (tree.node id).pairs

def fill (b : Builder) (id : TreeId) (place : NodeId) : Except ReadError Builder := do
  let tag := b.tree.tagOf id
  match b.tree.node id with
  | .sequence _ items =>
    if tag = Tag.seq then
      let (items, b) ← b.values items
      return b.put place (.list items)
    else if tag = Tag.omap ∨ tag = Tag.pairs then
      let (items, b) ← b.tuples items
      return b.put place (.list items)
    else throw .malformed
  | .mapping .. =>
    if tag = Tag.map then
      let (entries, b) ← b.mappingEntries id
      return b.put place (.mapping entries)
    else if tag = Tag.set then
      let (entries, b) ← b.mappingEntries id
      return b.put place (.set (entries.map Prod.fst))
    else throw .malformed
  | .scalar .. => throw .malformed

/-- Fills the waiting collections, each of which waits once. -/
def run : (fuel : Nat) → Builder → Except ReadError Document
  | 0, b => .ok b.doc
  | fuel + 1, b =>
    match b.waiting with
    | [] => .ok b.doc
    | id :: rest =>
      match b.made.find? (·.1 == id) with
      | some (_, place) => do run fuel (← { b with waiting := rest }.fill id place)
      | none => .ok b.doc

end Builder

/-- Reads a YAML text of at most one document; without one it holds nothing. -/
def read (doc : Document) (text : String) : Except ReadError (Value × Document) := do
  match ← Tree.ofText text with
  | (none, _) => return (.null, doc)
  | (some id, tree) =>
    let (v, b) ← { tree := tree, doc := doc : Builder }.value id
    return (v, ← Builder.run (tree.size + 1) b)

end RouteCatalog.Yaml
