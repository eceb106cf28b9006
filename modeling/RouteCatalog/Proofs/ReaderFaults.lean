import RouteCatalog.Proofs.ScannerFaults

/-! What keeps a YAML text from being read. Apart from texts that are malformed, these are versions
and scalars without a value. The tokens before a failure are used up first, so that what failed is handed on with
what is still to be read. -/

namespace RouteCatalog.Yaml

namespace TreeState

/-- If a fault keeps the text behind the tokens from being read, it is one of reading. -/
def IsBlamed (s : TreeState) : Prop := ∀ f, s.failure = .fault f → IsReaderFault f

abbrev IsReadOn {α : Type} (x : Except ReadError (α × TreeState)) : Prop :=
  Reads x fun r => r.2.IsBlamed

variable {s : TreeState}

theorem IsBlamed.isReadable_head (hs : s.IsBlamed) : IsReadable s.head := by
  unfold head
  split
  · exact .ok trivial
  · cases hfailure : s.failure with
    | malformed => exact .malformed
    | fault f => exact .error (hs f hfailure)

theorem IsBlamed.accept (hs : s.IsBlamed) (t : Token) : IsReadOn (s.accept t) := by
  unfold TreeState.accept
  refine hs.isReadable_head.bind ?_
  intro head _
  split
  · exact .ok hs
  · exact .ok hs

theorem IsBlamed.expect (hs : s.IsBlamed) (t : Token) : Reads (s.expect t) IsBlamed := by
  unfold TreeState.expect
  exact hs.isReadable_head.bind fun _ _ => .ite (.ok hs) .malformed

theorem IsBlamed.nameNode (hs : s.IsBlamed) (name : Option String) (id : TreeId) :
    Reads (s.nameNode name id) IsBlamed := by
  unfold TreeState.nameNode
  split
  · exact .ok hs
  · exact .ite .malformed (.ok hs)

theorem IsBlamed.addScalar (hs : s.IsBlamed) (name : Option String) (tag text : String) :
    IsReadOn (s.addScalar name tag text) := by
  have hadded : (s.add (.scalar tag text)).2.IsBlamed := hs
  exact (hadded.nameNode name _).bind fun _ hs' => .ok hs'

theorem isReadable_fullTag (s : TreeState) (t : TagText) : IsReadable (s.fullTag t) := by
  unfold fullTag
  split
  · exact .ok trivial
  · split
    · exact .ok trivial
    · exact .malformed

theorem IsBlamed.takeProperties (hs : s.IsBlamed) :
    Reads s.takeProperties fun r => r.2.2.IsBlamed := by
  have hdrop : s.drop.IsBlamed := hs
  unfold TreeState.takeProperties
  refine hs.isReadable_head.bind ?_
  intro head _
  split
  · refine hdrop.isReadable_head.bind ?_
    intro next _
    split
    · exact (isReadable_fullTag _ _).bind fun _ _ => .ok hs
    · exact .ok hs
  · refine hdrop.isReadable_head.bind ?_
    intro next _
    split
    · exact (isReadable_fullTag _ _).bind fun _ _ => .ok hs
    · exact (isReadable_fullTag _ _).bind fun _ _ => .ok hs
  · exact .ok hs

section Collections

variable {node : TreeState → Except ReadError (TreeId × TreeState)}
  (hnode : ∀ s : TreeState, s.IsBlamed → IsReadOn (node s))
include hnode

theorem IsBlamed.nodeUnless (hs : s.IsBlamed) (ends : List Token) :
    IsReadOn (nodeUnless node s ends) := by
  unfold TreeState.nodeUnless
  exact hs.isReadable_head.bind fun _ _ => .ite (.ok hs) (hnode s hs)

theorem IsBlamed.takeValue (hs : s.IsBlamed) (ends : List Token) :
    IsReadOn (takeValue node s ends) := by
  unfold TreeState.takeValue
  refine (hs.accept _).bind ?_
  rintro ⟨marked, s⟩ hs
  exact .ite (hs.nodeUnless hnode ends) (.ok hs)

theorem IsBlamed.blockItems (hs : s.IsBlamed) (ends : List Token) (fuel : Nat)
    (items : List TreeId) : IsReadOn (blockItems node ends fuel items s) := by
  induction fuel generalizing items s with
  | zero => exact .malformed
  | succ fuel ih =>
    unfold TreeState.blockItems
    refine (hs.accept _).bind ?_
    rintro ⟨more, s⟩ hs
    refine .ite ((hs.nodeUnless hnode ends).bind ?_) (.ok hs)
    rintro ⟨id, s⟩ hs
    exact ih hs _

theorem IsBlamed.blockPairs (hs : s.IsBlamed) (fuel : Nat) (pairs : List (TreeId × TreeId)) :
    IsReadOn (blockPairs node fuel pairs s) := by
  induction fuel generalizing pairs s with
  | zero => exact .malformed
  | succ fuel ih =>
    unfold TreeState.blockPairs
    refine (hs.accept _).bind ?_
    rintro ⟨more, s⟩ hs
    refine .ite ((hs.nodeUnless hnode _).bind ?_) ((hs.expect _).bind fun _ hs => .ok hs)
    rintro ⟨key, s⟩ hs
    refine (hs.takeValue hnode _).bind ?_
    rintro ⟨value, s⟩ hs
    exact ih hs _

theorem IsBlamed.flowItem (hs : s.IsBlamed) : IsReadOn (flowItem node s) := by
  unfold TreeState.flowItem
  refine (hs.accept _).bind ?_
  rintro ⟨isPair, s⟩ hs
  refine .ite ?_ (hnode s hs)
  have hadded : (s.add (.mapping Tag.map [])).2.IsBlamed := hs
  refine (hadded.nodeUnless hnode _).bind ?_
  rintro ⟨key, s⟩ hs
  refine (hs.takeValue hnode _).bind ?_
  rintro ⟨value, s⟩ hs
  exact .ok hs

theorem IsBlamed.flowItems (hs : s.IsBlamed) (fuel : Nat) (items : List TreeId) :
    IsReadOn (flowItems node fuel items s) := by
  induction fuel generalizing items s with
  | zero => exact .malformed
  | succ fuel ih =>
    -- An item is read in the same way whether or not a comma has been read before it.
    have hitem : ∀ s : TreeState, s.IsBlamed → IsReadOn (do
        let r ← s.accept .flowSequenceEnd
        if r.1 then return (items.reverse, r.2)
        let r ← TreeState.flowItem node r.2
        TreeState.flowItems node fuel (r.1 :: items) r.2) := by
      intro s hs
      refine (hs.accept _).bind ?_
      rintro ⟨closed, s⟩ hs
      refine .ite (.ok hs) ((hs.flowItem hnode).bind ?_)
      rintro ⟨id, s⟩ hs
      exact ih hs _
    unfold TreeState.flowItems
    refine (hs.accept _).bind ?_
    rintro ⟨closed, s⟩ hs
    refine .ite (.ok hs) (.ite (hitem s hs) ((hs.expect _).bind ?_))
    exact hitem

theorem IsBlamed.flowPair (hs : s.IsBlamed) : IsReadOn (flowPair node s) := by
  unfold TreeState.flowPair
  refine (hs.accept _).bind ?_
  rintro ⟨marked, s⟩ hs
  refine .ite ((hs.nodeUnless hnode _).bind ?_) ((hnode s hs).bind fun _ hs => .ok hs)
  rintro ⟨key, s⟩ hs
  exact (hs.takeValue hnode _).bind fun _ hs => .ok hs

theorem IsBlamed.flowPairs (hs : s.IsBlamed) (fuel : Nat) (pairs : List (TreeId × TreeId)) :
    IsReadOn (flowPairs node fuel pairs s) := by
  induction fuel generalizing pairs s with
  | zero => exact .malformed
  | succ fuel ih =>
    have hpair : ∀ s : TreeState, s.IsBlamed → IsReadOn (do
        let r ← s.accept .flowMappingEnd
        if r.1 then return (pairs.reverse, r.2)
        let r ← TreeState.flowPair node r.2
        TreeState.flowPairs node fuel (r.1 :: pairs) r.2) := by
      intro s hs
      refine (hs.accept _).bind ?_
      rintro ⟨closed, s⟩ hs
      refine .ite (.ok hs) ((hs.flowPair hnode).bind ?_)
      rintro ⟨pair, s⟩ hs
      exact ih hs _
    unfold TreeState.flowPairs
    refine (hs.accept _).bind ?_
    rintro ⟨closed, s⟩ hs
    refine .ite (.ok hs) (.ite (hpair s hs) ((hs.expect _).bind ?_))
    exact hpair

end Collections

section Nodes

theorem IsBlamed.sequenceNode (hs : s.IsBlamed) (name tag : Option String)
    {items : TreeState → Except ReadError (List TreeId × TreeState)}
    (hitems : ∀ s : TreeState, s.IsBlamed → IsReadOn (items s)) :
    IsReadOn (s.sequenceNode name tag items) := by
  unfold TreeState.sequenceNode
  have hadded : (s.add (.sequence (Tag.orDefault Tag.seq tag) [])).2.IsBlamed := hs
  refine (hadded.nameNode name _).bind ?_
  intro s hs
  exact (hitems s hs).bind fun _ hs => .ok hs

theorem IsBlamed.mappingNode (hs : s.IsBlamed) (name tag : Option String)
    {pairs : TreeState → Except ReadError (List (TreeId × TreeId) × TreeState)}
    (hpairs : ∀ s : TreeState, s.IsBlamed → IsReadOn (pairs s)) :
    IsReadOn (s.mappingNode name tag pairs) := by
  unfold TreeState.mappingNode
  have hadded : (s.add (.mapping (Tag.orDefault Tag.map tag) [])).2.IsBlamed := hs
  refine (hadded.nameNode name _).bind ?_
  intro s hs
  exact (hpairs s hs).bind fun _ hs => .ok hs

theorem IsBlamed.node (hs : s.IsBlamed) (fuel : Nat) (setting : Setting) :
    IsReadOn (TreeState.node fuel setting s) := by
  induction fuel generalizing setting s with
  | zero => exact .malformed
  | succ fuel ih =>
    have hblock : ∀ s : TreeState, s.IsBlamed → IsReadOn (TreeState.node fuel .block s) :=
      fun s hs => ih hs _
    have hvalue : ∀ s : TreeState, s.IsBlamed → IsReadOn (TreeState.node fuel .blockValue s) :=
      fun s hs => ih hs _
    have hflow : ∀ s : TreeState, s.IsBlamed → IsReadOn (TreeState.node fuel .flow s) :=
      fun s hs => ih hs _
    unfold TreeState.node
    refine hs.isReadable_head.bind ?_
    intro head _
    dsimp only
    split
    · split
      · exact .ok hs
      · exact .malformed
    · refine hs.takeProperties.bind ?_
      rintro ⟨name, tag, s⟩ hs
      refine hs.isReadable_head.bind ?_
      intro next _
      have hitems : ∀ s : TreeState, s.IsBlamed → IsReadOn (do
          let r ← TreeState.blockItems (TreeState.node fuel .block) [.blockEntry, .blockEnd] fuel [] s
          return (r.1, ← r.2.expect .blockEnd)) := by
        intro s hs
        refine (hs.blockItems hblock _ _ _).bind ?_
        rintro ⟨items, s⟩ hs
        exact (hs.expect _).bind fun _ hs => .ok hs
      dsimp only
      split
      · exact hs.sequenceNode name tag fun s hs => hs.blockItems hblock _ _ _
      · exact IsBlamed.addScalar (s := s.drop) hs _ _ _
      · exact IsBlamed.sequenceNode (s := s.drop) hs name tag fun s hs => hs.flowItems hflow _ _
      · exact IsBlamed.mappingNode (s := s.drop) hs name tag fun s hs => hs.flowPairs hflow _ _
      · exact IsBlamed.sequenceNode (s := s.drop) hs name tag hitems
      · exact IsBlamed.sequenceNode (s := s.drop) hs name tag hitems
      · exact IsBlamed.mappingNode (s := s.drop) hs name tag fun s hs => hs.blockPairs hvalue _ _
      · exact IsBlamed.mappingNode (s := s.drop) hs name tag fun s hs => hs.blockPairs hvalue _ _
      · exact .ite (hs.addScalar _ _ _) .malformed

theorem IsBlamed.takeDirectives (hs : s.IsBlamed) (fuel : Nat) (versioned : Bool) :
    Reads (takeDirectives fuel versioned s) IsBlamed := by
  induction fuel generalizing versioned s with
  | zero => exact .malformed
  | succ fuel ih =>
    unfold TreeState.takeDirectives
    refine hs.isReadable_head.bind ?_
    intro head _
    dsimp only
    split
    · refine .ite .malformed (ih ?_ _)
      exact hs
    · refine .ite .malformed (ih ?_ _)
      exact hs
    · apply ih
      exact hs
    · exact .ok hs

theorem IsBlamed.markedDocument (hs : s.IsBlamed) (fuel : Nat) :
    IsReadOn (markedDocument fuel s) := by
  unfold TreeState.markedDocument
  refine hs.isReadable_head.bind ?_
  intro head _
  split
  all_goals first | exact .ok hs | exact hs.node fuel .block

theorem IsBlamed.isReadable_document (hs : s.IsBlamed) : IsReadable s.document := by
  have hfinish : ∀ (id : TreeId) (s : TreeState), s.IsBlamed → IsReadable (do
      if (← s.skipDocumentEnds.head) = .streamEnd then return (some id, s.tree)
      else throw .malformed : Except ReadError (Option TreeId × Tree)) := by
    intro id s hs
    refine (IsBlamed.isReadable_head (s := s.skipDocumentEnds) hs).bind ?_
    intro head _
    exact .ite (.ok trivial) .malformed
  have hmarked : IsReadable (do
      let t ← TreeState.takeDirectives (s.tokens.length + 2) false s
      let t ← t.withDefaultHandles.expect .documentStart
      let r ← TreeState.markedDocument (s.tokens.length + 2) t
      if (← r.2.skipDocumentEnds.head) = .streamEnd then return (some r.1, r.2.tree)
      else throw .malformed : Except ReadError (Option TreeId × Tree)) := by
    refine (hs.takeDirectives _ _).bind ?_
    intro t ht
    have hhandles : t.withDefaultHandles.IsBlamed := ht
    refine (hhandles.expect _).bind ?_
    intro t ht
    refine (ht.markedDocument _).bind ?_
    rintro ⟨id, t⟩ ht
    exact hfinish id t ht
  unfold document
  refine hs.isReadable_head.bind ?_
  intro head _
  dsimp only
  split
  · exact .ok trivial
  · exact hmarked
  · exact hmarked
  · exact hmarked
  · exact hmarked
  · have hhandles : s.withDefaultHandles.IsBlamed := hs
    refine (hhandles.node _ _).bind ?_
    rintro ⟨id, t⟩ ht
    exact hfinish id t ht

end Nodes

end TreeState

namespace Tree

theorem isReadable_ofText (text : String) : IsReadable (ofText text) := by
  unfold ofText
  apply TreeState.IsBlamed.isReadable_document
  intro f hf
  change (tokenize text).2.getD .malformed = .fault f at hf
  cases hfailure : (tokenize text).2 with
  | none =>
    rw [hfailure] at hf
    cases hf
  | some e =>
    rw [hfailure] at hf
    cases hf
    exact isReaderFault_of_tokenize hfailure

variable {flatten : Tree → TreeId → Except ReadError Tree}

section Merging

variable (hflatten : ∀ tree id, IsReadable (flatten tree id))
include hflatten

theorem isReadable_flattenAll (merged : List (TreeId × TreeId)) (tree : Tree) (ids : List TreeId) :
    IsReadable (flattenAll flatten merged tree ids) := by
  induction ids generalizing merged tree with
  | nil => exact .ok trivial
  | cons id ids ih =>
    unfold flattenAll
    split
    · exact (hflatten _ _).bind fun _ _ => ih _ _
    · exact .malformed

theorem isReadable_flattenPairs (id : TreeId) (steps index : Nat)
    (merged : List (TreeId × TreeId)) (tree : Tree) :
    IsReadable (flattenPairs flatten id steps index merged tree) := by
  induction steps generalizing index merged tree with
  | zero => exact .ok trivial
  | succ steps ih =>
    unfold flattenPairs
    split
    · exact .ok trivial
    · refine .ite ?_ ?_
      · dsimp only
        split
        · exact (hflatten _ _).bind fun _ _ => ih _ _ _
        · exact (isReadable_flattenAll hflatten _ _ _).bind fun _ _ => ih _ _ _
        · exact .malformed
      · split
        · exact ih _ _ _
        · exact ih _ _ _

end Merging

theorem isReadable_flatten (levels : Nat) (tree : Tree) (id : TreeId) :
    IsReadable (tree.flatten levels id) := by
  induction levels generalizing tree id with
  | zero => exact .ok trivial
  | succ levels ih => exact isReadable_flattenPairs ih _ _ _ _ _

theorem isReadable_scalarText (tree : Tree) (fuel : Nat) (id : TreeId) :
    IsReadable (tree.scalarText fuel id) := by
  induction fuel generalizing id with
  | zero => exact .error .circular
  | succ fuel ih =>
    unfold scalarText
    split
    · exact .ok trivial
    · split
      · exact ih _
      · exact .malformed
    · exact .malformed

end Tree

namespace Builder

theorem isReadable_ofTag (tag text : String) : IsReadable (ScalarValue.ofTag tag text) := by
  refine ⟨fun _ _ => trivial, ?_⟩
  intro f h
  exact .value h

theorem isReadable_value (b : Builder) (id : TreeId) : IsReadable (b.value id) := by
  unfold value
  split
  · exact .ok trivial
  · dsimp only
    split
    · exact .ok trivial
    · refine .ite ((Tree.isReadable_scalarText _ _ _).bind ?_) .malformed
      intro text _
      exact (isReadable_ofTag _ _).bind fun _ _ => .ok trivial

theorem isReadable_values (b : Builder) (ids : List TreeId) : IsReadable (b.values ids) := by
  induction ids generalizing b with
  | nil => exact .ok trivial
  | cons id ids ih =>
    unfold values
    refine (isReadable_value _ _).bind ?_
    rintro ⟨v, b⟩ _
    exact (ih b).bind fun _ _ => .ok trivial

theorem isReadable_entries (b : Builder) (found : List Entry) (pairs : List (TreeId × TreeId)) :
    IsReadable (b.entries found pairs) := by
  induction pairs generalizing b found with
  | nil => exact .ok trivial
  | cons pair pairs ih =>
    unfold entries
    refine (isReadable_value _ _).bind ?_
    rintro ⟨key, b⟩ _
    refine .ite .malformed ((isReadable_value _ _).bind ?_)
    rintro ⟨value, b⟩ _
    exact ih _ _

theorem isReadable_tuples (b : Builder) (ids : List TreeId) : IsReadable (b.tuples ids) := by
  induction ids generalizing b with
  | nil => exact .ok trivial
  | cons id ids ih =>
    unfold tuples
    split
    · refine (isReadable_value _ _).bind ?_
      rintro ⟨key, b⟩ _
      refine (isReadable_value _ _).bind ?_
      rintro ⟨value, b⟩ _
      exact (ih _).bind fun _ _ => .ok trivial
    · exact .malformed

theorem isReadable_mappingEntries (b : Builder) (id : TreeId) :
    IsReadable (b.mappingEntries id) := by
  unfold mappingEntries
  exact (Tree.isReadable_flatten _ _ _).bind fun _ _ => isReadable_entries _ _ _

theorem isReadable_fill (b : Builder) (id : TreeId) (place : NodeId) :
    IsReadable (b.fill id place) := by
  unfold fill
  dsimp only
  split
  · refine .ite ((isReadable_values _ _).bind fun _ _ => .ok trivial) (.ite ?_ .malformed)
    exact (isReadable_tuples _ _).bind fun _ _ => .ok trivial
  · refine .ite ((isReadable_mappingEntries _ _).bind fun _ _ => .ok trivial) (.ite ?_ .malformed)
    exact (isReadable_mappingEntries _ _).bind fun _ _ => .ok trivial
  · exact .malformed

theorem isReadable_run (fuel : Nat) (b : Builder) : IsReadable (run fuel b) := by
  induction fuel generalizing b with
  | zero => exact .ok trivial
  | succ fuel ih =>
    unfold run
    split
    · exact .ok trivial
    · split
      · exact (isReadable_fill _ _ _).bind fun b _ => ih b
      · exact .ok trivial

end Builder

theorem isReadable_read (doc : Document) (text : String) : IsReadable (read doc text) := by
  unfold read
  refine (Tree.isReadable_ofText text).bind ?_
  rintro ⟨id, tree⟩ _
  cases id with
  | none => exact .ok trivial
  | some id =>
    refine (Builder.isReadable_value _ _).bind ?_
    rintro ⟨v, b⟩ _
    exact (Builder.isReadable_run _ _).bind fun _ _ => .ok trivial

end RouteCatalog.Yaml
