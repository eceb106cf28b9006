import RouteCatalog.Proofs.Sequence
import RouteCatalog.Yaml.Reading

/-! What keeps the characters of a YAML text from being read as tokens. Apart from texts that are
malformed, these are escapes that stand for no character and versions of too many digits. -/

namespace RouteCatalog.Yaml

/-- Why a text that is not malformed cannot be read: a version has too many digits, an escape is beyond
the code points, or a scalar is written as no value of its tag or given by a mapping that contains
itself. -/
inductive IsReaderFault : Fault → Prop where
  | version {digits : List Char} {f : Fault} :
      Cursor.numberOfDigits digits = .error (.fault f) → IsReaderFault f
  | escape {n : Nat} {f : Fault} : Cursor.charOfCode n = .error (.fault f) → IsReaderFault f
  | value {tag text : String} {f : Fault} : ScalarValue.ofTag tag text = .error (.fault f) →
      IsReaderFault f
  | circular : IsReaderFault .endless

/-- A part of a text is read with a result that satisfies a property, unless the text is malformed
or a part of it has no value. -/
structure Reads {α : Type} (x : Except ReadError α) (P : α → Prop) : Prop where
  result : ∀ a, x = .ok a → P a
  fault : ∀ f, x = .error (.fault f) → IsReaderFault f

namespace Reads

variable {α β : Type} {P : α → Prop} {Q : β → Prop} {x y : Except ReadError α}

theorem ok {a : α} (h : P a) : Reads (.ok a) P := by
  refine ⟨?_, ?_⟩
  · intro a' heq
    cases heq
    exact h
  · intro f heq
    cases heq

theorem malformed : Reads (.error .malformed) P := by
  refine ⟨?_, ?_⟩
  · intro a heq
    cases heq
  · intro f heq
    cases heq

theorem error {f : Fault} (h : IsReaderFault f) : Reads (.error (.fault f)) P := by
  refine ⟨?_, ?_⟩
  · intro a heq
    cases heq
  · intro f' heq
    cases heq
    exact h

theorem bind {f : α → Except ReadError β} (hx : Reads x P) (hf : ∀ a, P a → Reads (f a) Q) :
    Reads (x >>= f) Q := by
  cases x with
  | ok a => exact hf a (hx.result a rfl)
  | error e =>
    cases e with
    | malformed => exact malformed
    | fault f' => exact error (hx.fault f' rfl)

theorem ite {p : Prop} [Decidable p] (hx : Reads x P) (hy : Reads y P) :
    Reads (if p then x else y) P := by
  split
  · exact hx
  · exact hy

end Reads

abbrev IsReadable {α : Type} (x : Except ReadError α) : Prop := Reads x fun _ => True

namespace Cursor

theorem isReadable_skipLineEnd (c : Cursor) : IsReadable c.skipLineEnd := by
  unfold skipLineEnd
  exact .ite (.ok trivial) .malformed

theorem isReadable_takeIncrement (c : Cursor) : IsReadable c.takeIncrement := by
  unfold takeIncrement
  split
  · exact .ite (.ite .malformed (.ok trivial)) (.ok trivial)
  · exact .ok trivial

theorem isReadable_takeBlockHeader (c : Cursor) : IsReadable c.takeBlockHeader := by
  unfold takeBlockHeader
  refine (isReadable_takeIncrement _).bind ?_
  intro r _
  exact .ite (.ok trivial) .malformed

theorem isReadable_takeBlockScalar (parent : Int) (folded : Bool) (c : Cursor) :
    IsReadable (c.takeBlockScalar parent folded) := by
  unfold takeBlockScalar
  refine (isReadable_takeBlockHeader c).bind ?_
  intro r _
  exact (isReadable_skipLineEnd _).bind fun _ _ => .ok trivial

theorem isReadable_charOfCode (n : Nat) : IsReadable (charOfCode n) := by
  refine ⟨fun _ _ => trivial, ?_⟩
  intro f h
  exact .escape h

theorem isReadable_takeQuotedBreaks (fuel : Nat) (breaks : List Char) (c : Cursor) :
    IsReadable (takeQuotedBreaks fuel breaks c) := by
  induction fuel generalizing breaks c with
  | zero => exact .ok trivial
  | succ fuel ih =>
    unfold takeQuotedBreaks
    exact .ite .malformed (.ite (ih _ _) (.ok trivial))

theorem isReadable_takeEscape (c : Cursor) : IsReadable c.takeEscape := by
  unfold takeEscape
  split
  · exact .malformed
  · split
    · exact .ok trivial
    · dsimp only
      split
      · exact .ite ((isReadable_charOfCode _).bind fun _ _ => .ok trivial) .malformed
      · exact .malformed
    · exact .ite (isReadable_takeQuotedBreaks _ _ _) .malformed

theorem isReadable_takeQuoted (fuel : Nat) (quote : Char) (read : List Char) (c : Cursor) :
    IsReadable (takeQuoted fuel quote read c) := by
  induction fuel generalizing read c with
  | zero => exact .malformed
  | succ fuel ih =>
    unfold takeQuoted
    cases c.head? with
    | none => exact .malformed
    | some ch =>
      refine .ite (.ite (ih _ _) (.ok trivial)) (.ite ?_ (.ite (.ite .malformed (.ite ?_ (ih _ _)))
        (ih _ _)))
      · exact (isReadable_takeEscape _).bind fun _ _ => ih _ _
      · exact (isReadable_takeQuotedBreaks _ _ _).bind fun _ _ => ih _ _

theorem isReadable_takeAnchor (c : Cursor) : IsReadable c.takeAnchor := by
  unfold takeAnchor
  exact .ite .malformed (.ite (.ok trivial) .malformed)

theorem isReadable_takeUriEscapes (fuel : Nat) (bytes : List UInt8) (c : Cursor) :
    IsReadable (takeUriEscapes fuel bytes c) := by
  induction fuel generalizing bytes c with
  | zero => exact .malformed
  | succ fuel ih =>
    unfold takeUriEscapes
    split
    · split
      · exact ih _ _
      · exact .malformed
    · split
      · exact .ok trivial
      · exact .malformed

theorem isReadable_takeUri (fuel : Nat) (read : List Char) (c : Cursor) :
    IsReadable (takeUri fuel read c) := by
  induction fuel generalizing read c with
  | zero => exact .malformed
  | succ fuel ih =>
    unfold takeUri
    cases c.head? with
    | none => exact .ite .malformed (.ok trivial)
    | some ch =>
      refine .ite ?_ (.ite (ih _ _) (.ite .malformed (.ok trivial)))
      exact (isReadable_takeUriEscapes _ _ _).bind fun _ _ => ih _ _

theorem isReadable_takeTagHandle (c : Cursor) : IsReadable c.takeTagHandle := by
  unfold takeTagHandle
  exact .ite .malformed (.ite (.ok trivial) (.ite (.ok trivial) .malformed))

theorem isReadable_takeTag (c : Cursor) : IsReadable c.takeTag := by
  have hsuffix : ∀ handle (c : Cursor), IsReadable (takeUri c.budget [] c >>= fun r =>
      (return (⟨some handle, r.1⟩, r.2) : Except ReadError (TagText × Cursor))) := by
    intro handle c
    exact (isReadable_takeUri _ _ _).bind fun _ _ => .ok trivial
  unfold takeTag
  refine Reads.bind (P := fun _ => True) ?_ ?_
  · refine .ite ?_ (.ite (.ok trivial) (.ite ?_ ?_))
    · refine (isReadable_takeUri _ _ _).bind ?_
      rintro ⟨suffix, c⟩ _
      exact .ite (.ok trivial) .malformed
    · refine (isReadable_takeTagHandle c).bind ?_
      rintro ⟨handle, c⟩ _
      exact hsuffix handle c
    · exact hsuffix "!" c.next
  · rintro ⟨t, c⟩ _
    exact .ite (.ok trivial) .malformed

theorem isReadable_numberOfDigits (digits : List Char) : IsReadable (numberOfDigits digits) := by
  refine ⟨fun _ _ => trivial, ?_⟩
  intro f h
  exact .version h

theorem isReadable_takeNumber (c : Cursor) : IsReadable c.takeNumber := by
  unfold takeNumber
  exact (isReadable_numberOfDigits _).bind fun _ _ => .ok trivial

theorem isReadable_takeDirective (c : Cursor) : IsReadable c.takeDirective := by
  unfold takeDirective
  obtain ⟨name, c⟩ := c.takeWhile isNameChar
  refine .ite .malformed (Reads.bind (P := fun _ => True) ?_ ?_)
  · split
    · refine (isReadable_takeNumber _).bind ?_
      rintro ⟨major, c⟩ _
      refine .ite .malformed ((isReadable_takeNumber _).bind ?_)
      rintro ⟨_, c⟩ _
      exact .ite (.ok trivial) .malformed
    · refine (isReadable_takeTagHandle _).bind ?_
      rintro ⟨handle, c⟩ _
      refine .ite .malformed ((isReadable_takeUri _ _ _).bind ?_)
      rintro ⟨expansion, c⟩ _
      exact .ite (.ok trivial) .malformed
    · exact .ok trivial
  · rintro ⟨token, c⟩ _
    exact (isReadable_skipLineEnd c).bind fun _ _ => .ok trivial

end Cursor

namespace Scanner

theorem isReadable_removeKey (s : Scanner) : IsReadable s.removeKey := by
  unfold removeKey
  split
  · exact .ite .malformed (.ok trivial)
  · exact .ok trivial

theorem isReadable_saveKey (s : Scanner) : IsReadable s.saveKey := by
  unfold saveKey
  exact .ite ((isReadable_removeKey s).bind fun _ _ => .ok trivial) (.ok trivial)

theorem isReadable_dropStaleKeys (s : Scanner) : IsReadable s.dropStaleKeys := by
  unfold dropStaleKeys
  exact .ite .malformed (.ok trivial)

theorem isReadable_beginBlock (s : Scanner) (t : Token) : IsReadable (s.beginBlock t) := by
  unfold beginBlock
  exact .ite (.ok trivial) (.ite (.ok trivial) .malformed)

theorem isReadable_scanBlockEntry (s : Scanner) : IsReadable s.scanBlockEntry := by
  unfold scanBlockEntry
  refine (isReadable_beginBlock s _).bind ?_
  intro s _
  exact (isReadable_removeKey _).bind fun _ _ => .ok trivial

theorem isReadable_scanKey (s : Scanner) : IsReadable s.scanKey := by
  unfold scanKey
  refine (isReadable_beginBlock s _).bind ?_
  intro s _
  exact (isReadable_removeKey _).bind fun _ _ => .ok trivial

theorem isReadable_scanValue (s : Scanner) : IsReadable s.scanValue := by
  unfold scanValue
  split
  · exact .ok trivial
  · refine (isReadable_beginBlock s _).bind ?_
    intro s _
    exact (isReadable_removeKey _).bind fun _ _ => .ok trivial

theorem isReadable_scanFlowStart (s : Scanner) (t : Token) : IsReadable (s.scanFlowStart t) := by
  unfold scanFlowStart
  exact (isReadable_saveKey s).bind fun _ _ => .ok trivial

theorem isReadable_scanFlowEnd (s : Scanner) (t : Token) : IsReadable (s.scanFlowEnd t) := by
  unfold scanFlowEnd
  exact (isReadable_removeKey s).bind fun _ _ => .ite .malformed (.ok trivial)

theorem isReadable_scanFlowEntry (s : Scanner) : IsReadable s.scanFlowEntry := by
  unfold scanFlowEntry
  exact (isReadable_removeKey _).bind fun _ _ => .ok trivial

theorem isReadable_endContent (s : Scanner) : IsReadable s.endContent := by
  unfold endContent
  exact (isReadable_removeKey _).bind fun _ _ => .ok trivial

theorem isReadable_scanDocumentMark (s : Scanner) (t : Token) :
    IsReadable (s.scanDocumentMark t) := by
  unfold scanDocumentMark
  exact (isReadable_endContent s).bind fun _ _ => .ok trivial

theorem isReadable_scanDirective (s : Scanner) : IsReadable s.scanDirective := by
  unfold scanDirective
  refine (isReadable_endContent s).bind ?_
  intro s _
  exact (Cursor.isReadable_takeDirective _).bind fun _ _ => .ok trivial

theorem isReadable_scanNodePart (s : Scanner) {take : Cursor → Except ReadError (Token × Cursor)}
    (htake : ∀ c, IsReadable (take c)) : IsReadable (s.scanNodePart take) := by
  unfold scanNodePart
  refine (isReadable_saveKey s).bind ?_
  intro s _
  exact (htake _).bind fun _ _ => .ok trivial

theorem isReadable_scanBlockScalar (s : Scanner) (folded : Bool) :
    IsReadable (s.scanBlockScalar folded) := by
  unfold scanBlockScalar
  refine (isReadable_removeKey _).bind ?_
  intro s _
  exact (Cursor.isReadable_takeBlockScalar _ _ _).bind fun _ _ => .ok trivial

theorem isReadable_scanPlain (s : Scanner) : IsReadable s.scanPlain := by
  unfold scanPlain
  exact (isReadable_saveKey s).bind fun _ _ => .ok trivial

theorem isReadable_takeQuotedToken (quote : Char) (c : Cursor) :
    IsReadable (takeQuotedToken quote c) := by
  unfold takeQuotedToken
  exact (Cursor.isReadable_takeQuoted _ _ _ _).bind fun _ _ => .ok trivial

theorem isReadable_scanToken (s : Scanner) (ch : Char) : IsReadable (s.scanToken ch) := by
  have hanchor (make : String → Token) : ∀ c : Cursor, IsReadable (do
      let r ← c.next.takeAnchor
      return (make r.1, r.2)) := by
    intro c
    exact (Cursor.isReadable_takeAnchor _).bind fun _ _ => .ok trivial
  have htag : ∀ c : Cursor, IsReadable (do
      let r ← c.takeTag
      return (Token.tag r.1, r.2)) := by
    intro c
    exact (Cursor.isReadable_takeTag _).bind fun _ _ => .ok trivial
  unfold scanToken
  refine .ite s.isReadable_scanDirective ?_
  refine .ite (s.isReadable_scanDocumentMark _) (.ite (s.isReadable_scanDocumentMark _) ?_)
  refine .ite (s.isReadable_scanFlowStart _) (.ite (s.isReadable_scanFlowStart _) ?_)
  refine .ite (s.isReadable_scanFlowEnd _) (.ite (s.isReadable_scanFlowEnd _) ?_)
  refine .ite s.isReadable_scanFlowEntry (.ite s.isReadable_scanBlockEntry ?_)
  refine .ite s.isReadable_scanKey (.ite s.isReadable_scanValue ?_)
  refine .ite (s.isReadable_scanNodePart (hanchor .alias)) ?_
  refine .ite (s.isReadable_scanNodePart (hanchor .anchor)) ?_
  refine .ite (s.isReadable_scanNodePart htag) ?_
  refine .ite (s.isReadable_scanBlockScalar _) (.ite (s.isReadable_scanBlockScalar _) ?_)
  refine .ite (s.isReadable_scanNodePart (isReadable_takeQuotedToken ch)) ?_
  exact .ite s.isReadable_scanPlain .malformed

theorem isReadable_scanNext (s : Scanner) : IsReadable s.scanNext := by
  unfold scanNext
  refine (isReadable_dropStaleKeys _).bind ?_
  intro s _
  dsimp only
  split
  · exact isReadable_scanToken _ _
  · exact (isReadable_endContent _).bind fun _ _ => .ok trivial

theorem isReaderFault_of_run {fuel : Nat} {s : Scanner} {f : Fault}
    (h : (s.run fuel).2 = some (.fault f)) : IsReaderFault f := by
  induction fuel generalizing s with
  | zero => cases h
  | succ fuel ih =>
    unfold run at h
    cases hnext : s.scanNext with
    | error e =>
      rw [hnext] at h
      cases h
      exact (isReadable_scanNext s).fault f hnext
    | ok s' =>
      rw [hnext] at h
      dsimp only at h
      split at h
      · cases h
      · exact ih h

end Scanner

theorem isReaderFault_of_tokenize {text : String} {f : Fault}
    (h : (tokenize text).2 = some (.fault f)) : IsReaderFault f := by
  unfold tokenize at h
  split at h
  · exact Scanner.isReaderFault_of_run h
  · cases h

end RouteCatalog.Yaml
