import RouteCatalog.Proofs.BracketedRendering
import RouteCatalog.Proofs.Normalization

/-! Normalization keeps brackets and literals together, at every depth and wherever it falls back on
the raw rendering. -/

namespace RouteCatalog.Graph

open TypeExpr

variable {P : List Char → Prop} {g : Graph} {h : Handle}

section Normalization

theorem ensures_knownGeneric? {s : Option TypeSymbol} :
    Ensures (g.knownGeneric? s) fun r => ∀ name ∈ r, IsWhole name.toList := by
  have hknown : ∀ name ∈ knownGenerics, IsWhole name.toList := by decide +kernel
  intro r hr name hname
  unfold knownGeneric? at hr
  split at hr
  · cases hr
    cases hname
  · split at hr
    · split at hr <;> cases hr
      · rename_i hmem
        cases hname
        exact hknown name (by simpa using hmem)
      · cases hname
    · split at hr <;> cases hr
      cases hname

variable (hP : IsBracketing P)
include hP

theorem ensures_arrayOf (e : Handle) {inner : Label} (hinner : inner.Prints P g.doc) :
    Ensures (g.arrayOf e inner) (Label.Prints P g.doc) := by
  intro l hl
  obtain ⟨chars, -, hl⟩ := bind_eq_ok_iff.mp hl
  split at hl
  · cases hl
    have harray : P "Array".toList := hP.word (by simp [printedWords])
    have happlied := prints_applied hP harray hinner
    change P ("Array<" ++ inner.spliced g.doc ++ ">").toList
    simpa using happlied
  · split at hl <;> cases hl
    · exact prints_parenthesized hP hinner
    · exact prints_suffixed hP hinner

variable {normalize : Handle → Except Fault Label}

theorem ensures_objectLiteral {ps : List Property}
    (hnormalize : ∀ p ∈ ps, Ensures (normalize p.type) (Label.Prints P g.doc)) :
    Ensures (g.objectLiteral normalize ps) fun l => ∀ l' ∈ l, l'.Prints P g.doc := by
  intro l hl
  obtain ⟨entries, hentries, hl⟩ := bind_eq_ok_iff.mp hl
  have hwhole := ensures_entries hP (fun name => hP.whole (isWhole_formatKey name))
    (fun p hp => hnormalize p (List.mem_of_mem_filter hp)) entries hentries
  split at hl <;> cases hl
  · simp
  · rintro l' hl'
    cases hl'
    exact hwhole

variable (hnormalize : ∀ e, g.Throughout (g.HasTexts P) e →
    Ensures (normalize e) (Label.Prints P g.doc))
  (hs : g.Throughout (g.HasTexts P) h)
include hnormalize hs

omit hP in
theorem ensures_properties : Ensures (g.properties h) fun ps =>
    ∀ p ∈ ps, Ensures (normalize p.type) (Label.Prints P g.doc) := fun _ hps p hp =>
  hnormalize p.type (hs.of_properties hasTexts_merged hps p hp)

theorem ensures_normalizeIntersection :
    Ensures (g.normalizeIntersection normalize h) (Label.Prints P g.doc) := by
  intro l hl
  obtain ⟨ms, hms, hl⟩ := bind_eq_ok_iff.mp hl
  obtain ⟨merged, hmerged, hl⟩ := bind_eq_ok_iff.mp hl
  cases merged with
  | some literal =>
    cases hl
    obtain ⟨b, -, hmerged⟩ := bind_eq_ok_iff.mp hmerged
    cases b with
    | false => cases hmerged
    | true =>
      obtain ⟨ps, hps, hliteral⟩ := bind_eq_ok_iff.mp hmerged
      exact ensures_objectLiteral hP (ensures_properties hnormalize hs ps hps) _ hliteral _ rfl
  | none =>
    obtain ⟨labels, hlabels, hl⟩ := bind_eq_ok_iff.mp hl
    have hmembers := Ensures.mapM
      (fun m hm => hnormalize m (hs.part (.member hms hm))) labels hlabels
    exact Label.ensures_intersection hP hmembers l hl

theorem ensures_normalizeObject (d : Detector) :
    Ensures (g.normalizeObject d normalize h) (Label.Prints P g.doc) := by
  intro l hl
  obtain ⟨expanded, hexpanded, hl⟩ := bind_eq_ok_iff.mp hl
  cases expanded with
  | some e =>
    obtain ⟨index, hindex, hexpanded⟩ := bind_eq_ok_iff.mp hexpanded
    obtain ⟨inner, hinner, hl⟩ := bind_eq_ok_iff.mp hl
    cases hl
    cases index with
    | none => cases hexpanded
    | some index =>
      obtain ⟨ps, -, hexpanded⟩ := bind_eq_ok_iff.mp hexpanded
      have hindexed : index = e := by
        cases hrecognized : d.recognizes (ps.map (·.name)) <;>
          simp [hrecognized, pure, Except.pure] at hexpanded
        exact hexpanded
      exact prints_suffixed hP (hnormalize e (hs.part (.index (hindexed ▸ hindex))) inner hinner)
  | none =>
    obtain ⟨raw, hraw, hl⟩ := bind_eq_ok_iff.mp hl
    have hwhole : raw.Prints P g.doc := ensures_textWithin hP _ h hs raw hraw
    obtain ⟨text, -, hl⟩ := bind_eq_ok_iff.mp hl
    split at hl
    · cases hl
      exact hwhole
    · obtain ⟨n, -, hl⟩ := bind_eq_ok_iff.mp hl
      split at hl
      · obtain ⟨ps, hps, hl⟩ := bind_eq_ok_iff.mp hl
        obtain ⟨literal, hliteral, hl⟩ := bind_eq_ok_iff.mp hl
        cases literal with
        | none =>
          cases hl
          exact hwhole
        | some literal =>
          cases hl
          exact ensures_objectLiteral hP (ensures_properties hnormalize hs ps hps) _ hliteral _ rfl
      · cases hl
        exact hwhole

theorem ensures_namedOr {rest : Except Fault Label} (hrest : Ensures rest (Label.Prints P g.doc)) :
    Ensures (g.namedOr normalize h rest) (Label.Prints P g.doc) := by
  intro l hl
  obtain ⟨symbol, hsymbol, hl⟩ := bind_eq_ok_iff.mp hl
  obtain ⟨known, hknown, hl⟩ := bind_eq_ok_iff.mp hl
  cases known with
  | none => exact hrest l hl
  | some name =>
    have hname : P name.toList := hP.whole (ensures_knownGeneric? _ hknown name rfl)
    have harguments : ∀ e ∈ (symbol.map (·.arguments)).getD [], g.HasPart h e := by
      cases symbol with
      | none => simp
      | some s => exact (ensures_symbol (P := P) _ hsymbol s rfl).2
    simp only at hl
    split at hl
    · cases hl
      exact hname
    · exact ensures_joined hP (hP.word (by simp [printedWords])) (fun _ => prints_applied hP hname)
        (fun e he => hnormalize e (hs.part (harguments e he))) l hl

theorem ensures_normalizeNode (d : Detector) :
    Ensures (g.normalizeNode d normalize h) (Label.Prints P g.doc) := by
  have hpart : ∀ e, g.HasPart h e → Ensures (normalize e) (Label.Prints P g.doc) := fun e he =>
    hnormalize e (hs.part he)
  have htext := ensures_textWithin hP g.identities h hs
  unfold normalizeNode
  cases hkind : g.kind? h with
  | none => exact ensures_namedOr hP hnormalize hs htext
  | some kind =>
    cases kind with
    | array =>
      intro l hl
      obtain ⟨e, he, hl⟩ := bind_eq_ok_iff.mp hl
      cases e with
      | none =>
        cases hl
        exact prints_suffixed hP (hP.word (s := "unknown") (by simp [printedWords]))
      | some e =>
        obtain ⟨inner, hinner, hl⟩ := bind_eq_ok_iff.mp hl
        exact ensures_arrayOf hP e (hpart e (.element he) inner hinner) l hl
    | tuple =>
      intro l hl
      obtain ⟨es, hes, hl⟩ := bind_eq_ok_iff.mp hl
      exact ensures_joined hP (hP.word (by simp [printedWords])) (fun _ => prints_bracketed hP)
        (fun e he => hpart e (.inTuple hes he)) l hl
    | union =>
      intro l hl
      obtain ⟨es, hes, hl⟩ := bind_eq_ok_iff.mp hl
      obtain ⟨labels, hlabels, hl⟩ := bind_eq_ok_iff.mp hl
      have hwhole := Ensures.mapM (fun e he => hpart e (.member hes he)) labels hlabels
      exact Label.ensures_union hP hwhole l hl
    | intersection => exact ensures_normalizeIntersection hP hnormalize hs
    | primitive => exact ensures_namedOr hP hnormalize hs htext
    | reference => exact ensures_namedOr hP hnormalize hs htext
    | object =>
      exact ensures_namedOr hP hnormalize hs (ensures_normalizeObject hP hnormalize hs d)

omit hnormalize hs in
theorem ensures_prints_normalizeWithin (d : Detector) (levels : Nat) :
    ∀ h, g.Throughout (g.HasTexts P) h →
      Ensures (g.normalizeWithin d levels h) (Label.Prints P g.doc) := by
  induction levels with
  | zero => exact ensures_textWithin hP g.identities
  | succ levels ih => exact fun h hs => ensures_normalizeNode hP ih hs d

omit hP hnormalize hs in
theorem ensures_normalizeWithin (d : Detector) (levels : Nat) :
    ∀ h, g.Throughout g.HasWholeTexts h →
      Ensures (g.normalizeWithin d levels h) (Label.IsWhole g.doc) :=
  ensures_prints_normalizeWithin isBracketing_isWhole d levels

end Normalization

/-- If the texts that a type is made of are whole, its expression is balanced at every depth, with
any names of properties; and a well-shaped type has one. -/
theorem normalize_keeps_brackets (hs : g.Throughout g.HasWholeTexts h) :
    (∀ (n : Normalizer) (depth : Int) (l : Label), n.normalize g h depth = .ok l →
      isBalanced (l.spliced g.doc).toList = true) ∧
    (g.HasAcyclicAliases → g.WellShapedFrom h → ∀ (n : Normalizer) (depth : Int),
      ∃ s, n.normalize g h depth = .ok (.text s) ∧ isBalanced s.toList = true) := by
  have hwhole (n : Normalizer) (depth : Int) :
      Ensures (n.normalize g h depth) (Label.IsWhole g.doc) :=
    ensures_normalizeWithin n.detector (n.levels depth) h hs
  refine ⟨fun n depth l hl => (hwhole n depth l hl).balanced, fun hacyclic hshaped n depth => ?_⟩
  obtain ⟨l, hl, s, rfl⟩ := yields_normalizeWithin hacyclic n.detector (n.levels depth) h hshaped
  exact ⟨s, hl, (hwhole n depth _ hl).balanced⟩

/-- An object whose properties are named by pieces of type expressions. -/
def jagged : Graph where
  doc := ⟨#[
    .mapping [(.text "kind", .text "object"), (.text "properties", .node 1)],
    .mapping [(.text "a\"\x7d", .text "string"), (.text "=>", .node 2)],
    .mapping [(.text "kind", .text "union"), (.text "members", .node 3)],
    .list [.text "() => void", .text "null"]]⟩
  source := "<memory>"
  files := []
  declarations := []

set_option maxRecDepth 100000 in
theorem jagged_keeps_brackets :
    jagged.Throughout jagged.HasWholeTexts (.anonymous 0) ∧ jagged.HasAcyclicAliases ∧
      jagged.WellShapedFrom (.anonymous 0) ∧ isBalanced "a\"\x7d".toList = false ∧
      ∃ s, Normalizer.normalize ⟨.default, 10⟩ jagged (.anonymous 0) 0 = .ok (.text s) ∧
        isBalanced s.toList = true := by
  let types : List Handle :=
    [.anonymous 0, .leaf "string", .anonymous 2, .leaf "() => void", .leaf "null"]
  have hparts : ∀ e ∈ types, ∀ p ∈ jagged.partsOf e, p ∈ types := by
    have hleaf (t : String) : jagged.partsOf (.leaf t) = [] := rfl
    have h0 : jagged.partsOf (.anonymous 0) = [.leaf "string", .anonymous 2] := rfl
    have h2 : jagged.partsOf (.anonymous 2) = [.leaf "() => void", .leaf "null"] := rfl
    simp [types, hleaf, h0, h2]
  have hs : jagged.Throughout jagged.HasWholeTexts (.anonymous 0) := by
    refine throughout_of_closed types (by simp [types]) ?_ hparts
    simp only [types, List.forall_mem_cons]
    decide +kernel
  have hacyclic := hasAcyclicAliases_of_no_declarations (g := jagged) rfl
  have hshaped : jagged.WellShapedFrom (.anonymous 0) := by
    refine wellShapedFrom_of_closed types (by simp [types]) ?_ hparts
    simp only [types, List.forall_mem_cons]
    decide +kernel
  exact ⟨hs, hacyclic, hshaped, by decide +kernel,
    (normalize_keeps_brackets hs).2 hacyclic hshaped ⟨.default, 10⟩ 0⟩

end RouteCatalog.Graph
