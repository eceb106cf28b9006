import RouteCatalog.Proofs.BracketedNormalization
import RouteCatalog.Proofs.Expression
import RouteCatalog.Proofs.Operands

/-! Arrays as operands. An arrow never shows in an array, since a function stands in parentheses
there. An operator shows exactly if the element's own text shows one and stands bare, as it does
unless the element is a union, an intersection or a function. -/

namespace RouteCatalog

namespace TypeExpr

open ScanState

variable {cs : List Char}

theorem topLevelFrom_brackets (s : ScanState) (position : Nat) :
    topLevelFrom s position ['[', ']'] = [] := by
  simp [topLevelFrom, isTop, isOpener, isCloser]

theorem topLevel_suffixed (cs : List Char) : topLevel (cs ++ ['[', ']']) = topLevel cs := by
  unfold topLevel
  rw [topLevelFrom_append, topLevelFrom_brackets, List.append_nil]

theorem isCompound_suffixed (cs : List Char) : isCompound (cs ++ ['[', ']']) = isCompound cs := by
  unfold isCompound
  rw [topLevel_suffixed]

theorem isFunction_suffixed (cs : List Char) : isFunction (cs ++ ['[', ']']) = isFunction cs := by
  -- The bracket does not make an arrow of an `=` at the end of the text.
  have hseam : ∀ c ∈ cs.getLast?, Sign.arrow c ['[', ']'].head? = Sign.arrow c none := by
    intro c _
    simp [Sign.arrow]
  rw [isFunction_eq_shows, isFunction_eq_shows, shows, showsFrom_append hseam,
    showsFrom_eq_false (topLevelFrom_brackets (scanFrom .start cs) 0), Bool.or_false]
  rfl

def IsOperand (cs : List Char) : Prop := isFunction cs = false ∧ isCompound cs = false

theorem IsOperand.of_topLevel (h : ∀ e ∈ topLevel cs, e.2 ≠ '=' ∧ isOperator e.2 = false) :
    IsOperand cs := by
  constructor
  · apply List.any_eq_false.mpr
    intro e he
    simp [(h e he).1]
  · apply List.any_eq_false.mpr
    intro e he
    simp [(h e he).2]

theorem isOperand_parenthesized (h : staysOpen .start cs = true) :
    IsOperand ('(' :: (cs ++ [')']) ++ ['[', ']']) := by
  have hnothing : topLevel ('(' :: (cs ++ [')']) ++ ['[', ']']) = [] := by
    rw [topLevel_suffixed]
    exact topLevelFrom_enclosed isReady_start rfl h ')' 0
  apply IsOperand.of_topLevel
  rw [hnothing]
  simp

theorem isOperand_applied (h : staysOpen .start cs = true) :
    IsOperand ("Array".toList ++ '<' :: (cs ++ ['>'])) := by
  have hready : (scanFrom .start "Array".toList).IsReady :=
    (isWhole_of_mem_printedWords "Array" (by simp [printedWords])).isReady_scanFrom isReady_start
  have hname : topLevel ("Array".toList ++ '<' :: (cs ++ ['>'])) = topLevel "Array".toList := by
    unfold topLevel
    rw [topLevelFrom_append, topLevelFrom_enclosed hready rfl h, List.append_nil]
  have hletters : "Array".toList = ['A', 'r', 'r', 'a', 'y'] := rfl
  apply IsOperand.of_topLevel
  rw [hname, hletters]
  decide

end TypeExpr

namespace Graph

open TypeExpr

variable {g : Graph} {n : Normalizer} {h e : Handle} {depth : Int}

/-- Of an array, an arrow never stands at the top level, and an operator only if the element shows
one and nothing is put around it. -/
theorem isOperand_arrayOf (g : Graph) (e : Handle) {t : String} (ht : HoldsLevel t.toList) :
    ∃ s, g.arrayOf e (.text t) = .ok (.text s) ∧ isFunction s.toList = false ∧
      (IsOperand s.toList ↔ (isCompound t.toList = true → isFunction t.toList = true ∨
        g.isKind .union e = true ∨ g.isKind .intersection e = true)) := by
  unfold arrayOf
  simp only [Label.toChars, Label.spliced, bind, Except.bind]
  by_cases happlied : ((g.isKind .union e || g.isKind .intersection e) &&
      isCompound t.toList) = true
  · have htext : ("Array<" ++ t ++ ">").toList = "Array".toList ++ '<' :: (t.toList ++ ['>']) := by
      simp
    have hoperand : IsOperand ("Array<" ++ t ++ ">").toList := htext ▸ isOperand_applied ht.staysOpen
    rw [if_pos happlied]
    simp only [Bool.and_eq_true, Bool.or_eq_true] at happlied
    exact ⟨_, rfl, hoperand.1, fun _ _ => .inr happlied.1, fun _ => hoperand⟩
  · rw [if_neg happlied]
    by_cases harrow : isFunction t.toList = true
    · have htext : ("(" ++ t ++ ")[]").toList = '(' :: (t.toList ++ [')']) ++ ['[', ']'] := by simp
      have hoperand : IsOperand ("(" ++ t ++ ")[]").toList :=
        htext ▸ isOperand_parenthesized ht.staysOpen
      rw [if_pos harrow]
      exact ⟨_, rfl, hoperand.1, fun _ _ => .inl harrow, fun _ => hoperand⟩
    · have htext : (t ++ "[]").toList = t.toList ++ ['[', ']'] := by simp
      rw [if_neg harrow]
      refine ⟨_, rfl, ?_⟩
      rw [Bool.not_eq_true] at harrow
      rw [IsOperand, htext, isFunction_suffixed, isCompound_suffixed]
      refine ⟨harrow, ?_⟩
      constructor
      · intro hoperand hcompound
        rw [hoperand.2] at hcompound
        cases hcompound
      · intro hwrapped
        refine ⟨harrow, ?_⟩
        by_contra hcompound
        rw [Bool.not_eq_false] at hcompound
        rcases hwrapped hcompound with hfunction | hkind
        · rw [harrow] at hfunction
          cases hfunction
        · apply happlied
          rw [hcompound, Bool.and_true, Bool.or_eq_true]
          exact hkind

/-- What a type prints whose texts are balanced never goes below the level where it stands. -/
theorem holdsLevel_of_normalize {t : String} (htexts : g.Throughout
    (g.HasTexts fun cs => isBalanced cs = true) h) (ht : n.normalize g h depth = .ok (.text t)) :
    HoldsLevel t.toList := by
  have hholds : g.Throughout (g.HasTexts HoldsLevel) h := by
    intro h' hpart
    apply (htexts h' hpart).mono
    intro cs hcs
    exact .of_isBalanced hcs
  exact ensures_prints_normalizeWithin isBracketing_holdsLevel n.detector _ h hholds _ ht

/-- An array of an element whose texts are balanced shows no arrow. It shows no operator either, so
that its brackets belong to the whole element, exactly if an element that shows one is a union, an
intersection or a function. If the element is well shaped, it prints as a text. -/
theorem array_is_operand_iff (hdepth : depth ≤ n.maxDepth) (hkind : g.kind? h = some .array)
    (helement : g.element h = .ok (some e))
    (htexts : g.Throughout (g.HasTexts fun cs => isBalanced cs = true) e) :
    (∀ t, n.normalize g e (depth + 1) = .ok (.text t) →
      ∃ s, n.normalize g h depth = .ok (.text s) ∧ isFunction s.toList = false ∧
        (IsOperand s.toList ↔ (isCompound t.toList = true → isFunction t.toList = true ∨
          g.isKind .union e = true ∨ g.isKind .intersection e = true))) ∧
    (g.HasAcyclicAliases → g.WellShapedFrom e →
      ∃ t, n.normalize g e (depth + 1) = .ok (.text t)) := by
  constructor
  · intro t ht
    obtain ⟨s, hs, hshows⟩ := isOperand_arrayOf g e (holdsLevel_of_normalize htexts ht)
    refine ⟨s, ?_, hshows⟩
    rw [normalize_of_array hdepth hkind helement, ht]
    exact hs
  · intro hacyclic hshaped
    obtain ⟨l, hl, t, rfl⟩ := yields_normalizeWithin hacyclic n.detector _ e hshaped
    exact ⟨t, hl⟩

/-- An array of a union that is written as a text, and one of a union that has members. -/
def stacked : Graph where
  doc := ⟨#[
    .mapping [(.text "kind", .text "array"), (.text "element", .text "string | number")],
    .mapping [(.text "kind", .text "array"), (.text "element", .node 2)],
    .mapping [(.text "kind", .text "union"), (.text "members", .node 3)],
    .list [.text "() => void", .text "null"]]⟩
  source := "<memory>"
  files := []
  declarations := []

set_option maxRecDepth 100000 in
theorem stacked_union_is_enclosed :
    (0 : Int) ≤ Normalizer.maxDepth ⟨.default, 10⟩ ∧ stacked.kind? (.anonymous 1) = some .array ∧
      stacked.element (.anonymous 1) = .ok (some (.anonymous 2)) ∧
      stacked.Throughout (stacked.HasTexts fun cs => isBalanced cs = true) (.anonymous 2) ∧
      stacked.HasAcyclicAliases ∧ stacked.WellShapedFrom (.anonymous 2) ∧
      ∃ s, Normalizer.normalize ⟨.default, 10⟩ stacked (.anonymous 1) 0 = .ok (.text s) ∧
        IsOperand s.toList := by
  let types : List Handle := [.anonymous 2, .leaf "() => void", .leaf "null"]
  have hparts : ∀ e ∈ types, ∀ p ∈ stacked.partsOf e, p ∈ types := by
    have hleaf (t : String) : stacked.partsOf (.leaf t) = [] := rfl
    have h2 : stacked.partsOf (.anonymous 2) = [.leaf "() => void", .leaf "null"] := rfl
    simp [types, hleaf, h2]
  have htexts : stacked.Throughout (stacked.HasTexts fun cs => isBalanced cs = true)
      (.anonymous 2) := by
    refine throughout_of_closed types (by simp [types]) ?_ hparts
    simp only [types, List.forall_mem_cons]
    decide +kernel
  have hacyclic := hasAcyclicAliases_of_no_declarations (g := stacked) rfl
  have hshaped : stacked.WellShapedFrom (.anonymous 2) := by
    refine wellShapedFrom_of_closed types (by simp [types]) ?_ hparts
    simp only [types, List.forall_mem_cons]
    decide +kernel
  have hdepth : (0 : Int) ≤ Normalizer.maxDepth ⟨.default, 10⟩ := by decide
  have hkind : stacked.kind? (.anonymous 1) = some .array := by cbv
  have helement : stacked.element (.anonymous 1) = .ok (some (.anonymous 2)) := by cbv
  obtain ⟨hshows, hprints⟩ :=
    array_is_operand_iff (n := ⟨.default, 10⟩) hdepth hkind helement htexts
  obtain ⟨t, ht⟩ := hprints hacyclic hshaped
  obtain ⟨s, hs, -, hiff⟩ := hshows t ht
  have hunion : stacked.isKind .union (.anonymous 2) = true := by cbv
  exact ⟨hdepth, hkind, helement, htexts, hacyclic, hshaped, s, hs,
    hiff.mpr fun _ => .inr (.inl hunion)⟩

set_option maxRecDepth 100000 in
theorem stacked_text_stands_bare :
    (0 : Int) ≤ Normalizer.maxDepth ⟨.default, 10⟩ ∧ stacked.kind? (.anonymous 0) = some .array ∧
      stacked.element (.anonymous 0) = .ok (some (.leaf "string | number")) ∧
      stacked.Throughout (stacked.HasTexts fun cs => isBalanced cs = true)
        (.leaf "string | number") ∧
      Normalizer.normalize ⟨.default, 10⟩ stacked (.anonymous 0) 0 =
        .ok (.text "string | number[]") ∧
      isCompound "string | number[]".toList = true := by
  have hdepth : (0 : Int) ≤ Normalizer.maxDepth ⟨.default, 10⟩ := by decide
  have hkind : stacked.kind? (.anonymous 0) = some .array := by cbv
  have helement : stacked.element (.anonymous 0) = .ok (some (.leaf "string | number")) := by cbv
  refine ⟨hdepth, hkind, helement, ?_, ?_, by decide +kernel⟩
  · refine throughout_of_closed [.leaf "string | number"] (by simp) ?_ ?_
    · rw [List.forall_mem_singleton]
      decide +kernel
    · have hleaf : stacked.partsOf (.leaf "string | number") = [] := rfl
      simp [hleaf]
  · rw [normalize_of_array hdepth hkind helement, normalize_leaf]
    have hprinted : stacked.arrayOf (.leaf "string | number") (.text "string | number") =
        .ok (.text "string | number[]") := by cbv
    exact hprinted

end Graph

end RouteCatalog
