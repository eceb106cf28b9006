import RouteCatalog.Proofs.Expression
import RouteCatalog.Proofs.Operands

/-! Which members of an intersection stand in parentheses. A function does, so that no arrow shows
between the members. A union does not, although the operator of an intersection binds more tightly
than its own. -/

namespace RouteCatalog

namespace TypeExpr

def grouped (part : String) : String :=
  if isFunction part.toList || shows (.char '|') part.toList then "(" ++ part ++ ")" else part

variable {parts : List String}

theorem joinIntersection_of_many (hmany : 2 ≤ (intersectionMembers parts).length) :
    joinIntersection parts = joinOperands " & " (intersectionMembers parts) := by
  unfold joinIntersection
  split
  · rename_i hnil
    simp [hnil] at hmany
  · rfl

theorem toList_operand_eq_grouped_iff {part : String} :
    (operand part).toList = (grouped part).toList ↔
      (!isFunction part.toList && shows (.char '|') part.toList) = false := by
  unfold operand grouped
  rw [String.toList_inj]
  cases isFunction part.toList with
  | true => simp
  | false =>
    cases shows (.char '|') part.toList with
    | false => simp
    | true =>
      have hne : part ≠ "(" ++ part ++ ")" := by
        intro heq
        have hlength := congrArg String.length heq
        simp only [String.length_append] at hlength
        have hopener : "(".length = 1 := rfl
        omega
      simp [hne]

end TypeExpr

open TypeExpr

namespace Graph

/-- Joined members can be told apart, and functions among them are grouped. The members are grouped
as an intersection needs it exactly if no union shows, that is, if every member that shows the
operator of a union is a function. -/
theorem intersection_groups_members_iff {parts : List String}
    (hparts : ∀ p ∈ parts, isBalanced p.toList = true ∧ shows (.char '&') p.toList = false)
    (hmany : 2 ≤ (intersectionMembers parts).length) :
    (topOperands '&' (joinIntersection parts).toList =
        (intersectionMembers parts).map (fun p => (operand p).toList) ∧
      isFunction (joinIntersection parts).toList = false) ∧
    (topOperands '&' (joinIntersection parts).toList =
        (intersectionMembers parts).map (fun p => (grouped p).toList) ↔
      shows (.char '|') (joinIntersection parts).toList = false) ∧
    (shows (.char '|') (joinIntersection parts).toList = true ↔
      ∃ p ∈ intersectionMembers parts,
        isFunction p.toList = false ∧ shows (.char '|') p.toList = true) ∧
    (∀ (g : Graph) (n : Normalizer) (h : Handle) (ms : List Handle) (depth : Int),
      depth ≤ n.maxDepth → g.kind? h = some .intersection → g.members h = .ok ms →
      g.mergedLiteral (n.normalize g · (depth + 1)) h ms = .ok none →
      ms.mapM (n.normalize g · (depth + 1)) = .ok (parts.map .text) →
      n.normalize g h depth = .ok (.text (joinIntersection parts))) := by
  have hbalanced : ∀ p ∈ intersectionMembers parts, isBalanced p.toList = true := fun p hp =>
    (hparts p (mem_of_mem_intersectionMembers hp)).1
  have hoperands : topOperands '&' (joinIntersection parts).toList =
      (intersectionMembers parts).map fun p => (operand p).toList := by
    rw [joinIntersection_of_many hmany]
    exact topOperands_joinOperands rfl isSeparator_ampersand hbalanced hmany fun p hp =>
      .inr (hparts p (mem_of_mem_intersectionMembers hp)).2
  have hbars : shows (.char '|') (joinIntersection parts).toList =
      (intersectionMembers parts).any fun p =>
        !isFunction p.toList && shows (.char '|') p.toList := by
    rw [joinIntersection_of_many hmany, shows_joinOperands rfl isSeparator_ampersand hbalanced
      (Sign.isSpaced_char (by decide)) hmany]
    exact Bool.or_false _
  refine ⟨⟨hoperands, ?_⟩, ?_, ?_, ?_⟩
  · rw [joinIntersection_of_many hmany]
    exact isFunction_joinOperands rfl isSeparator_ampersand hbalanced hmany
  · rw [hoperands, hbars, List.map_inj_left, List.any_eq_false]
    refine forall₂_congr fun p _ => ?_
    rw [toList_operand_eq_grouped_iff, Bool.not_eq_true]
  · rw [hbars, List.any_eq_true]
    simp
  · intro g n h ms depth hdepth hkind hms hmerged hnormalized
    exact normalize_of_intersection hdepth hkind hms hmerged hnormalized

def branded : Graph where
  doc := ⟨#[
    .mapping [(.text "kind", .text "intersection"), (.text "members", .node 1)],
    .list [.node 2, .text "() => void", .text "Brand"],
    .mapping [(.text "kind", .text "union"), (.text "members", .node 3)],
    .list [.text "string", .text "number"]]⟩
  source := "<memory>"
  files := []
  declarations := []

def brandedMembers : List String := ["string | number", "() => void", "Brand"]

/-- The union stands bare, although it would need parentheses as the function does. -/
theorem branded_union_stands_bare :
    (∀ p ∈ brandedMembers, isBalanced p.toList = true ∧ shows (.char '&') p.toList = false) ∧
      2 ≤ (intersectionMembers brandedMembers).length ∧
      Normalizer.normalize ⟨.default, 10⟩ branded (.anonymous 0) 0 =
        .ok (.text "string | number & (() => void) & Brand") ∧
      topOperands '&' (joinIntersection brandedMembers).toList =
        ["string | number".toList, "(() => void)".toList, "Brand".toList] ∧
      topOperands '&' (joinIntersection brandedMembers).toList ≠
        (intersectionMembers brandedMembers).map (fun p => (grouped p).toList) := by
  have hparts : ∀ p ∈ brandedMembers,
      isBalanced p.toList = true ∧ shows (.char '&') p.toList = false := by decide +kernel
  have hmany : 2 ≤ (intersectionMembers brandedMembers).length := by decide +kernel
  obtain ⟨⟨hoperands, -⟩, hgrouped, hbar, hnormalize⟩ :=
    intersection_groups_members_iff hparts hmany
  have hshows : shows (.char '|') (joinIntersection brandedMembers).toList = true :=
    hbar.mpr ⟨"string | number", by decide +kernel, by decide +kernel⟩
  have hunion : Normalizer.normalize ⟨.default, 10⟩ branded (.anonymous 2) 1 =
      .ok (.text (canonicalUnion ["string", "number"])) := by
    have hms : branded.members (.anonymous 2) = .ok [.leaf "string", .leaf "number"] := by cbv
    refine normalize_of_union (by decide) (by cbv) hms ?_
    simp only [List.mapM_cons, normalize_leaf]
    rfl
  have hjoined : joinIntersection brandedMembers = "string | number & (() => void) & Brand" := by
    decide +kernel
  refine ⟨hparts, hmany, ?_, ?_, ?_⟩
  · rw [← hjoined]
    refine hnormalize branded ⟨.default, 10⟩ (.anonymous 0)
      [.anonymous 2, .leaf "() => void", .leaf "Brand"] 0 (by decide) (by cbv) (by cbv) (by cbv) ?_
    simp only [List.mapM_cons, Int.zero_add, hunion, normalize_leaf]
    rfl
  · rw [hoperands]
    decide +kernel
  · rw [Ne, hgrouped, hshows]
    decide

end Graph

end RouteCatalog
