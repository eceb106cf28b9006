import RouteCatalog.Proofs.Alternatives

/-! Reading a printed union back. An operator stands at the top level of a joined text only where it
was put between two operands, so cutting a union there gives its members back. -/

namespace RouteCatalog.TypeExpr

open ScanState

variable {s : ScanState} {op : Char} {place : Nat} {as : List (List Char)} {cs : List Char}
  {parts : List String}

def topPlaces (op : Char) (cs : List Char) : List Nat :=
  ((topLevel cs).filter (·.2 == op)).map Prod.fst

/-- The places of the operators between joined texts, the first of which begins at `place`. Each
operator has a blank on either side. -/
def separatorPlaces (place : Nat) : List (List Char) → List Nat
  | [] => []
  | [_] => []
  | a :: b :: as => (place + a.length + 1) :: separatorPlaces (place + a.length + 3) (b :: as)

theorem filter_topLevelFrom_eq_nil (h : showsFrom (.char op) s cs = false) (place : Nat) :
    (topLevelFrom s place cs).filter (·.2 == op) = [] := by
  induction cs generalizing s place with
  | nil => rfl
  | cons c cs ih =>
    simp only [showsFrom, Sign.char, Bool.or_eq_false_iff] at h
    have hrest := ih h.2 (place + 1)
    simp only [topLevelFrom]
    split
    · rename_i htop
      have hne : (c == op) = false := by simpa [htop] using h.1
      simp [hne, hrest]
    · exact hrest

/-- Reading a separator leaves the scan where a new text may begin. -/
theorem filter_topLevelFrom_separator (hop : IsSeparator op) (hs : s.quoting = .outside)
    (hlevel : s.level = 0) (place : Nat) :
    (topLevelFrom s place [' ', op, ' ']).filter (·.2 == op) = [(place + 1, op)] ∧
      scanFrom s [' ', op, ' '] = ⟨0, .outside, some ' '⟩ := by
  have hblank : (' ' == op) = false := by simpa using hop.blank.symm
  have hfirst : s.step ' ' = ⟨0, .outside, some ' '⟩ := by rw [step_blank hs, hlevel]
  have hsecond : (ScanState.mk 0 .outside (some ' ')).step op = ⟨0, .outside, some op⟩ :=
    step_plain rfl hop.plain
  have hthird : (ScanState.mk 0 .outside (some op)).step ' ' = ⟨0, .outside, some ' '⟩ :=
    step_blank rfl
  have htop : (ScanState.mk 0 .outside (some ' ')).isTop op = true :=
    isTop_of_isPlain rfl rfl hop.plain
  constructor
  · simp only [topLevelFrom, hfirst, hsecond, htop, if_true]
    split <;> split <;> simp [hblank]
  · simp only [scanFrom, List.foldl_cons, List.foldl_nil, hfirst, hsecond, hthird]

/-- In a joined text an operator that no operand shows stands at the top level exactly where it was
put. -/
theorem filter_topLevelFrom_intercalate (hop : IsSeparator op) (hs : s.IsReady)
    (hlevel : s.level = 0) (has : ∀ a ∈ as, isBalanced a = true)
    (hshows : ∀ a ∈ as, shows (.char op) a = false) (place : Nat) :
    ((topLevelFrom s place ([' ', op, ' '].intercalate as)).filter (·.2 == op)).map Prod.fst =
      separatorPlaces place as := by
  induction as generalizing s place with
  | nil => rfl
  | cons a as ih =>
    obtain ⟨ha, has⟩ := List.forall_mem_cons.mp has
    obtain ⟨hshow, hshows⟩ := List.forall_mem_cons.mp hshows
    have hown : (topLevelFrom s place a).filter (·.2 == op) = [] := by
      apply filter_topLevelFrom_eq_nil
      rw [showsFrom_of_ready hs hlevel, hshow]
    cases as with
    | nil => simp [separatorPlaces, hown]
    | cons b as =>
      have hscan := scanFrom_of_isBalanced hs ha
      rw [hlevel] at hscan
      obtain ⟨hbetween, hbehind⟩ := filter_topLevelFrom_separator hop
        (s := scanFrom s a) (by rw [hscan]) (by rw [hscan]) (place + a.length)
      have hready : (ScanState.mk 0 .outside (some ' ')).IsReady :=
        isReady_plain (Int.le_refl 0) (by decide)
      have hrest := ih hready rfl has hshows (place + a.length + 3)
      rw [List.intercalate_cons_cons, List.append_assoc, topLevelFrom_append, topLevelFrom_append,
        List.filter_append, List.filter_append, hown, hbetween, hbehind, List.nil_append,
        List.map_append]
      exact congrArg ((place + a.length + 1) :: ·) hrest

/-- The only bars at the top level of a union of alternatives are the ones that were put between its
members, and cutting at them gives the members back: a function in one pair of parentheses, and
every other member as it is. -/
theorem union_reads_back (hparts : ∀ p ∈ parts, IsAlternative p)
    (hmany : 2 ≤ (unionMembers parts).length) :
    (canonicalUnion parts).toList =
        [' ', '|', ' '].intercalate ((unionMembers parts).map fun p => (operand p).toList) ∧
      topPlaces '|' (canonicalUnion parts).toList =
        separatorPlaces 0 ((unionMembers parts).map fun p => (operand p).toList) ∧
      topOperands '|' (canonicalUnion parts).toList = (unionMembers parts).map fun p =>
        if isFunction p.toList then '(' :: (p.toList ++ [')']) else p.toList := by
  have hmembers : ∀ p ∈ unionMembers parts, IsAlternative p := by
    intro p hp
    rcases mem_of_mem_unionMembers hp with hp | rfl
    · exact hparts p hp
    · exact isAlternative_boolean
  have hbalanced : ∀ p ∈ unionMembers parts, isBalanced p.toList = true :=
    fun p hp => (hmembers p hp).balanced
  have hjoined : (canonicalUnion parts).toList =
      [' ', '|', ' '].intercalate ((unionMembers parts).map fun p => (operand p).toList) :=
    toList_joinOperands rfl (by omega)
  refine ⟨hjoined, ?_, ?_⟩
  · rw [hjoined]
    apply filter_topLevelFrom_intercalate isSeparator_bar isReady_start rfl
    · intro a ha
      obtain ⟨p, hp, rfl⟩ := List.mem_map.mp ha
      exact isBalanced_operand (hbalanced p hp)
    · intro a ha
      obtain ⟨p, hp, rfl⟩ := List.mem_map.mp ha
      rw [shows_operand (hbalanced p hp)]
      rcases (hmembers p hp).readable with hfunction | hbar
      · rw [hfunction]
        rfl
      · rw [hbar, Bool.and_false]
  · have hoperands : topOperands '|' (canonicalUnion parts).toList = _ :=
      topOperands_joinOperands rfl isSeparator_bar hbalanced hmany fun p hp =>
        (hmembers p hp).readable
    rw [hoperands]
    apply List.map_congr_left
    intro p _
    exact toList_operand p

/-- Bars in a literal with escaped quotes, in brackets and in a function are none of the union. -/
def disguised : List String :=
  ["null", "\"a\\\" | (\"", "true", "(x: A | B) => C | D", "Map<() => E, [F | G]>", "false"]

theorem disguised_reads_back :
    (∀ p ∈ disguised, IsAlternative p) ∧ 2 ≤ (unionMembers disguised).length ∧
      topOperands '|' (canonicalUnion disguised).toList =
        ["\"a\\\" | (\"".toList, "((x: A | B) => C | D)".toList, "Map<() => E, [F | G]>".toList,
          "boolean".toList, "null".toList] := by
  have hparts : ∀ p ∈ disguised, IsAlternative p := by decide +kernel
  have hmany : 2 ≤ (unionMembers disguised).length := by decide +kernel
  obtain ⟨-, -, hoperands⟩ := union_reads_back hparts hmany
  refine ⟨hparts, hmany, ?_⟩
  rw [hoperands]
  decide +kernel

end RouteCatalog.TypeExpr
