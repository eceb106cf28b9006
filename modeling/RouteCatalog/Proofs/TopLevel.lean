import RouteCatalog.Proofs.Operands

/-! The top level of texts that are put together. A scan comes out of a balanced text as it went in,
so that the top level of two texts is that of the one and then that of the other, unless the seam
makes an arrow of an `=` and a bracket. What stands in brackets is not seen at all. -/

namespace RouteCatalog.TypeExpr

open ScanState

variable {s t : ScanState} {a b cs : List Char} {c : Char} {sign : Sign}

/-- A place in a text that stands `n` characters further to the right. -/
def movedBy (n : Nat) (e : Nat × Char) : Nat × Char := (n + e.1, e.2)

/-- An arrow begins at the end of the first text and is completed by the second. -/
def SplitsArrow (a b : List Char) : Prop := a.getLast? = some '=' ∧ b.head? = some '>'

instance (a b : List Char) : Decidable (SplitsArrow a b) :=
  inferInstanceAs (Decidable (_ ∧ _))

def bracketPairs : List (Char × Char) := [('(', ')'), ('{', '}'), ('[', ']'), ('<', '>')]

section Places

theorem topLevelFrom_add (s : ScanState) (n position : Nat) (cs : List Char) :
    topLevelFrom s (n + position) cs = (topLevelFrom s position cs).map (movedBy n) := by
  induction cs generalizing s position with
  | nil => rfl
  | cons c cs ih =>
    have hrest := ih (s.step c) (position + 1)
    rw [← Nat.add_assoc] at hrest
    simp only [topLevelFrom, hrest]
    split
    · rfl
    · rfl

theorem le_of_mem_topLevelFrom {e : Nat × Char} {position : Nat}
    (he : e ∈ topLevelFrom s position cs) : position ≤ e.1 := by
  induction cs generalizing s position with
  | nil => cases he
  | cons c cs ih =>
    have hrest : e ∈ topLevelFrom (s.step c) (position + 1) cs → position ≤ e.1 := by
      intro he
      have := ih he
      omega
    simp only [topLevelFrom] at he
    split at he
    · rcases List.mem_cons.mp he with rfl | he
      · exact Nat.le_refl _
      · exact hrest he
    · exact hrest he

end Places

section Seam

theorem scanFrom_start_of_isBalanced (ha : isBalanced a = true) :
    scanFrom .start a = ⟨0, .outside, a.getLast?⟩ := by
  rw [scanFrom_of_isBalanced isReady_start ha]
  simp [start]

/-- Of what stands before a character, it matters only whether that closes a bracket. -/
theorem isTop_and_step_of_isCloser (hlevel : s.level = t.level) (hquoting : s.quoting = t.quoting)
    (hcloser : isCloser s.previous c = isCloser t.previous c) :
    s.isTop c = t.isTop c ∧ s.step c = t.step c := by
  constructor
  · simp only [isTop, hlevel, hquoting, hcloser]
  · simp only [ScanState.step, hlevel, hquoting, hcloser]

theorem isCloser_of_not_splitsArrow (h : ¬ SplitsArrow a (c :: cs)) :
    isCloser a.getLast? c = isCloser none c := by
  by_cases hc : c = '>'
  · have hlast : a.getLast? ≠ some '=' := fun hlast => h ⟨hlast, by rw [hc]; rfl⟩
    rw [isCloser, isCloser, bne_iff_ne.mpr hlast]
    rfl
  · rw [isCloser, isCloser, beq_eq_false_iff_ne.mpr hc, Bool.false_and, Bool.false_and]

/-- Behind a balanced text a scan goes on as if it began there. -/
theorem isTop_and_step_behind (ha : isBalanced a = true) (h : ¬ SplitsArrow a (c :: cs)) :
    (scanFrom .start a).isTop c = start.isTop c ∧
      (scanFrom .start a).step c = start.step c := by
  rw [scanFrom_start_of_isBalanced ha]
  exact isTop_and_step_of_isCloser rfl rfl (isCloser_of_not_splitsArrow h)

theorem topLevelFrom_behind (ha : isBalanced a = true) (h : ¬ SplitsArrow a b) (position : Nat) :
    topLevelFrom (scanFrom .start a) position b = topLevelFrom .start position b := by
  cases b with
  | nil => rfl
  | cons c cs =>
    obtain ⟨htop, hstep⟩ := isTop_and_step_behind ha h
    simp only [topLevelFrom, htop, hstep]

theorem showsFrom_behind (ha : isBalanced a = true) (h : ¬ SplitsArrow a b) :
    showsFrom sign (scanFrom .start a) b = shows sign b := by
  cases b with
  | nil => rfl
  | cons c cs =>
    obtain ⟨htop, hstep⟩ := isTop_and_step_behind ha h
    simp only [shows, showsFrom, htop, hstep]

/-- The bracket that completes an arrow is seen behind the arrow's beginning, and not by itself. -/
theorem topLevel_ne_of_splitsArrow (ha : isBalanced a = true) (h : SplitsArrow a b) :
    topLevel (a ++ b) ≠ topLevel a ++ (topLevel b).map (movedBy a.length) := by
  obtain ⟨hlast, hhead⟩ := h
  obtain ⟨cs, rfl⟩ : ∃ cs, b = '>' :: cs := by
    cases b with
    | nil => cases hhead
    | cons c cs =>
      cases hhead
      exact ⟨cs, rfl⟩
  intro heq
  have hseen : (a.length, '>') ∈ topLevelFrom (scanFrom .start a) (0 + a.length) ('>' :: cs) := by
    have htop : (scanFrom .start a).isTop '>' = true := by
      rw [scanFrom_start_of_isBalanced ha, hlast]
      decide
    simp [topLevelFrom, htop]
  rw [topLevel, topLevelFrom_append] at heq
  rw [List.append_cancel_left heq] at hseen
  obtain ⟨e, he, hmoved⟩ := List.mem_map.mp hseen
  have hlater : 0 + 1 ≤ e.1 := by
    have hhidden : start.isTop '>' = false := by decide
    simp only [topLevel, topLevelFrom, hhidden] at he
    exact le_of_mem_topLevelFrom he
  have hplace : a.length + e.1 = a.length := congrArg Prod.fst hmoved
  omega

theorem topLevel_append_iff (ha : isBalanced a = true) :
    topLevel (a ++ b) = topLevel a ++ (topLevel b).map (movedBy a.length) ↔ ¬ SplitsArrow a b := by
  constructor
  · intro heq hsplits
    exact topLevel_ne_of_splitsArrow ha hsplits heq
  · intro h
    rw [topLevel, topLevelFrom_append, topLevelFrom_behind ha h, Nat.zero_add]
    have hmoved := topLevelFrom_add .start a.length 0 b
    rw [Nat.add_zero] at hmoved
    rw [hmoved]
    rfl

theorem isCompound_append (ha : isBalanced a = true) (h : ¬ SplitsArrow a b) :
    isCompound (a ++ b) = (isCompound a || isCompound b) := by
  have hmoved : ((fun e => isOperator e.2) ∘ movedBy a.length : Nat × Char → Bool) =
      fun e => isOperator e.2 := rfl
  unfold isCompound
  rw [(topLevel_append_iff ha).mpr h, List.any_append, List.any_map, hmoved]

theorem isFunction_append (ha : isBalanced a = true) (h : ¬ SplitsArrow a b) :
    isFunction (a ++ b) = (isFunction a || isFunction b) := by
  have hseam : ∀ c ∈ a.getLast?, Sign.arrow c b.head? = Sign.arrow c none := by
    intro c hc
    have hno : ¬ (c = '=' ∧ b.head? = some '>') := by
      rintro ⟨rfl, hhead⟩
      exact h ⟨hc, hhead⟩
    simpa [Sign.arrow] using hno
  rw [isFunction_eq_shows, isFunction_eq_shows, isFunction_eq_shows, shows, showsFrom_append hseam,
    showsFrom_behind ha h]
  rfl

end Seam

section Brackets

theorem isOpener_of_mem_bracketPairs {pair : Char × Char} (hpair : pair ∈ bracketPairs) :
    isOpener pair.1 = true := by
  simp only [bracketPairs, List.mem_cons, List.not_mem_nil, or_false] at hpair
  rcases hpair with rfl | rfl | rfl | rfl
  all_goals rfl

theorem isCloser_of_mem_bracketPairs {pair : Char × Char} (hpair : pair ∈ bracketPairs)
    (hlast : pair.2 = '>' → a.getLast? ≠ some '=') :
    isCloser (a.getLast?.or (some pair.1)) pair.2 = true := by
  simp only [bracketPairs, List.mem_cons, List.not_mem_nil, or_false] at hpair
  rcases hpair with rfl | rfl | rfl | rfl
  · rfl
  · rfl
  · rfl
  · have hne : a.getLast?.or (some '<') ≠ some '=' := by
      cases hlast' : a.getLast? with
      | none => decide
      | some c =>
        rw [hlast'] at hlast
        exact hlast rfl
    rw [isCloser, bne_iff_ne.mpr hne]
    rfl

/-- Nothing is seen of a text whose top level is empty. -/
theorem not_shown_of_topLevel_eq_nil (h : topLevel cs = []) :
    isCompound cs = false ∧ isFunction cs = false := by
  simp [isCompound, isFunction, h]

end Brackets

/-- The top level of a balanced text and any other is that of the two, the places of the second
counted from the end of the first, exactly if no arrow is split between them. Then the two together
show an operator or an arrow if one of them does. In brackets a balanced text shows nothing, and an
angle bracket closes unless the text before it begins an arrow. -/
theorem top_level_is_compositional (ha : isBalanced a = true) :
    (∀ b, topLevel (a ++ b) = topLevel a ++ (topLevel b).map (movedBy a.length) ↔
      ¬ SplitsArrow a b) ∧
    (∀ b, ¬ SplitsArrow a b → isCompound (a ++ b) = (isCompound a || isCompound b) ∧
      isFunction (a ++ b) = (isFunction a || isFunction b)) ∧
    ∀ pair ∈ bracketPairs, (pair.2 = '>' → a.getLast? ≠ some '=') →
      topLevel (pair.1 :: (a ++ [pair.2])) = [] ∧
        isCompound (pair.1 :: (a ++ [pair.2])) = false ∧
        isFunction (pair.1 :: (a ++ [pair.2])) = false ∧
        isBalanced (pair.1 :: (a ++ [pair.2])) = true := by
  refine ⟨fun b => topLevel_append_iff ha, ?_, ?_⟩
  · intro b h
    exact ⟨isCompound_append ha h, isFunction_append ha h⟩
  · intro pair hpair hlast
    have hopener := isOpener_of_mem_bracketPairs hpair
    have hnothing : topLevel (pair.1 :: (a ++ [pair.2])) = [] :=
      topLevelFrom_enclosed isReady_start hopener (isBalanced_iff.mp ha).1 pair.2 0
    obtain ⟨hcompound, hfunction⟩ := not_shown_of_topLevel_eq_nil hnothing
    have hcloser := isCloser_of_mem_bracketPairs hpair hlast
    exact ⟨hnothing, hcompound, hfunction, isBalanced_enclosed hopener ha hcloser⟩

theorem handler_type_is_compositional :
    isBalanced "Map<string, () => void>".toList = true ∧
      ¬ SplitsArrow "Map<string, () => void>".toList " | null".toList ∧
      isCompound ("Map<string, () => void>".toList ++ " | null".toList) = true ∧
      ('<', '>') ∈ bracketPairs ∧ "Map<string, () => void>".toList.getLast? ≠ some '=' ∧
      topLevel ('<' :: ("Map<string, () => void>".toList ++ ['>'])) = [] := by
  have hbalanced : isBalanced "Map<string, () => void>".toList = true := by decide +kernel
  have hseam : ¬ SplitsArrow "Map<string, () => void>".toList " | null".toList := by decide +kernel
  have hlast : "Map<string, () => void>".toList.getLast? ≠ some '=' := by decide +kernel
  have hpair : ('<', '>') ∈ bracketPairs := by simp [bracketPairs]
  obtain ⟨-, hshown, hhidden⟩ := top_level_is_compositional hbalanced
  refine ⟨hbalanced, hseam, ?_, hpair, hlast, (hhidden _ hpair fun _ => hlast).1⟩
  have hunion : isCompound " | null".toList = true := by decide +kernel
  rw [(hshown _ hseam).1, hunion, Bool.or_true]

end RouteCatalog.TypeExpr
