import RouteCatalog.Proofs.BalancedText
import RouteCatalog.TypeExpr.Join

/-! Operands of a printed union or intersection. The signs at the top level of a joined text are
those of its operands and the ones that were put between them, and cutting at the latter gives the
operands back. -/

namespace RouteCatalog.TypeExpr

open ScanState

/-- A sign is told by its first character and the one after that. -/
abbrev Sign := Char → Option Char → Bool

def Sign.arrow : Sign := fun c next => c == '=' && next == some '>'

def Sign.char (d : Char) : Sign := fun c _ => c == d

def showsFrom (sign : Sign) (s : ScanState) : List Char → Bool
  | [] => false
  | c :: cs => (s.isTop c && sign c cs.head?) || showsFrom sign (s.step c) cs

def shows (sign : Sign) (cs : List Char) : Bool := showsFrom sign .start cs

/-- The pieces of a cut text without the blank on either side of the signs it was cut at. `behind`
says whether a sign stands before the first piece. -/
def unspaced (behind : Bool) : List (List Char) → List (List Char)
  | [] => []
  | [piece] => [if behind then piece.tail else piece]
  | piece :: next :: rest =>
    (if behind then piece.tail else piece).dropLast :: unspaced true (next :: rest)

def topOperands (op : Char) (cs : List Char) : List (List Char) :=
  unspaced false (topPieces (· == op) cs)

variable {sign : Sign} {s t : ScanState} {a b cs : List Char} {op : Char} {part : String}
  {parts : List String}

section Signs

theorem isFunction_eq_shows (cs : List Char) : isFunction cs = shows .arrow cs := by
  -- An arrow is found by looking its position up in the whole text, of which `cs` is the rest.
  have hrest (read cs : List Char) (s : ScanState) :
      (topLevelFrom s read.length cs).any
          (fun e => e.2 == '=' && ((read ++ cs).drop (e.1 + 1)).head? == some '>') =
        showsFrom .arrow s cs := by
    induction cs generalizing read s with
    | nil => rfl
    | cons c cs ih =>
      have hih := ih (read ++ [c]) (s.step c)
      rw [List.length_append, List.append_assoc] at hih
      have hdrop : (read ++ c :: cs).drop (read.length + 1) = cs := by
        rw [List.drop_append]
        simp
      simp only [topLevelFrom, showsFrom, Sign.arrow, ← hih]
      cases s.isTop c with
      | false => rfl
      | true =>
        rw [if_pos rfl, List.any_cons, hdrop]
        rfl
  exact hrest [] cs .start

theorem showsFrom_eq_of_isInside (h : IsInside 0 s t) (cs : List Char) :
    showsFrom sign s cs = showsFrom sign t cs := by
  induction cs generalizing s t with
  | nil => rfl
  | cons c cs ih => simp only [showsFrom, h.isTop_eq, ih (h.step c)]

theorem showsFrom_of_ready (hs : s.IsReady) (hlevel : s.level = 0) (cs : List Char) :
    showsFrom sign s cs = shows sign cs :=
  showsFrom_eq_of_isInside (hlevel ▸ hs.isInside) cs

theorem showsFrom_eq_false {position : Nat} (h : topLevelFrom s position cs = []) :
    showsFrom sign s cs = false := by
  induction cs generalizing s position with
  | nil => rfl
  | cons c cs ih =>
    simp only [topLevelFrom] at h
    split at h
    · cases h
    · rename_i htop
      simp [showsFrom, htop, ih h]

/-- A sign does not reach across a seam if what comes after the seam does not complete it. -/
theorem showsFrom_append (hseam : ∀ c ∈ a.getLast?, sign c b.head? = sign c none) :
    showsFrom sign s (a ++ b) = (showsFrom sign s a || showsFrom sign (scanFrom s a) b) := by
  induction a generalizing s with
  | nil => rfl
  | cons c a ih =>
    have hscan : scanFrom s (c :: a) = scanFrom (s.step c) a := rfl
    have hrest : ∀ d ∈ a.getLast?, sign d b.head? = sign d none := by
      intro d hd
      refine hseam d ?_
      rw [List.getLast?_cons, Option.mem_def.mp hd]
      rfl
    have hhead : sign c (a ++ b).head? = sign c a.head? := by
      cases a with
      | nil => exact hseam c rfl
      | cons d a => rfl
    simp only [List.cons_append, showsFrom, hhead, ih hrest, hscan, Bool.or_assoc]

end Signs

section Joined

/-- A sign that neither contains a blank nor is completed by one. -/
structure Sign.IsSpaced (sign : Sign) : Prop where
  blank : ∀ next, sign ' ' next = false
  seam : ∀ c, sign c (some ' ') = sign c none

theorem Sign.isSpaced_arrow : Sign.arrow.IsSpaced := ⟨fun _ => rfl, fun c => by simp [arrow]⟩

theorem Sign.isSpaced_char (hop : op ≠ ' ') : (Sign.char op).IsSpaced :=
  ⟨fun _ => by simpa [char] using hop.symm, fun _ => rfl⟩

theorem isReady_plain {level : Int} {c : Char} (hlevel : 0 ≤ level) (hc : c ≠ '=') :
    (ScanState.mk level .outside (some c)).IsReady :=
  ⟨hlevel, rfl, by simpa using hc⟩

theorem step_blank (hs : s.quoting = .outside) : s.step ' ' = ⟨s.level, .outside, some ' '⟩ :=
  step_plain hs (by decide)

theorem isTop_of_isPlain (hs : s.quoting = .outside) (hlevel : s.level = 0) {c : Char}
    (hc : isPlain c = true) : s.isTop c = true := by
  have hstep := step_plain hs hc
  simp only [isPlain, Bool.and_eq_true, Bool.not_eq_true'] at hc
  have hcloser : isCloser s.previous c = false := by
    have hnone := hc.2
    simp only [isCloser, Bool.or_eq_false_iff] at hnone ⊢
    exact ⟨hnone.1, by simpa using fun h => absurd h (by simpa using hnone.2)⟩
  simp [isTop, hs, hlevel, hc.1.1, hc.1.2, hcloser]

/-- A character that stands for an operator with a blank on either side. -/
structure IsSeparator (op : Char) : Prop where
  plain : isPlain op = true
  blank : op ≠ ' '
  arrow : op ≠ '='

theorem isSeparator_bar : IsSeparator '|' := ⟨by decide, by decide, by decide⟩

theorem isSeparator_ampersand : IsSeparator '&' := ⟨by decide, by decide, by decide⟩

variable {as : List (List Char)}

/-- The signs of a joined text are those of its operands and the operators between them. -/
theorem showsFrom_intercalate (hsign : sign.IsSpaced) (hop : IsSeparator op) (hs : s.IsReady)
    (hlevel : s.level = 0) (has : ∀ a ∈ as, isBalanced a = true) :
    showsFrom sign s ([' ', op, ' '].intercalate as) =
      (as.any (shows sign) || (decide (2 ≤ as.length) && sign op (some ' '))) := by
  induction as generalizing s with
  | nil => simp [List.intercalate, showsFrom]
  | cons a as ih =>
    obtain ⟨ha, has⟩ := List.forall_mem_cons.mp has
    cases as with
    | nil => simp [List.intercalate, showsFrom_of_ready hs hlevel]
    | cons b as =>
      have hscan := scanFrom_of_isBalanced hs ha
      rw [hlevel] at hscan
      have hafter : (ScanState.mk 0 .outside (some ' ')).IsReady :=
        isReady_plain (Int.le_refl 0) (by decide)
      have htop : (ScanState.mk 0 .outside (some ' ')).isTop op = true :=
        isTop_of_isPlain rfl rfl hop.plain
      have hstep : (ScanState.mk 0 .outside (some ' ')).step op = ⟨0, .outside, some op⟩ :=
        step_plain rfl hop.plain
      have hrest := ih hafter rfl has
      rw [List.intercalate_cons_cons, List.append_assoc,
        showsFrom_append fun c _ => hsign.seam c, showsFrom_of_ready hs hlevel, hscan]
      simp only [List.cons_append, List.nil_append, showsFrom, step_blank, hstep, htop,
        hsign.blank, List.head?_cons, Bool.and_false, Bool.false_or, Bool.true_and, hrest]
      cases sign op (some ' ') <;> simp

theorem topPiecesFrom_cons (p : Char → Bool) (s : ScanState) (c : Char) (cs : List Char) :
    topPiecesFrom p s (c :: cs) =
      if s.isTop c && p c then [] :: topPiecesFrom p (s.step c) cs
      else (topPiecesFrom p (s.step c) cs).modifyHead (c :: ·) := by
  have hne := topPiecesFrom_ne_nil p (s.step c) cs
  rw [topPiecesFrom]
  split
  · rfl
  · split
    · rename_i hnil
      exact (hne hnil).elim
    · rename_i hcons
      rw [hcons]
      rfl

/-- A text without signs belongs to the piece that begins after it. -/
theorem topPiecesFrom_append {p : Char → Bool} (h : showsFrom (fun c _ => p c) s a = false) :
    topPiecesFrom p s (a ++ b) = (topPiecesFrom p (scanFrom s a) b).modifyHead (a ++ ·) := by
  induction a generalizing s with
  | nil =>
    change _ = (topPiecesFrom p s b).modifyHead id
    rw [List.modifyHead_id]
    rfl
  | cons c a ih =>
    rw [showsFrom, Bool.or_eq_false_iff] at h
    have hscan : scanFrom s (c :: a) = scanFrom (s.step c) a := rfl
    rw [List.cons_append, topPiecesFrom_cons, h.1, ih h.2, hscan, if_neg (by decide),
      List.modifyHead_modifyHead]
    rfl

theorem unspaced_cons {behind : Bool} {piece : List Char} {pieces : List (List Char)}
    (hne : pieces ≠ []) : unspaced behind (piece :: pieces) =
      (if behind then piece.tail else piece).dropLast :: unspaced true pieces := by
  cases pieces with
  | nil => exact (hne rfl).elim
  | cons next rest => rfl

/-- Cutting a joined text at its operators gives the operands back. -/
theorem unspaced_topPiecesFrom (hop : IsSeparator op) (behind : Bool) (hs : s.IsReady)
    (hlevel : s.level = 0) (hne : as ≠ []) (has : ∀ a ∈ as, isBalanced a = true)
    (hshows : ∀ a ∈ as, shows (.char op) a = false) :
    unspaced behind (topPiecesFrom (· == op) s
      ((if behind then [' '] else []) ++ [' ', op, ' '].intercalate as)) = as := by
  induction as generalizing s behind with
  | nil => exact (hne rfl).elim
  | cons a as ih =>
    obtain ⟨ha, has⟩ := List.forall_mem_cons.mp has
    obtain ⟨hshow, hshows⟩ := List.forall_mem_cons.mp hshows
    -- The blank that belongs to the operator before is read together with the operand.
    generalize hlead : (if behind then [' '] else [] : List Char) = lead
    have htrim (rest : List Char) :
        (if behind then (lead ++ rest).tail else lead ++ rest) = rest := by
      cases behind <;> subst hlead <;> rfl
    have hready : (scanFrom s lead).IsReady ∧ (scanFrom s lead).level = 0 ∧
        showsFrom (.char op) s lead = false := by
      cases behind with
      | false =>
        subst hlead
        exact ⟨hs, hlevel, rfl⟩
      | true =>
        subst hlead
        have hstep : scanFrom s [' '] = ⟨0, .outside, some ' '⟩ := by
          rw [← hlevel]
          exact step_blank hs.quoting
        rw [if_pos rfl, hstep]
        refine ⟨isReady_plain (Int.le_refl 0) (by decide), rfl, ?_⟩
        simp [showsFrom, Sign.char, hop.blank.symm]
    obtain ⟨hlead, hzero, hblank⟩ := hready
    have hpiece : showsFrom (.char op) s (lead ++ a) = false := by
      rw [showsFrom_append fun _ _ => rfl, hblank, showsFrom_of_ready hlead hzero, hshow]
      rfl
    have hscan : scanFrom s (lead ++ a) = ⟨0, .outside, a.getLast?.or (scanFrom s lead).previous⟩ := by
      rw [scanFrom_append, scanFrom_of_isBalanced hlead ha, hzero]
    cases as with
    | nil =>
      have hpieces := topPiecesFrom_append (p := (· == op)) (b := []) hpiece
      rw [List.append_nil] at hpieces
      rw [List.intercalate_singleton, hpieces]
      simp only [topPiecesFrom, List.modifyHead_cons, List.append_nil, unspaced, htrim]
    | cons b as =>
      have hrest := ih true (s := ⟨0, .outside, some op⟩)
        (isReady_plain (Int.le_refl 0) hop.arrow) rfl (by simp) has hshows
      have htop : (ScanState.mk 0 .outside (some ' ')).isTop op = true :=
        isTop_of_isPlain rfl rfl hop.plain
      have hcut (rest : List Char) : topPiecesFrom (· == op) s (lead ++ (a ++ ' ' :: op :: rest)) =
          (lead ++ (a ++ [' '])) :: topPiecesFrom (· == op) ⟨0, .outside, some op⟩ rest := by
        rw [← List.append_assoc, topPiecesFrom_append (p := (· == op)) hpiece, hscan, topPiecesFrom_cons,
          step_blank rfl, topPiecesFrom_cons, step_plain rfl hop.plain, htop]
        simp [hop.blank.symm]
      rw [List.intercalate_cons_cons, List.append_assoc]
      simp only [List.cons_append, List.nil_append]
      rw [hcut, unspaced_cons (topPiecesFrom_ne_nil _ _ _), htrim, List.dropLast_concat]
      exact congrArg (a :: ·) hrest

end Joined

section Operands

theorem toList_operand (part : String) : (operand part).toList =
    if isFunction part.toList then '(' :: (part.toList ++ [')']) else part.toList := by
  unfold operand
  split
  · simp
  · rfl

theorem isBalanced_operand (hpart : isBalanced part.toList = true) :
    isBalanced (operand part).toList = true := by
  rw [toList_operand]
  split
  · exact isBalanced_enclosed rfl hpart (by simp [isCloser])
  · exact hpart

theorem shows_operand (hpart : isBalanced part.toList = true) :
    shows sign (operand part).toList = (!isFunction part.toList && shows sign part.toList) := by
  rw [toList_operand]
  cases isFunction part.toList with
  | true =>
    exact showsFrom_eq_false
      (topLevelFrom_enclosed isReady_start rfl (isBalanced_iff.mp hpart).1 ')' 0)
  | false => rfl

variable {operator : String} (hoperator : operator.toList = [' ', op, ' '])
include hoperator

theorem toList_joinOperands (hmany : parts.length ≠ 1) :
    (joinOperands operator parts).toList =
      [' ', op, ' '].intercalate (parts.map fun p => (operand p).toList) := by
  unfold joinOperands
  split
  · simp at hmany
  · rw [String.toList_intercalate, hoperator, List.map_map]
    rfl

variable (hop : IsSeparator op) (hparts : ∀ p ∈ parts, isBalanced p.toList = true)
include hop hparts

theorem shows_joinOperands (hsign : sign.IsSpaced) (hmany : 2 ≤ parts.length) :
    shows sign (joinOperands operator parts).toList =
      (parts.any (fun p => !isFunction p.toList && shows sign p.toList) || sign op (some ' ')) := by
  have hbalanced : ∀ a ∈ parts.map fun p => (operand p).toList, isBalanced a = true := by
    intro a ha
    obtain ⟨p, hp, rfl⟩ := List.mem_map.mp ha
    exact isBalanced_operand (hparts p hp)
  have hany : (parts.map fun p => (operand p).toList).any (shows sign) =
      parts.any fun p => !isFunction p.toList && shows sign p.toList := by
    rw [List.any_map, List.any_eq, List.any_eq]
    refine decide_eq_decide.mpr (exists_congr fun p => and_congr_right fun hp => ?_)
    rw [Function.comp_apply, shows_operand (hparts p hp)]
  rw [toList_joinOperands hoperator (by omega), shows,
    showsFrom_intercalate hsign hop isReady_start rfl hbalanced, hany]
  simp [hmany]

theorem isFunction_joinOperands (hmany : 2 ≤ parts.length) :
    isFunction (joinOperands operator parts).toList = false := by
  rw [isFunction_eq_shows,
    shows_joinOperands hoperator hop hparts Sign.isSpaced_arrow hmany, Bool.or_eq_false_iff]
  refine ⟨List.any_eq_false.mpr fun p _ => ?_, by simp [Sign.arrow]⟩
  rw [← isFunction_eq_shows]
  simp

/-- The operands can be read back from a joined text if no operator of the same kind stands at the
top level of one of them, other than inside a function. -/
theorem topOperands_joinOperands (hmany : 2 ≤ parts.length)
    (hshows : ∀ p ∈ parts, isFunction p.toList = true ∨ shows (.char op) p.toList = false) :
    topOperands op (joinOperands operator parts).toList = parts.map fun p => (operand p).toList := by
  have hne : parts.map (fun p => (operand p).toList) ≠ [] := by
    rw [Ne, List.map_eq_nil_iff]
    rintro rfl
    simp at hmany
  rw [toList_joinOperands hoperator (by omega)]
  refine unspaced_topPiecesFrom hop false isReady_start rfl hne ?_ ?_
  · intro a ha
    obtain ⟨p, hp, rfl⟩ := List.mem_map.mp ha
    exact isBalanced_operand (hparts p hp)
  · intro a ha
    obtain ⟨p, hp, rfl⟩ := List.mem_map.mp ha
    rw [shows_operand (hparts p hp)]
    rcases hshows p hp with h | h <;> simp [h]

end Operands

end RouteCatalog.TypeExpr
