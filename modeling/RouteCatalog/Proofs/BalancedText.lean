import Mathlib
import RouteCatalog.TypeExpr.Balance

/-! Balanced texts as parts of larger ones. A scan that does not stand behind the beginning of an
arrow reads a balanced text as it reads it alone: it shows the same characters at the level where
the text stands, and it comes out at that level. Inside brackets it shows none. -/

namespace RouteCatalog.TypeExpr

variable {s t : ScanState} {n : Int} {a b cs : List Char} {c o : Char}

namespace ScanState

/-- One scan stands inside `n` more brackets than another. Of the character before, it matters only
whether an arrow begins with it. -/
structure IsInside (n : Int) (s t : ScanState) : Prop where
  level : s.level = t.level + n
  quoting : s.quoting = t.quoting
  arrow : s.previous = some '=' ↔ t.previous = some '='

namespace IsInside

theorem isCloser_eq (h : IsInside n s t) (c : Char) :
    isCloser s.previous c = isCloser t.previous c := by
  unfold isCloser
  by_cases hp : t.previous = some '='
  · rw [h.arrow.mpr hp, hp]
  · have hs : s.previous ≠ some '=' := mt h.arrow.mp hp
    rw [bne_iff_ne.mpr hs, bne_iff_ne.mpr hp]

theorem step (h : IsInside n s t) (c : Char) : IsInside n (s.step c) (t.step c) := by
  have hlevel := h.level
  refine ⟨?_, ?_, Iff.rfl⟩
  · simp only [ScanState.step, h.quoting, h.isCloser_eq]
    split
    · exact hlevel
    · split
      · omega
      · split <;> omega
  · simp only [ScanState.step, h.quoting]

theorem scanFrom (h : IsInside n s t) (cs : List Char) :
    IsInside n (scanFrom s cs) (scanFrom t cs) := by
  induction cs generalizing s t with
  | nil => exact h
  | cons c cs ih => exact ih (h.step c)

theorem staysOpen (h : IsInside n s t) (hn : 0 ≤ n) (ht : staysOpen t cs = true) :
    staysOpen s cs = true := by
  induction cs generalizing s t with
  | nil => rfl
  | cons c cs ih =>
    simp only [TypeExpr.staysOpen, Bool.and_eq_true, decide_eq_true_eq] at ht ⊢
    have hlevel := (h.step c).level
    exact ⟨by omega, ih (h.step c) ht.2⟩

theorem isTop_eq (h : IsInside 0 s t) (c : Char) : s.isTop c = t.isTop c := by
  have hlevel : s.level = t.level := by
    have := h.level
    omega
  unfold isTop
  rw [h.quoting, h.isCloser_eq, hlevel]

/-- Inside a bracket nothing stands at the top level. -/
theorem topLevelFrom_eq_nil (h : IsInside n s t) (hn : 0 < n) (hlevel : 0 ≤ t.level)
    (ht : TypeExpr.staysOpen t cs = true) (position : Nat) : topLevelFrom s position cs = [] := by
  induction cs generalizing s t position with
  | nil => rfl
  | cons c cs ih =>
    simp only [TypeExpr.staysOpen, Bool.and_eq_true, decide_eq_true_eq] at ht
    have hne : s.level ≠ 0 := by
      have := h.level
      omega
    have htop : s.isTop c = false := by simp [isTop, hne]
    simp only [topLevelFrom, htop, ih (h.step c) ht.1 ht.2]
    rfl

end IsInside

structure IsReady (s : ScanState) : Prop where
  level : 0 ≤ s.level
  quoting : s.quoting = .outside
  arrow : s.previous ≠ some '='

theorem isReady_start : start.IsReady := ⟨Int.le_refl 0, rfl, by decide⟩

theorem IsReady.isInside (hs : s.IsReady) : IsInside s.level s start :=
  ⟨by simp [start], hs.quoting, ⟨fun h => (hs.arrow h).elim, fun h => by cases h⟩⟩

end ScanState

open ScanState

theorem previous_scanFrom (s : ScanState) (cs : List Char) :
    (scanFrom s cs).previous = cs.getLast?.or s.previous := by
  induction cs generalizing s with
  | nil => simp [scanFrom]
  | cons c cs ih =>
    have hstep : scanFrom s (c :: cs) = scanFrom (s.step c) cs := rfl
    rw [hstep, ih, List.getLast?_cons]
    cases cs.getLast? <;> rfl

theorem level_step_ge (s : ScanState) (c : Char) : s.level - 1 ≤ (s.step c).level := by
  simp only [ScanState.step]
  split_ifs <;> omega

theorem level_nonneg (hlevel : 0 ≤ s.level) (h : staysOpen s cs = true) :
    0 ≤ (scanFrom s cs).level := by
  induction cs generalizing s with
  | nil => exact hlevel
  | cons c cs ih =>
    simp only [staysOpen, Bool.and_eq_true, decide_eq_true_eq] at h
    exact ih h.1 h.2

theorem isBalanced_iff : isBalanced cs = true ↔
    staysOpen .start cs = true ∧ (scanFrom .start cs).level = 0 ∧
      (scanFrom .start cs).quoting = .outside := by
  simp [isBalanced, ScanState.isClosed]

theorem scanFrom_of_isBalanced (hs : s.IsReady) (ha : isBalanced a = true) :
    scanFrom s a = ⟨s.level, .outside, a.getLast?.or s.previous⟩ := by
  obtain ⟨-, hlevel, hquoting⟩ := isBalanced_iff.mp ha
  have hinside := hs.isInside.scanFrom a
  have hprevious := previous_scanFrom s a
  have hlevel' := hinside.level
  have hquoting' := hinside.quoting
  cases hscan : scanFrom s a with
  | mk level quoting previous =>
    simp only [hscan] at hlevel' hquoting' hprevious
    rw [hlevel', hquoting', hprevious, hlevel, hquoting, Int.zero_add]

theorem staysOpen_of_isBalanced (hs : s.IsReady) (ha : isBalanced a = true) :
    staysOpen s a = true :=
  hs.isInside.staysOpen hs.level (isBalanced_iff.mp ha).1

/-- A text that never goes below the level where it stands and ends outside literals. It may leave
brackets open. -/
structure HoldsLevel (cs : List Char) : Prop where
  staysOpen : TypeExpr.staysOpen .start cs = true
  quoting : (scanFrom .start cs).quoting = .outside

theorem HoldsLevel.of_isBalanced (ha : isBalanced a = true) : HoldsLevel a :=
  ⟨(isBalanced_iff.mp ha).1, (isBalanced_iff.mp ha).2.2⟩

section Bracket

theorem not_isQuote_of_isOpener (ho : isOpener o = true) : isQuote o = false := by
  simp only [isOpener, Bool.or_eq_true, beq_iff_eq] at ho
  rcases ho with ((rfl | rfl) | rfl) | rfl <;> rfl

theorem ne_arrow_of_isOpener (ho : isOpener o = true) : o ≠ '=' := by
  rintro rfl
  cases ho

theorem step_opener (hs : s.IsReady) (ho : isOpener o = true) :
    s.step o = ⟨s.level + 1, .outside, some o⟩ := by
  simp [ScanState.step, hs.quoting, not_isQuote_of_isOpener ho, ho, Quoting.next]

theorem isReady_opener (hs : s.IsReady) (ho : isOpener o = true) : (s.step o).IsReady := by
  have hlevel := hs.level
  rw [step_opener hs ho]
  exact ⟨by simp only; omega, rfl, by simpa using ne_arrow_of_isOpener ho⟩

theorem isCloser_cases {p : Option Char} (hc : isCloser p c = true) :
    c = '}' ∨ c = ']' ∨ c = ')' ∨ c = '>' := by
  simp only [isCloser, Bool.or_eq_true, Bool.and_eq_true, beq_iff_eq] at hc
  tauto

theorem step_closer {level : Int} {p : Option Char} (hc : isCloser p c = true) :
    (ScanState.mk level .outside p).step c = ⟨level - 1, .outside, some c⟩ := by
  have hquote : isQuote c = false := by
    rcases isCloser_cases hc with rfl | rfl | rfl | rfl <;> rfl
  have hopener : isOpener c = false := by
    rcases isCloser_cases hc with rfl | rfl | rfl | rfl <;> rfl
  simp [ScanState.step, hquote, hopener, hc, Quoting.next]

theorem topLevelFrom_enclosed (hs : s.IsReady) (ho : isOpener o = true)
    (ha : staysOpen .start a = true) (c : Char) (position : Nat) :
    topLevelFrom s position (o :: (a ++ [c])) = [] := by
  have hready := isReady_opener hs ho
  have hlevel : (s.step o).level = s.level + 1 := by rw [step_opener hs ho]
  have hpositive : 0 < (s.step o).level := by
    have := hs.level
    omega
  have hopener : s.isTop o = false := by simp [isTop, ho]
  have hinner : topLevelFrom (s.step o) (position + 1) a = [] :=
    hready.isInside.topLevelFrom_eq_nil hpositive (Int.le_refl 0) ha _
  have hcloser : (scanFrom (s.step o) a).isTop c = false := by
    have hinside := (hready.isInside.scanFrom a).level
    have hopen := level_nonneg (Int.le_refl start.level) ha
    have hne : (scanFrom (s.step o) a).level ≠ 0 := by omega
    simp [isTop, hne]
  simp only [topLevelFrom, hopener, topLevelFrom_append, hinner, hcloser]
  rfl

variable (hs : s.IsReady) (ho : isOpener o = true) (ha : isBalanced a = true)
  (hc : isCloser (a.getLast?.or (some o)) c = true)
include hs ho ha hc

/-- Brackets around a balanced text are read as one closed piece. -/
theorem scanFrom_enclosed : scanFrom s (o :: (a ++ [c])) = ⟨s.level, .outside, some c⟩ := by
  have hready := isReady_opener hs ho
  have hstep := step_opener hs ho
  calc scanFrom s (o :: (a ++ [c])) = (scanFrom (s.step o) a).step c := by simp [scanFrom]
    _ = (ScanState.mk (s.level + 1) .outside (a.getLast?.or (some o))).step c := by
      rw [scanFrom_of_isBalanced hready ha, hstep]
    _ = ⟨s.level, .outside, some c⟩ := by rw [step_closer hc, Int.add_sub_cancel]

theorem staysOpen_enclosed : staysOpen s (o :: (a ++ [c])) = true := by
  have hready := isReady_opener hs ho
  have hlast : ((scanFrom (s.step o) a).step c).level = s.level := by
    have h := scanFrom_enclosed hs ho ha hc
    rw [show scanFrom s (o :: (a ++ [c])) = (scanFrom (s.step o) a).step c by simp [scanFrom]] at h
    rw [h]
  have hlevel := hs.level
  simp only [staysOpen, staysOpen_append, staysOpen_of_isBalanced hready ha, Bool.and_eq_true,
    decide_eq_true_eq, and_true, true_and]
  exact ⟨hready.level, by omega⟩

omit hs in
theorem isBalanced_enclosed : isBalanced (o :: (a ++ [c])) = true := by
  refine isBalanced_iff.mpr ⟨staysOpen_enclosed isReady_start ho ha hc, ?_⟩
  rw [scanFrom_enclosed isReady_start ho ha hc]
  exact ⟨rfl, rfl⟩

end Bracket

/-- A whole text is balanced, and no arrow begins at its end. Whole texts can be put together. -/
structure IsWhole (cs : List Char) : Prop where
  balanced : isBalanced cs = true
  last : cs.getLast? ≠ some '='

instance (cs : List Char) : Decidable (IsWhole cs) :=
  decidable_of_iff (isBalanced cs = true ∧ cs.getLast? ≠ some '=')
    ⟨fun ⟨hb, hl⟩ => ⟨hb, hl⟩, fun ⟨hb, hl⟩ => ⟨hb, hl⟩⟩

namespace IsWhole

theorem nil : IsWhole [] := ⟨rfl, by simp⟩

theorem isReady_scanFrom (ha : IsWhole a) (hs : s.IsReady) : (scanFrom s a).IsReady := by
  rw [scanFrom_of_isBalanced hs ha.balanced]
  refine ⟨hs.level, rfl, ?_⟩
  have hlast := ha.last
  change a.getLast?.or s.previous ≠ some '='
  cases hg : a.getLast? with
  | none => exact hs.arrow
  | some d =>
    rw [hg] at hlast
    exact hlast

theorem append (ha : IsWhole a) (hb : IsWhole b) : IsWhole (a ++ b) := by
  have hready := ha.isReady_scanFrom isReady_start
  have hscan : scanFrom .start (a ++ b) = scanFrom (scanFrom .start a) b := scanFrom_append ..
  have hb' := scanFrom_of_isBalanced hready hb.balanced
  refine ⟨isBalanced_iff.mpr ⟨?_, ?_, ?_⟩, ?_⟩
  · rw [staysOpen_append, staysOpen_of_isBalanced isReady_start ha.balanced,
      staysOpen_of_isBalanced hready hb.balanced]
    rfl
  · rw [hscan, hb']
    exact (isBalanced_iff.mp ha.balanced).2.1
  · rw [hscan, hb']
  · have hlast := (hb.isReady_scanFrom hready).arrow
    rw [← hscan, previous_scanFrom] at hlast
    rwa [show start.previous = none from rfl, Option.or_none] at hlast

theorem enclosed (ha : IsWhole a) (ho : isOpener o = true) (hc : isCloser none c = true) :
    IsWhole (o :: (a ++ [c])) := by
  have hready := ha.isReady_scanFrom (isReady_opener isReady_start ho)
  have hprevious : a.getLast?.or (some o) ≠ some '=' := by
    have h := hready.arrow
    rwa [previous_scanFrom, step_opener isReady_start ho] at h
  have hc' : isCloser (a.getLast?.or (some o)) c = true := by
    rw [isCloser, bne_iff_ne.mpr hprevious]
    exact hc
  refine ⟨isBalanced_enclosed ho ha.balanced hc', ?_⟩
  have hne : c ≠ '=' := by
    rcases isCloser_cases hc with rfl | rfl | rfl | rfl <;> decide
  have hlast : (o :: (a ++ [c])).getLast? = some c := by
    rw [← List.cons_append, List.getLast?_concat]
  rw [hlast]
  simpa using hne

end IsWhole

namespace HoldsLevel

/-- What stands before a text matters only for its first character, and there only if that closes a
bracket. -/
theorem isInside_step (hs : s.quoting = .outside) (hlevel : 0 ≤ (start.step c).level) :
    IsInside s.level (s.step c) (start.step c) := by
  have hcases : isQuote c = true ∨ isOpener c = true ∨ isCloser none c = false := by
    by_contra h
    simp only [not_or, Bool.not_eq_true, Bool.not_eq_false] at h
    obtain ⟨hquote, hopener, hcloser⟩ := h
    simp [ScanState.step, start, hquote, hopener, hcloser] at hlevel
  refine ⟨?_, by simp only [ScanState.step, hs, start], Iff.rfl⟩
  rcases hcases with hquote | hopener | hcloser
  · simp [ScanState.step, start, hquote]
  · simp [ScanState.step, start, hs, not_isQuote_of_isOpener hopener, hopener, Int.add_comm]
  · have hcloser' : isCloser s.previous c = false := by
      simp only [isCloser, Bool.or_eq_false_iff] at hcloser ⊢
      exact ⟨hcloser.1, by simpa using fun h => absurd h (by simpa using hcloser.2)⟩
    simp only [ScanState.step, start, hs, hcloser, hcloser', Bool.false_eq_true, if_false]
    split_ifs <;> omega

theorem nil : HoldsLevel [] := ⟨rfl, rfl⟩

theorem scan (ha : HoldsLevel a) (hs : s.quoting = .outside) (hlevel : 0 ≤ s.level) :
    TypeExpr.staysOpen s a = true ∧ (scanFrom s a).quoting = .outside := by
  cases a with
  | nil => exact ⟨rfl, hs⟩
  | cons c cs =>
    obtain ⟨hstays, hquoting⟩ := ha
    simp only [TypeExpr.staysOpen, Bool.and_eq_true, decide_eq_true_eq] at hstays ⊢
    have hinside := isInside_step hs hstays.1
    have hlevel' := hinside.level
    refine ⟨⟨by omega, hinside.staysOpen hlevel hstays.2⟩, ?_⟩
    exact (hinside.scanFrom cs).quoting.trans hquoting

theorem append (ha : HoldsLevel a) (hb : HoldsLevel b) : HoldsLevel (a ++ b) := by
  obtain ⟨hstays, hquoting⟩ :=
    hb.scan ha.quoting (level_nonneg (Int.le_refl start.level) ha.staysOpen)
  refine ⟨?_, ?_⟩
  · rw [staysOpen_append, ha.staysOpen, hstays]
    rfl
  · rw [scanFrom_append, hquoting]

theorem enclosed (ho : isOpener o = true) (hc : isCloser none c = true) (ha : HoldsLevel a) :
    HoldsLevel (o :: (a ++ [c])) := by
  have hready := isReady_opener isReady_start ho
  obtain ⟨hstays, hquoting⟩ := ha.scan hready.quoting hready.level
  have hquote : isQuote c = false := by
    rcases isCloser_cases hc with rfl | rfl | rfl | rfl <;> rfl
  -- The last character closes at most the bracket that stands before the text.
  have hclosed : 0 ≤ ((scanFrom (start.step o) a).step c).level := by
    have hopen := level_nonneg (Int.le_refl start.level) ha.staysOpen
    have hlevel := (hready.isInside.scanFrom a).level
    have hfirst : (start.step o).level = 1 := by rw [step_opener isReady_start ho]; rfl
    have hlast := level_step_ge (scanFrom (start.step o) a) c
    omega
  refine ⟨?_, ?_⟩
  · simp only [TypeExpr.staysOpen, staysOpen_append, hstays, hclosed, hready.level, decide_true,
      Bool.and_self]
  · have hscan : scanFrom start (o :: (a ++ [c])) = (scanFrom (start.step o) a).step c := by
      simp [scanFrom]
    rw [hscan]
    generalize scanFrom (start.step o) a = s at hquoting
    simp [ScanState.step, hquoting, Quoting.next, hquote]

end HoldsLevel

/-- A property of texts that whole ones have and that is kept when texts are put one behind the
other or into brackets. Printing keeps every such property. -/
structure IsBracketing (P : List Char → Prop) : Prop where
  whole {cs : List Char} : IsWhole cs → P cs
  append {a b : List Char} : P a → P b → P (a ++ b)
  enclosed {a : List Char} {o c : Char} :
    isOpener o = true → isCloser none c = true → P a → P (o :: (a ++ [c]))

theorem isBracketing_isWhole : IsBracketing IsWhole :=
  ⟨id, IsWhole.append, fun ho hc ha => ha.enclosed ho hc⟩

theorem isBracketing_holdsLevel : IsBracketing HoldsLevel :=
  ⟨fun h => .of_isBalanced h.balanced, HoldsLevel.append, HoldsLevel.enclosed⟩

theorem IsBracketing.intercalate {P : List Char → Prop} (hP : IsBracketing P)
    {separator : List Char} {parts : List (List Char)} (hsep : P separator)
    (hparts : ∀ p ∈ parts, P p) : P (separator.intercalate parts) := by
  induction parts with
  | nil => exact hP.whole .nil
  | cons p rest ih =>
    obtain ⟨hp, hrest⟩ := List.forall_mem_cons.mp hparts
    cases rest with
    | nil => simpa using hp
    | cons q rest =>
      rw [List.intercalate_cons_cons]
      exact hP.append (hP.append hp hsep) (ih hrest)

def isPlain (c : Char) : Bool := !isQuote c && !isOpener c && !isCloser none c

theorem step_plain (hs : s.quoting = .outside) (hc : isPlain c = true) :
    s.step c = ⟨s.level, .outside, some c⟩ := by
  simp only [isPlain, Bool.and_eq_true, Bool.not_eq_true'] at hc
  obtain ⟨⟨hquote, hopener⟩, hcloser⟩ := hc
  have hcloser' : isCloser s.previous c = false := by
    simp only [isCloser, Bool.or_eq_false_iff, Bool.and_eq_false_iff] at hcloser ⊢
    refine ⟨hcloser.1, .inl ?_⟩
    rcases hcloser.2 with h | h
    · exact h
    · cases h
  simp [ScanState.step, hs, hquote, hopener, hcloser', Quoting.next]

theorem IsWhole.of_plain (hplain : cs.all isPlain = true) (hlast : cs.getLast? ≠ some '=') :
    IsWhole cs := by
  have hscan (s : ScanState) (hs : s.quoting = .outside) (hlevel : 0 ≤ s.level) :
      staysOpen s cs = true ∧ (scanFrom s cs).level = s.level ∧
        (scanFrom s cs).quoting = .outside := by
    clear hlast
    induction cs generalizing s with
    | nil => exact ⟨rfl, rfl, hs⟩
    | cons c cs ih =>
      rw [List.all_cons, Bool.and_eq_true] at hplain
      have hstep := step_plain hs hplain.1
      have hrest := ih hplain.2 (s.step c) (by rw [hstep]) (by rw [hstep]; exact hlevel)
      refine ⟨?_, ?_, hrest.2.2⟩
      · rw [staysOpen, hrest.1, hstep]
        simpa using hlevel
      · exact hrest.2.1.trans (by rw [hstep])
  exact ⟨isBalanced_iff.mpr (hscan .start rfl (Int.le_refl 0)), hlast⟩

end RouteCatalog.TypeExpr
