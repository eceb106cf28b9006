import RouteCatalog.Proofs.BalancedText
import RouteCatalog.TypeExpr.Join
import RouteCatalog.TypeExpr.Key

/-! Whole texts that are put together in printing: literals, property keys, and members between
operators. -/

namespace RouteCatalog.TypeExpr

open ScanState Text

variable {s : ScanState} {quote c : Char} {a b cs : List Char}

section Literal

/-- Read inside a literal, a text neither ends the literal nor counts a bracket. -/
structure StaysQuoted (quote : Char) (cs : List Char) : Prop where
  quoting : ∀ s : ScanState, s.quoting = .inside quote false →
    (scanFrom s cs).quoting = .inside quote false
  level : ∀ s : ScanState, s.quoting = .inside quote false → (scanFrom s cs).level = s.level
  staysOpen : ∀ s : ScanState, s.quoting = .inside quote false → 0 ≤ s.level →
    staysOpen s cs = true

theorem level_step_inside {escaped : Bool} (hs : s.quoting = .inside quote escaped) (c : Char) :
    (s.step c).level = s.level := by
  simp [ScanState.step, hs]

namespace StaysQuoted

theorem nil : StaysQuoted quote [] := ⟨fun _ hs => hs, fun _ _ => rfl, fun _ _ _ => rfl⟩

theorem append (ha : StaysQuoted quote a) (hb : StaysQuoted quote b) :
    StaysQuoted quote (a ++ b) where
  quoting s hs := by
    rw [scanFrom_append]
    exact hb.quoting _ (ha.quoting s hs)
  level s hs := by
    rw [scanFrom_append, hb.level _ (ha.quoting s hs), ha.level s hs]
  staysOpen s hs hlevel := by
    have hrest := hb.staysOpen _ (ha.quoting s hs) (by rw [ha.level s hs]; exact hlevel)
    rw [staysOpen_append, ha.staysOpen s hs hlevel, hrest]
    rfl

theorem plain (hquote : c ≠ quote) (hescape : c ≠ '\\') : StaysQuoted quote [c] where
  quoting s hs := by simp [scanFrom, ScanState.step, hs, Quoting.next, hquote, hescape]
  level s hs := level_step_inside hs c
  staysOpen s hs hlevel := by simpa [TypeExpr.staysOpen, level_step_inside hs] using hlevel

theorem escape (c : Char) : StaysQuoted quote ['\\', c] where
  quoting s hs := by simp [scanFrom, ScanState.step, hs, Quoting.next]
  level s hs := by simp [scanFrom, ScanState.step, hs, Quoting.next]
  staysOpen s hs hlevel := by
    simpa [TypeExpr.staysOpen, ScanState.step, hs, Quoting.next] using hlevel

theorem escaped (cs : List Char) : StaysQuoted '"' (cs.flatMap Quoted.escapeChar) :=
  Quoted.escaped_induction nil (fun _ _ ha hb => ha.append hb) (fun _ hquote hescape =>
    plain hquote hescape) escape cs

end StaysQuoted

theorem isWhole_literal (hquote : isQuote quote = true) (hbody : StaysQuoted quote cs) :
    IsWhole (quote :: (cs ++ [quote])) := by
  have hne : quote ≠ '\\' := by
    rintro rfl
    cases hquote
  -- The quote opens the literal at level zero, and the same quote closes it there.
  have hopen : start.step quote = ⟨0, .inside quote false, some quote⟩ := by
    simp [ScanState.step, start, hquote, Quoting.next]
  have hinside := hbody.quoting (start.step quote) (by rw [hopen])
  have hlevel := hbody.level (start.step quote) (by rw [hopen])
  have hstays := hbody.staysOpen (start.step quote) (by rw [hopen]) (by rw [hopen])
  have hscan : scanFrom start (quote :: (cs ++ [quote])) =
      (scanFrom (start.step quote) cs).step quote := by simp [scanFrom]
  have hzero : ((scanFrom (start.step quote) cs).step quote).level = 0 := by
    rw [level_step_inside hinside, hlevel, hopen]
  have hclosed : ((scanFrom (start.step quote) cs).step quote).quoting = .outside := by
    generalize scanFrom (start.step quote) cs = s at hinside
    simp [ScanState.step, hinside, Quoting.next, hne]
  refine ⟨isBalanced_iff.mpr ⟨?_, ?_, ?_⟩, ?_⟩
  · simp only [staysOpen, staysOpen_append, hstays, hzero, Bool.and_eq_true, decide_eq_true_eq,
      Int.le_refl, and_true]
    rw [hopen]
  · rw [hscan, hzero]
  · rw [hscan, hclosed]
  · rw [← List.cons_append, List.getLast?_concat]
    rintro hlast
    cases hlast
    cases hquote

theorem isWhole_quoted (name : String) : IsWhole (quoted name).toList := by
  rw [quoted, String.toList_ofList]
  exact isWhole_literal rfl (StaysQuoted.escaped name.toList)

end Literal

section Key

/-- The characters that quote, bracket or begin an arrow. -/
def structural : List Char :=
  ['"', '\'', '\x60', '{', '[', '(', '<', '}', ']', ')', '>', '=']

theorem isPlain_of_not_mem (h : c ∉ structural) : isPlain c = true ∧ c ≠ '=' := by
  simp only [structural, List.mem_cons, List.not_mem_nil, or_false, not_or] at h
  simp [isPlain, isQuote, isOpener, isCloser, h]

theorem IsWhole.of_all {f : Char → Bool} (hf : structural.all (fun c => !f c) = true)
    (h : cs.all f = true) : IsWhole cs := by
  have hplain : ∀ c ∈ cs, isPlain c = true ∧ c ≠ '=' := by
    intro c hc
    refine isPlain_of_not_mem fun hmem => ?_
    have hno := List.all_eq_true.mp hf c hmem
    rw [List.all_eq_true.mp h c hc] at hno
    cases hno
  refine .of_plain (List.all_eq_true.mpr fun c hc => (hplain c hc).1) fun hlast => ?_
  exact (hplain '=' (List.mem_of_getLast? hlast)).2 rfl

theorem isWhole_formatKey (name : String) : IsWhole (formatKey name).toList := by
  unfold formatKey
  split
  · rename_i hidentifier
    refine .of_all (f := isIdentifierChar) (by decide +kernel) ?_
    cases hname : name.toList with
    | nil => rfl
    | cons c cs =>
      rw [hname, isIdentifier, Bool.and_eq_true] at hidentifier
      have hc : isIdentifierChar c = true := by simp [isIdentifierChar, hidentifier.1]
      rw [List.all_cons, hc, hidentifier.2]
      rfl
  · exact isWhole_quoted name

theorem isWhole_rawKey (name : String) : IsWhole (rawKey name).toList := by
  unfold rawKey
  split
  · rename_i hraw
    refine .of_all (f := fun d => isAlphanumeric d || d == '_' || d == '$') (by decide +kernel) ?_
    cases hname : name.toList with
    | nil => rfl
    | cons c cs =>
      rw [hname, isRawKey, Bool.and_eq_true] at hraw
      exact hraw.2
  · exact isWhole_quoted name

end Key

/-- The texts that printing adds to those of a document. -/
def printedWords : List String :=
  ["", " ", ", ", "; ", ": ", "?", " | ", " & ", "[]", "any", "unknown", "boolean", "Array",
    "(...args: any[]) => any", emptyObject]

theorem isWhole_of_mem_printedWords : ∀ word ∈ printedWords, IsWhole word.toList := by
  decide +kernel

namespace IsBracketing

variable {P : List Char → Prop} {parts : List String} {operator part : String}

theorem word (hP : IsBracketing P) {s : String} (hs : s ∈ printedWords) : P s.toList :=
  hP.whole (isWhole_of_mem_printedWords s hs)

theorem intercalateText (hP : IsBracketing P) {separator : String} (hsep : P separator.toList)
    (hparts : ∀ p ∈ parts, P p.toList) : P (separator.intercalate parts).toList := by
  rw [String.toList_intercalate]
  refine hP.intercalate hsep fun cs hcs => ?_
  obtain ⟨p, hp, rfl⟩ := List.mem_map.mp hcs
  exact hparts p hp

theorem operand (hP : IsBracketing P) (hpart : P part.toList) : P (operand part).toList := by
  unfold TypeExpr.operand
  split
  · have henclosed := hP.enclosed (o := '(') (c := ')') rfl rfl hpart
    simpa using henclosed
  · exact hpart

theorem joinOperands (hP : IsBracketing P) (hoperator : P operator.toList)
    (hparts : ∀ p ∈ parts, P p.toList) : P (joinOperands operator parts).toList := by
  unfold TypeExpr.joinOperands
  split
  · exact hparts _ (by simp)
  · refine hP.intercalateText hoperator fun p hp => ?_
    obtain ⟨q, hq, rfl⟩ := List.mem_map.mp hp
    exact hP.operand (hparts q hq)

end IsBracketing

end RouteCatalog.TypeExpr
