import RouteCatalog.Proofs.PropertyKeys
import RouteCatalog.TypeExpr.Noise

/-! Repeated nullables. A text repeats a word if the word stands in it as a whole and again behind a
union sign, and neither a brace nor a semicolon comes between the two. At every character that is
neither blank nor part of a word the text can be cut: a repetition lies before the cut or behind it,
or it begins before the cut, where nothing breaks it off, and ends behind it. No repetition of a
nullable goes across a semicolon. -/

namespace RouteCatalog.TypeExpr

open Text

variable {word a b cs : List Char} {c : Char} {previous : Option Char}

section Words

theorem isWordChar_of_isAscii (h : c.toNat < 128) :
    isWordChar c = (isAsciiLetter c || ('0' ≤ c && c ≤ '9') || c == '_') := by
  rw [isWordChar, (isLetter_of_isAscii h).2]

structure IsWord (word : List Char) : Prop where
  nonempty : word ≠ []
  inside : ∀ c ∈ word, isWordChar c = true

theorem nullableWords_eq : nullableWords =
    [['u', 'n', 'd', 'e', 'f', 'i', 'n', 'e', 'd'], ['n', 'u', 'l', 'l']] := rfl

theorem isWord_of_mem_nullableWords (hword : word ∈ nullableWords) : IsWord word := by
  have hascii {c : Char} (hc : c ∈ ['u', 'n', 'd', 'e', 'f', 'i', 'l']) : isWordChar c = true := by
    simp only [List.mem_cons, List.not_mem_nil, or_false] at hc
    rcases hc with rfl | rfl | rfl | rfl | rfl | rfl | rfl <;>
      (rw [isWordChar_of_isAscii] <;> decide)
  rw [nullableWords_eq] at hword
  simp only [List.mem_cons, List.not_mem_nil, or_false] at hword
  rcases hword with rfl | rfl
  · refine ⟨by simp, fun c hc => hascii ?_⟩
    revert c
    simp
  · refine ⟨by simp, fun c hc => hascii ?_⟩
    revert c
    simp

theorem not_isWordChar_of_isBlank (h : isBlank c = true) : isWordChar c = false := by
  have hranges : ∀ r ∈ blankRanges, ∀ k < r.2 + 1 - r.1,
      letterRanges.contains (r.1 + k) = false ∧ numericRanges.contains (r.1 + k) = false ∧
        r.1 + k ≠ '_'.toNat := by decide +kernel
  obtain ⟨r, hr, hlow, hhigh⟩ := CodeRanges.exists_range_of_contains h
  obtain ⟨hletter, hnumeric, hne⟩ := hranges r hr (c.toNat - r.1) (by omega)
  rw [Nat.add_sub_cancel' hlow] at hletter hnumeric hne
  have hunderscore : (c == '_') = false := by
    rw [beq_eq_false_iff_ne]
    rintro rfl
    exact hne rfl
  rw [isWordChar, isAlphanumeric, hletter, hnumeric, hunderscore]
  rfl

theorem isBlank_blank : isBlank ' ' = true := by decide

/-- A character at which every word ends and that no run of blanks goes over. -/
structure IsCut (c : Char) : Prop where
  solid : isBlank c = false
  outside : isWordChar c = false

theorem isCut_semicolon : IsCut ';' := ⟨by decide, by rw [isWordChar_of_isAscii] <;> decide⟩

theorem IsCut.not_mem (hc : IsCut c) (hword : IsWord word) : c ∉ word := by
  intro hmem
  have hinside := hword.inside c hmem
  rw [hc.outside] at hinside
  cases hinside

end Words

section Readers

theorem after?_append_cons (hc : c ∉ word) (a b : List Char) :
    after? word (a ++ c :: b) = (after? word a).map (· ++ c :: b) := by
  induction word generalizing a with
  | nil => rfl
  | cons w word ih =>
    have hne : w ≠ c := fun heq => hc (heq ▸ List.mem_cons_self)
    have hrest : c ∉ word := fun hmem => hc (List.mem_cons_of_mem w hmem)
    cases a with
    | nil => simp [after?, hne]
    | cons d a =>
      by_cases hd : w = d
      · simp [after?, hd, ih hrest]
      · simp [after?, hd]

theorem skipBlanks_append_cons (hc : isBlank c = false) (a b : List Char) :
    skipBlanks (a ++ c :: b) = skipBlanks a ++ c :: b := by
  induction a with
  | nil => simp [skipBlanks, hc]
  | cons d a ih =>
    unfold skipBlanks at ih ⊢
    cases hd : isBlank d <;> simp [hd, ih]

theorem endsWord_append_cons (hc : isWordChar c = false) (a b : List Char) :
    endsWord (a ++ c :: b) = endsWord a := by
  cases a <;> simp [endsWord, hc]

end Readers

section WordStarts

/-- Whether a reader accepts the text from a place where a word may begin; `previous` is the
character before the text. -/
def fromWordStart (p : List Char → Bool) (previous : Option Char) : List Char → Bool
  | [] => false
  | c :: cs => (!previous.any isWordChar && p (c :: cs)) || fromWordStart p (some c) cs

variable {p q : List Char → Bool}

theorem fromWordStart_eq_true_iff : fromWordStart p previous cs = true ↔
    ∃ before after, cs = before ++ after ∧ after ≠ [] ∧ p after = true ∧
      (before.getLast?.or previous).any isWordChar = false := by
  induction cs generalizing previous with
  | nil =>
    constructor
    · intro h
      cases h
    · rintro ⟨before, after, heq, hne, -⟩
      exact (hne (List.append_eq_nil_iff.mp heq.symm).2).elim
  | cons c cs ih =>
    rw [fromWordStart, Bool.or_eq_true, Bool.and_eq_true, Bool.not_eq_true', ih]
    constructor
    · rintro (⟨hstart, hp⟩ | ⟨before, after, rfl, hne, hp, hstart⟩)
      · exact ⟨[], c :: cs, rfl, by simp, hp, hstart⟩
      · refine ⟨c :: before, after, rfl, hne, hp, ?_⟩
        simpa [List.getLast?_cons] using hstart
    · rintro ⟨before, after, heq, hne, hp, hstart⟩
      cases before with
      | nil =>
        rw [List.nil_append] at heq
        exact .inl ⟨hstart, heq ▸ hp⟩
      | cons d before =>
        obtain ⟨rfl, rfl⟩ := List.cons.inj heq
        refine .inr ⟨before, after, rfl, hne, hp, ?_⟩
        simpa [List.getLast?_cons] using hstart

theorem fromWordStart_of_outside (hc : isWordChar c = false) (cs : List Char) :
    fromWordStart p (some c) cs = fromWordStart p none cs := by
  cases cs <;> simp [fromWordStart, hc]

theorem fromWordStart_or (p q : List Char → Bool) (previous : Option Char) (cs : List Char) :
    fromWordStart (fun cs => p cs || q cs) previous cs =
      (fromWordStart p previous cs || fromWordStart q previous cs) := by
  induction cs generalizing previous with
  | nil => rfl
  | cons c cs ih =>
    simp only [fromWordStart, ih, Bool.and_or_distrib_left]
    ac_rfl

theorem fromWordStart_and (p : List Char → Bool) (b : Bool) (previous : Option Char)
    (cs : List Char) :
    fromWordStart (fun cs => p cs && b) previous cs = (fromWordStart p previous cs && b) := by
  induction cs generalizing previous with
  | nil => rfl
  | cons c cs ih =>
    simp only [fromWordStart, ih]
    cases b <;> simp

/-- A reader that does not accept a text that begins with the cut is asked before the cut and behind
it. -/
theorem fromWordStart_append_cons (hc : isWordChar c = false) (hp : ∀ a, p (a ++ c :: b) = q a)
    (hq : q [] = false) (previous : Option Char) (a : List Char) :
    fromWordStart p previous (a ++ c :: b) =
      (fromWordStart q previous a || fromWordStart p none b) := by
  induction a generalizing previous with
  | nil =>
    have hhere : p (c :: b) = false := (hp []).trans hq
    simp [fromWordStart, hhere, fromWordStart_of_outside hc]
  | cons d a ih =>
    have hhere : p (d :: (a ++ c :: b)) = q (d :: a) := hp (d :: a)
    simp only [List.cons_append, fromWordStart, hhere, ih, Bool.or_assoc]

end WordStarts

section Repetition

def endsUnion (c : Char) : Bool := c == ';' || c == '{' || c == '}'

def isUnbroken (cs : List Char) : Bool := cs.all (!endsUnion ·)

theorem isUnbroken_cons (c : Char) (cs : List Char) :
    isUnbroken (c :: cs) = (!endsUnion c && isUnbroken cs) := rfl

/-- Whether the text goes on with a whole word behind blanks. -/
def goesOnWith (word cs : List Char) : Bool :=
  ((after? word (skipBlanks cs)).map endsWord).getD false

/-- Whether the text begins with a whole word and nothing breaks it off behind. -/
def opensWith (word cs : List Char) : Bool :=
  ((after? word cs).map fun rest => endsWord rest && isUnbroken rest).getD false

/-- Whether a whole word stands in the text and nothing breaks it off behind. -/
def leavesOpen (word cs : List Char) : Bool := fromWordStart (opensWith word) none cs

def repeats (word cs : List Char) : Bool := fromWordStart (startsDuplicate word) none cs

theorem opensWith_nil (hword : IsWord word) : opensWith word [] = false := by
  obtain ⟨w, word, rfl⟩ := List.exists_cons_of_ne_nil hword.nonempty
  rfl

theorem startsDuplicate_nil (hword : IsWord word) : startsDuplicate word [] = false := by
  obtain ⟨w, word, rfl⟩ := List.exists_cons_of_ne_nil hword.nonempty
  rfl

theorem recursInUnion_cons (word : List Char) (c : Char) (cs : List Char) :
    recursInUnion word (c :: cs) =
      (!endsUnion c && ((c == '|' && goesOnWith word cs) || recursInUnion word cs)) := by
  rw [recursInUnion]
  by_cases hc : c = ';' ∨ c = '{' ∨ c = '}'
  · rw [if_pos hc]
    rcases hc with rfl | rfl | rfl <;> rfl
  · rw [if_neg hc]
    simp only [not_or] at hc
    simp [endsUnion, hc, goesOnWith]

theorem hasDuplicateNullable_eq (cs : List Char) :
    hasDuplicateNullable cs = nullableWords.any fun word => repeats word cs := by
  have hsearch (previous : Option Char) : hasDuplicateNullableAfter previous cs =
      fromWordStart (fun cs => nullableWords.any (startsDuplicate · cs)) previous cs := by
    induction cs generalizing previous with
    | nil => rfl
    | cons c cs ih => simp only [hasDuplicateNullableAfter, fromWordStart, ih]
  have hany (words : List (List Char)) : fromWordStart (fun cs => words.any (startsDuplicate · cs))
      none cs = words.any fun word => repeats word cs := by
    induction words with
    | nil => simpa using fromWordStart_and (fun _ => true) false none cs
    | cons word words ih =>
      simp only [List.any_cons, fromWordStart_or, ih]
      rfl
  exact (hsearch none).trans (hany nullableWords)

theorem after?_append (word rest : List Char) : after? word (word ++ rest) = some rest :=
  after?_eq_some_iff.mpr rfl

theorem IsWord.skipBlanks_append (hword : IsWord word) (cs : List Char) :
    skipBlanks (word ++ cs) = word ++ cs := by
  obtain ⟨w, word, rfl⟩ := List.exists_cons_of_ne_nil hword.nonempty
  have hsolid : isBlank w = false := by
    by_contra hblank
    rw [Bool.not_eq_false] at hblank
    have hinside := hword.inside w List.mem_cons_self
    rw [not_isWordChar_of_isBlank hblank] at hinside
    cases hinside
  simp [skipBlanks, hsolid]

theorem goesOnWith_eq_true_iff (hword : IsWord word) : goesOnWith word cs = true ↔
    ∃ blanks after, cs = blanks ++ (word ++ after) ∧ (∀ c ∈ blanks, isBlank c = true) ∧
      endsWord after = true := by
  unfold goesOnWith
  constructor
  · intro h
    cases hafter : after? word (skipBlanks cs) with
    | none => simp [hafter] at h
    | some after =>
      have hends : endsWord after = true := by simpa [hafter] using h
      refine ⟨cs.takeWhile isBlank, after, ?_, fun c hc => List.mem_takeWhile_imp hc, hends⟩
      rw [← after?_eq_some_iff.mp hafter, skipBlanks, List.takeWhile_append_dropWhile]
  · rintro ⟨blanks, after, rfl, hblanks, hends⟩
    have hskip : skipBlanks (blanks ++ (word ++ after)) = word ++ after :=
      (List.dropWhile_append_of_pos hblanks).trans (hword.skipBlanks_append after)
    rw [hskip, after?_append]
    exact hends

theorem recursInUnion_eq_true_iff : recursInUnion word cs = true ↔
    ∃ gap behind, cs = gap ++ '|' :: behind ∧ isUnbroken gap = true ∧
      goesOnWith word behind = true := by
  induction cs with
  | nil => simp [recursInUnion]
  | cons c cs ih =>
    rw [recursInUnion_cons, Bool.and_eq_true, Bool.or_eq_true, Bool.and_eq_true, ih]
    constructor
    · rintro ⟨hc, ⟨hbar, hgoes⟩ | ⟨gap, behind, rfl, hgap, hgoes⟩⟩
      · exact ⟨[], cs, by rw [beq_iff_eq.mp hbar]; rfl, rfl, hgoes⟩
      · exact ⟨c :: gap, behind, rfl, by rw [isUnbroken_cons, hc, hgap]; rfl, hgoes⟩
    · rintro ⟨gap, behind, heq, hgap, hgoes⟩
      cases gap with
      | nil =>
        obtain ⟨rfl, rfl⟩ := List.cons.inj heq
        exact ⟨rfl, .inl ⟨rfl, hgoes⟩⟩
      | cons d gap =>
        obtain ⟨rfl, rfl⟩ := List.cons.inj heq
        rw [isUnbroken_cons, Bool.and_eq_true] at hgap
        exact ⟨hgap.1, .inr ⟨gap, behind, rfl, hgap.2, hgoes⟩⟩

theorem startsDuplicate_eq_true_iff : startsDuplicate word cs = true ↔
    ∃ rest, cs = word ++ rest ∧ endsWord rest = true ∧ recursInUnion word rest = true := by
  unfold startsDuplicate
  constructor
  · intro h
    split at h
    · rename_i rest hrest
      exact ⟨rest, after?_eq_some_iff.mp hrest, Bool.and_eq_true_iff.mp h⟩
    · cases h
  · rintro ⟨rest, rfl, hends, hrecurs⟩
    simp [after?_append, hends, hrecurs]

/-- A word stands whole in the text, then an unbroken gap with a union sign at its end, and behind
blanks the whole word again. -/
def IsRepeatedIn (word cs : List Char) : Prop :=
  ∃ before gap blanks after, cs = before ++ (word ++ (gap ++ '|' :: (blanks ++ (word ++ after)))) ∧
    before.getLast?.any isWordChar = false ∧ endsWord (gap ++ ['|']) = true ∧
    isUnbroken gap = true ∧ (∀ c ∈ blanks, isBlank c = true) ∧ endsWord after = true

theorem repeats_eq_true_iff (hword : IsWord word) :
    repeats word cs = true ↔ IsRepeatedIn word cs := by
  unfold repeats IsRepeatedIn
  simp only [fromWordStart_eq_true_iff, startsDuplicate_eq_true_iff,
    recursInUnion_eq_true_iff, goesOnWith_eq_true_iff hword, Option.or_none]
  constructor
  · rintro ⟨before, _, rfl, -, ⟨_, rfl, hends, gap, _, rfl, hgap, blanks, after, rfl, hblanks, hafter⟩,
      hstart⟩
    refine ⟨before, gap, blanks, after, rfl, hstart, ?_, hgap, hblanks, hafter⟩
    cases gap <;> exact hends
  · rintro ⟨before, gap, blanks, after, rfl, hstart, hends, hgap, hblanks, hafter⟩
    refine ⟨before, _, rfl, by simp [hword.nonempty], ⟨_, rfl, ?_, gap, _, rfl, hgap, blanks, after,
      rfl, hblanks, hafter⟩, hstart⟩
    cases gap <;> exact hends

theorem hasDuplicateNullable_iff :
    hasDuplicateNullable cs = true ↔ ∃ word ∈ nullableWords, IsRepeatedIn word cs := by
  rw [hasDuplicateNullable_eq, List.any_eq_true]
  constructor
  · rintro ⟨word, hmem, h⟩
    exact ⟨word, hmem, (repeats_eq_true_iff (isWord_of_mem_nullableWords hmem)).mp h⟩
  · rintro ⟨word, hmem, h⟩
    exact ⟨word, hmem, (repeats_eq_true_iff (isWord_of_mem_nullableWords hmem)).mpr h⟩

end Repetition

section Cut

theorem goesOnWith_append_cons (hc : IsCut c) (hword : IsWord word) (a b : List Char) :
    goesOnWith word (a ++ c :: b) = goesOnWith word a := by
  unfold goesOnWith
  rw [skipBlanks_append_cons hc.solid, after?_append_cons (hc.not_mem hword), Option.map_map]
  congr 2
  funext rest
  exact endsWord_append_cons hc.outside rest b

theorem recursInUnion_append_cons (hc : IsCut c) (hword : IsWord word) (a b : List Char) :
    recursInUnion word (a ++ c :: b) =
      (recursInUnion word a || (isUnbroken a && recursInUnion word (c :: b))) := by
  induction a with
  | nil => rfl
  | cons d a ih =>
    rw [List.cons_append, recursInUnion_cons, recursInUnion_cons, ih,
      goesOnWith_append_cons hc hword, isUnbroken_cons]
    cases endsUnion d
    · simp [Bool.or_assoc]
    · rfl

theorem startsDuplicate_append_cons (hc : IsCut c) (hword : IsWord word) (a b : List Char) :
    startsDuplicate word (a ++ c :: b) =
      (startsDuplicate word a || (opensWith word a && recursInUnion word (c :: b))) := by
  unfold startsDuplicate opensWith
  rw [after?_append_cons (hc.not_mem hword)]
  cases after? word a with
  | none => rfl
  | some rest =>
    simp only [Option.map_some, Option.getD_some]
    rw [endsWord_append_cons hc.outside, recursInUnion_append_cons hc hword,
      Bool.and_or_distrib_left, Bool.and_assoc]

/-- A repetition lies before a cut or behind it, or it begins before the cut, where nothing breaks it
off, and ends behind it. -/
theorem repeats_append_cons (hc : IsCut c) (hword : IsWord word) (a b : List Char) :
    repeats word (a ++ c :: b) =
      (repeats word a || (leavesOpen word a && recursInUnion word (c :: b)) || repeats word b) := by
  have hnil : (startsDuplicate word [] || (opensWith word [] && recursInUnion word (c :: b))) =
      false := by
    rw [startsDuplicate_nil hword, opensWith_nil hword]
    rfl
  unfold repeats leavesOpen
  rw [fromWordStart_append_cons hc.outside (fun a => startsDuplicate_append_cons hc hword a b) hnil,
    fromWordStart_or, fromWordStart_and]

end Cut

theorem hasDuplicateNullable_append_semicolon (a b : List Char) :
    hasDuplicateNullable (a ++ ';' :: b) =
      (hasDuplicateNullable a || hasDuplicateNullable b) := by
  have hword : ∀ word ∈ nullableWords,
      repeats word (a ++ ';' :: b) = (repeats word a || repeats word b) := by
    intro word hword
    have hbroken : recursInUnion word (';' :: b) = false := by simp [recursInUnion]
    rw [repeats_append_cons isCut_semicolon (isWord_of_mem_nullableWords hword), hbroken,
      Bool.and_false, Bool.or_false]
  rw [Bool.eq_iff_iff]
  simp only [hasDuplicateNullable_eq, Bool.or_eq_true, List.any_eq_true]
  constructor
  · rintro ⟨word, hmem, h⟩
    rw [hword word hmem, Bool.or_eq_true] at h
    exact h.imp (⟨word, hmem, ·⟩) (⟨word, hmem, ·⟩)
  · rintro (⟨word, hmem, h⟩ | ⟨word, hmem, h⟩) <;>
      exact ⟨word, hmem, by simp [hword word hmem, h]⟩

theorem hasDuplicateNullable_intercalate (ps : List (List Char)) :
    hasDuplicateNullable ([';'].intercalate ps) = ps.any hasDuplicateNullable := by
  induction ps with
  | nil => rfl
  | cons p ps ih =>
    cases ps with
    | nil => simp
    | cons q ps =>
      rw [List.intercalate_cons_of_ne_nil (by simp), List.append_assoc, List.singleton_append,
        hasDuplicateNullable_append_semicolon, ih]
      rfl

/-- No repetition of a nullable goes across a semicolon, so that a text has one exactly if one of its
pieces between semicolons has; and to have one is to repeat `null` or `undefined` as a word. -/
theorem duplicate_nullable_stays_in_piece :
    (∀ a b, hasDuplicateNullable (a ++ ';' :: b) =
      (hasDuplicateNullable a || hasDuplicateNullable b)) ∧
    (∀ cs, hasDuplicateNullable cs = (pieces ';' cs).any hasDuplicateNullable) ∧
    ∀ cs, hasDuplicateNullable cs = true ↔ ∃ word ∈ nullableWords, IsRepeatedIn word cs := by
  refine ⟨hasDuplicateNullable_append_semicolon, fun cs => ?_, fun cs => ?_⟩
  · rw [← hasDuplicateNullable_intercalate, intercalate_pieces]
  · exact hasDuplicateNullable_iff

end RouteCatalog.TypeExpr
