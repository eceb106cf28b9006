import RouteCatalog.Proofs.DuplicateNullable
import RouteCatalog.Proofs.SpelledTypes

/-! Unions that repeat a nullable. The text of a union repeats one if a member's text does, or if one
member leaves it open and a later one takes it up, and no brace and no semicolon stands in a member
between them. So `null` at two places is seen exactly as far as no object comes between. -/

namespace RouteCatalog

namespace TypeExpr

open Text

variable {word t u cs : List Char} {ts : List (List Char)}

section Blanks

theorem isCut_bar : IsCut '|' := ⟨by decide, by rw [isWordChar_of_isAscii] <;> decide⟩

theorem IsWord.blank_not_mem (hword : IsWord word) : ' ' ∉ word := by
  intro hmem
  have hinside := hword.inside ' ' hmem
  rw [not_isWordChar_of_isBlank isBlank_blank] at hinside
  cases hinside

theorem isUnbroken_concat_blank (cs : List Char) : isUnbroken (cs ++ [' ']) = isUnbroken cs := by
  simp [isUnbroken, endsUnion]

theorem endsWord_concat_blank (cs : List Char) : endsWord (cs ++ [' ']) = endsWord cs :=
  endsWord_append_cons (not_isWordChar_of_isBlank isBlank_blank) cs []

theorem goesOnWith_concat_blank (hword : IsWord word) (cs : List Char) :
    goesOnWith word (cs ++ [' ']) = goesOnWith word cs := by
  have hskip : skipBlanks (cs ++ [' ']) = skipBlanks cs ∨
      skipBlanks (cs ++ [' ']) = skipBlanks cs ++ [' '] := by
    induction cs with
    | nil => exact .inl rfl
    | cons c cs ih =>
      unfold skipBlanks at ih ⊢
      cases hc : isBlank c with
      | true => simpa [hc] using ih
      | false => simp [hc]
  unfold goesOnWith
  rcases hskip with hskip | hskip
  · rw [hskip]
  · rw [hskip, after?_append_cons hword.blank_not_mem, Option.map_map]
    congr 2
    funext rest
    exact endsWord_concat_blank rest

theorem recursInUnion_concat_blank (hword : IsWord word) (cs : List Char) :
    recursInUnion word (cs ++ [' ']) = recursInUnion word cs := by
  induction cs with
  | nil => simp [recursInUnion]
  | cons c cs ih =>
    rw [List.cons_append, recursInUnion_cons, recursInUnion_cons, ih, goesOnWith_concat_blank hword]

theorem startsDuplicate_concat_blank (hword : IsWord word) (cs : List Char) :
    startsDuplicate word (cs ++ [' ']) = startsDuplicate word cs := by
  unfold startsDuplicate
  rw [after?_append_cons hword.blank_not_mem]
  cases after? word cs with
  | none => rfl
  | some rest =>
    simp only [Option.map_some]
    rw [endsWord_concat_blank, recursInUnion_concat_blank hword]

theorem opensWith_concat_blank (hword : IsWord word) (cs : List Char) :
    opensWith word (cs ++ [' ']) = opensWith word cs := by
  unfold opensWith
  rw [after?_append_cons hword.blank_not_mem]
  cases after? word cs with
  | none => rfl
  | some rest =>
    simp only [Option.map_some, Option.getD_some]
    rw [endsWord_concat_blank, isUnbroken_concat_blank]

theorem leavesOpen_concat_blank (hword : IsWord word) (cs : List Char) :
    leavesOpen word (cs ++ [' ']) = leavesOpen word cs := by
  unfold leavesOpen
  rw [fromWordStart_append_cons (not_isWordChar_of_isBlank isBlank_blank)
    (opensWith_concat_blank hword) (opensWith_nil hword)]
  simp [fromWordStart]

theorem repeats_concat_blank (hword : IsWord word) (cs : List Char) :
    repeats word (cs ++ [' ']) = repeats word cs := by
  unfold repeats
  rw [fromWordStart_append_cons (not_isWordChar_of_isBlank isBlank_blank)
    (startsDuplicate_concat_blank hword) (startsDuplicate_nil hword)]
  simp [fromWordStart]

theorem repeats_blank_cons (hword : IsWord word) (cs : List Char) :
    repeats word (' ' :: cs) = repeats word cs := by
  have hhere : startsDuplicate word (' ' :: cs) = false := by
    have hblank := hword.blank_not_mem
    obtain ⟨w, word, rfl⟩ := List.exists_cons_of_ne_nil hword.nonempty
    have hne : w ≠ ' ' := fun heq => hblank (heq ▸ List.mem_cons_self)
    simp [startsDuplicate, after?, hne]
  simp [repeats, fromWordStart, hhere,
    fromWordStart_of_outside (not_isWordChar_of_isBlank isBlank_blank)]

end Blanks

section Joined

/-- Whether a text, put behind a union sign, goes on with a word before anything breaks it off. -/
def takesUp (word cs : List Char) : Bool := recursInUnion word ('|' :: cs)

theorem takesUp_eq (word cs : List Char) :
    takesUp word cs = (goesOnWith word cs || recursInUnion word cs) := by
  simp [takesUp, recursInUnion_cons, endsUnion]

theorem takesUp_blank_cons (word cs : List Char) : takesUp word (' ' :: cs) = takesUp word cs := by
  have hskip : skipBlanks (' ' :: cs) = skipBlanks cs := by simp [skipBlanks, isBlank_blank]
  rw [takesUp_eq, takesUp_eq, recursInUnion_cons, goesOnWith, hskip]
  simp [endsUnion, goesOnWith]

def unionSeparator : List Char := [' ', '|', ' ']

theorem append_unionSeparator (t cs : List Char) :
    t ++ unionSeparator ++ cs = (t ++ [' ']) ++ '|' :: (' ' :: cs) := by
  simp [unionSeparator]

theorem takesUp_append_unionSeparator (hword : IsWord word) (t cs : List Char) :
    takesUp word (t ++ unionSeparator ++ cs) =
      (takesUp word t || (isUnbroken t && takesUp word cs)) := by
  have hcut := recursInUnion_append_cons isCut_bar hword ('|' :: (t ++ [' '])) (' ' :: cs)
  have htrail := recursInUnion_concat_blank hword ('|' :: t)
  have hopen : isUnbroken ('|' :: (t ++ [' '])) = isUnbroken t := by
    rw [isUnbroken_cons, isUnbroken_concat_blank]
    rfl
  rw [List.cons_append] at htrail
  rw [append_unionSeparator, takesUp, ← List.cons_append, hcut, htrail, hopen]
  exact congrArg (fun b => _ || (_ && b)) (takesUp_blank_cons word cs)

theorem repeats_append_unionSeparator (hword : IsWord word) (t cs : List Char) :
    repeats word (t ++ unionSeparator ++ cs) =
      (repeats word t || (leavesOpen word t && takesUp word cs) || repeats word cs) := by
  rw [append_unionSeparator, repeats_append_cons isCut_bar hword, repeats_concat_blank hword,
    leavesOpen_concat_blank hword, repeats_blank_cons hword]
  exact congrArg (fun b => (_ || (_ && b)) || _) (takesUp_blank_cons word cs)

theorem takesUp_nil (hword : IsWord word) : takesUp word [] = false := by
  obtain ⟨w, word, rfl⟩ := List.exists_cons_of_ne_nil hword.nonempty
  rfl

theorem takesUp_intercalate_cons (hword : IsWord word) (t : List Char) (ts : List (List Char)) :
    takesUp word (unionSeparator.intercalate (t :: ts)) =
      (takesUp word t || (isUnbroken t && takesUp word (unionSeparator.intercalate ts))) := by
  cases ts with
  | nil => simp [takesUp_nil hword]
  | cons u ts =>
    rw [List.intercalate_cons_of_ne_nil (by simp), takesUp_append_unionSeparator hword]

/-- A union takes a word up at a member that does, if nothing breaks off the members before it. -/
theorem takesUp_intercalate_iff (hword : IsWord word) :
    takesUp word (unionSeparator.intercalate ts) = true ↔ ∃ between u after,
      ts = between ++ u :: after ∧ (∀ m ∈ between, isUnbroken m = true) ∧
        takesUp word u = true := by
  induction ts with
  | nil => simp [takesUp_nil hword]
  | cons t ts ih =>
    rw [takesUp_intercalate_cons hword, Bool.or_eq_true, Bool.and_eq_true, ih]
    constructor
    · rintro (h | ⟨ht, between, u, after, rfl, hbetween, hu⟩)
      · exact ⟨[], t, ts, rfl, by simp, h⟩
      · exact ⟨t :: between, u, after, rfl, List.forall_mem_cons.mpr ⟨ht, hbetween⟩, hu⟩
    · rintro ⟨between, u, after, heq, hbetween, hu⟩
      cases between with
      | nil =>
        obtain ⟨rfl, rfl⟩ := List.cons.inj heq
        exact .inl hu
      | cons m between =>
        obtain ⟨rfl, rfl⟩ := List.cons.inj heq
        obtain ⟨hm, hbetween⟩ := List.forall_mem_cons.mp hbetween
        exact .inr ⟨hm, between, u, after, rfl, hbetween, hu⟩

/-- One member leaves a word open and a later one takes it up, and nothing breaks off the members
between them. -/
def RepeatsAcross (word : List Char) (ts : List (List Char)) : Prop :=
  ∃ before t between u after, ts = before ++ t :: (between ++ u :: after) ∧
    leavesOpen word t = true ∧ (∀ m ∈ between, isUnbroken m = true) ∧ takesUp word u = true

theorem repeatsAcross_cons (t : List Char) (ts : List (List Char)) :
    RepeatsAcross word (t :: ts) ↔ RepeatsAcross word ts ∨ leavesOpen word t = true ∧
      ∃ between u after, ts = between ++ u :: after ∧ (∀ m ∈ between, isUnbroken m = true) ∧
        takesUp word u = true := by
  constructor
  · rintro ⟨before, x, between, u, after, heq, hx, hrest⟩
    cases before with
    | nil =>
      obtain ⟨rfl, rfl⟩ := List.cons.inj heq
      exact .inr ⟨hx, between, u, after, rfl, hrest⟩
    | cons y before =>
      obtain ⟨rfl, rfl⟩ := List.cons.inj heq
      exact .inl ⟨before, x, between, u, after, rfl, hx, hrest⟩
  · rintro (⟨before, x, between, u, after, rfl, hrest⟩ | ⟨ht, between, u, after, rfl, hrest⟩)
    · exact ⟨t :: before, x, between, u, after, rfl, hrest⟩
    · exact ⟨[], t, between, u, after, rfl, ht, hrest⟩

/-- A union repeats a word if one of its members does, or two of them together. -/
theorem repeats_intercalate_iff (hword : IsWord word) :
    repeats word (unionSeparator.intercalate ts) = true ↔
      (∃ t ∈ ts, repeats word t = true) ∨ RepeatsAcross word ts := by
  induction ts with
  | nil => simp [repeats, fromWordStart, RepeatsAcross]
  | cons t ts ih =>
    have hsplit : repeats word (unionSeparator.intercalate (t :: ts)) =
        (repeats word t ||
          (leavesOpen word t && takesUp word (unionSeparator.intercalate ts)) ||
          repeats word (unionSeparator.intercalate ts)) := by
      cases ts with
      | nil => simp [takesUp_nil hword, repeats, fromWordStart]
      | cons u ts =>
        rw [List.intercalate_cons_of_ne_nil (by simp), repeats_append_unionSeparator hword]
    rw [hsplit, Bool.or_eq_true, Bool.or_eq_true, Bool.and_eq_true, ih,
      takesUp_intercalate_iff hword, repeatsAcross_cons]
    simp only [List.mem_cons, exists_eq_or_imp]
    rw [or_assoc, or_assoc]
    exact or_congr_right (or_comm.trans or_assoc)

end Joined

section Alone

def HoldsWord (word cs : List Char) : Prop :=
  ∃ before after, cs = before ++ (word ++ after) ∧ before.getLast?.any isWordChar = false ∧
    endsWord after = true

theorem HoldsWord.subset (h : HoldsWord word cs) : word ⊆ cs := by
  obtain ⟨before, after, rfl, -⟩ := h
  simp

theorem leavesOpen_self (hword : IsWord word) : leavesOpen word word = true := by
  have hopens : opensWith word word = true := by
    have hafter := after?_append word []
    rw [List.append_nil] at hafter
    rw [opensWith, hafter]
    rfl
  obtain ⟨w, word, rfl⟩ := List.exists_cons_of_ne_nil hword.nonempty
  simp [leavesOpen, fromWordStart, hopens]

theorem takesUp_self (hword : IsWord word) : takesUp word word = true := by
  have hgoes : goesOnWith word word = true :=
    (goesOnWith_eq_true_iff hword).mpr ⟨[], [], by simp, by simp, rfl⟩
  rw [takesUp_eq, hgoes, Bool.true_or]

theorem not_repeats_self (hword : IsWord word) : repeats word word = false := by
  cases h : repeats word word with
  | false => rfl
  | true =>
    obtain ⟨before, gap, blanks, after, heq, -⟩ := (repeats_eq_true_iff hword).mp h
    refine absurd ?_ (isCut_bar.not_mem hword)
    rw [heq]
    simp

theorem holdsWord_of_leavesOpen (h : leavesOpen word cs = true) : HoldsWord word cs := by
  obtain ⟨before, rest, rfl, -, hopens, hstart⟩ := fromWordStart_eq_true_iff.mp h
  unfold opensWith at hopens
  cases hafter : after? word rest with
  | none => simp [hafter] at hopens
  | some after =>
    have hends : endsWord after = true := by
      rw [hafter, Option.map_some, Option.getD_some, Bool.and_eq_true] at hopens
      exact hopens.1
    rw [after?_eq_some_iff.mp hafter]
    exact ⟨before, after, rfl, by simpa using hstart, hends⟩

theorem holdsWord_of_repeats (hword : IsWord word) (h : repeats word cs = true) :
    HoldsWord word cs := by
  obtain ⟨before, gap, blanks, after, rfl, hstart, hends, -⟩ := (repeats_eq_true_iff hword).mp h
  refine ⟨before, _, rfl, hstart, ?_⟩
  cases gap <;> exact hends

theorem holdsWord_of_takesUp (hword : IsWord word) (h : takesUp word cs = true) :
    HoldsWord word cs := by
  obtain ⟨gap, behind, heq, -, hgoes⟩ := recursInUnion_eq_true_iff.mp h
  obtain ⟨blanks, after, rfl, hblanks, hends⟩ := (goesOnWith_eq_true_iff hword).mp hgoes
  have hlast (before : List Char) : (before ++ '|' :: blanks).getLast?.any isWordChar = false ∧
      blanks.getLast?.any isWordChar = false := by
    cases hblank : blanks.getLast? with
    | none =>
      rw [List.getLast?_eq_none_iff.mp hblank, List.getLast?_concat]
      exact ⟨isCut_bar.outside, rfl⟩
    | some d =>
      have hd := not_isWordChar_of_isBlank (hblanks d (List.mem_of_getLast? hblank))
      simp [List.getLast?_append, List.getLast?_cons, hblank, hd]
  cases gap with
  | nil =>
    obtain ⟨-, rfl⟩ := List.cons.inj heq
    exact ⟨blanks, after, rfl, (hlast []).2, hends⟩
  | cons d gap =>
    obtain ⟨-, rfl⟩ := List.cons.inj heq
    exact ⟨gap ++ '|' :: blanks, after, by simp, (hlast gap).1, hends⟩

/-- Where no other member holds the word, it is repeated exactly if two members are the word and
nothing breaks off the members between them. -/
theorem repeats_intercalate_iff_of_alone (hword : IsWord word)
    (hts : ∀ t ∈ ts, t = word ∨ ¬ HoldsWord word t) :
    repeats word (unionSeparator.intercalate ts) = true ↔ ∃ before between after,
      ts = before ++ word :: (between ++ word :: after) ∧ ∀ m ∈ between, isUnbroken m = true := by
  rw [repeats_intercalate_iff hword]
  constructor
  · rintro (⟨t, ht, hrepeats⟩ | ⟨before, t, between, u, after, rfl, ht, hbetween, hu⟩)
    · rcases hts t ht with rfl | hnot
      · rw [not_repeats_self hword] at hrepeats
        cases hrepeats
      · exact (hnot (holdsWord_of_repeats hword hrepeats)).elim
    · obtain rfl := (hts t (by simp)).resolve_right fun hnot => hnot (holdsWord_of_leavesOpen ht)
      obtain rfl := (hts u (by simp)).resolve_right fun hnot => hnot (holdsWord_of_takesUp hword hu)
      exact ⟨before, between, after, rfl, hbetween⟩
  · rintro ⟨before, between, after, rfl, hbetween⟩
    exact .inr ⟨before, word, between, word, after, rfl, leavesOpen_self hword, hbetween,
      takesUp_self hword⟩

end Alone

section Embedded

/-- A repetition is seen wherever its text stands between characters of no word. -/
theorem hasDuplicateNullable_embedded {before after : List Char}
    (h : hasDuplicateNullable cs = true) (hbefore : before.getLast?.any isWordChar = false)
    (hafter : endsWord after = true) : hasDuplicateNullable (before ++ (cs ++ after)) = true := by
  obtain ⟨word, hword, start, gap, blanks, rest, rfl, hstart, hopens, hgap, hblanks, hends⟩ :=
    hasDuplicateNullable_iff.mp h
  refine hasDuplicateNullable_iff.mpr ⟨word, hword, before ++ start, gap, blanks, rest ++ after,
    by simp, ?_, hopens, hgap, hblanks, ?_⟩
  · rw [List.getLast?_append]
    cases hlast : start.getLast? with
    | none => exact hbefore
    | some d => simpa [hlast] using hstart
  · cases rest with
    | nil => exact hafter
    | cons d rest => exact hends

/-- A joined text goes on behind each of its parts with the separator, or ends there. -/
theorem exists_intercalate_of_mem (separator : List Char) {t : List Char} {ts : List (List Char)}
    (ht : t ∈ ts) :
    ∃ before after, separator.intercalate ts = before ++ (t ++ after) ∧
      (after = [] ∨ separator <+: after) := by
  induction ts with
  | nil => cases ht
  | cons u ts ih =>
    cases ts with
    | nil =>
      obtain rfl := List.mem_singleton.mp ht
      exact ⟨[], [], by simp, .inl rfl⟩
    | cons v ts =>
      rw [List.intercalate_cons_of_ne_nil (by simp), List.append_assoc]
      rcases List.mem_cons.mp ht with rfl | ht
      · exact ⟨[], _, rfl, .inr (List.prefix_append _ _)⟩
      · obtain ⟨before, after, heq, hafter⟩ := ih ht
        exact ⟨u ++ separator ++ before, after, by simp [heq], hafter⟩

end Embedded

/-- A nullable is a member at two places, and nothing breaks off the members between them. -/
def StandsTwice (ts : List (List Char)) : Prop :=
  ∃ word ∈ nullableWords, ∃ before between after,
    ts = before ++ word :: (between ++ word :: after) ∧ ∀ m ∈ between, isUnbroken m = true

/-- No member of a union holds a nullable but the nullables themselves. -/
def NullablesStandAlone (ts : List (List Char)) : Prop :=
  ∀ word ∈ nullableWords, ∀ t ∈ ts, t = word ∨ ¬ HoldsWord word t

theorem not_standsTwice_of_broken (ht : isUnbroken u = false) (hne : t ≠ u) :
    ¬ StandsTwice [t, u, t] := by
  rintro ⟨word, -, before, between, after, heq, hbetween⟩
  rcases before with _ | ⟨_, _ | ⟨_, before⟩⟩
  · rcases between with _ | ⟨m, between⟩
    · simp only [List.nil_append, List.cons.injEq] at heq
      exact hne (heq.1.trans heq.2.1.symm)
    · simp only [List.nil_append, List.cons_append, List.cons.injEq] at heq
      have hm := hbetween m List.mem_cons_self
      rw [← heq.2.1, ht] at hm
      cases hm
  · have hlength := congrArg List.length heq
    rcases between with _ | ⟨m, between⟩
    · simp only [List.cons_append, List.nil_append, List.cons.injEq] at heq
      exact hne (heq.2.2.1.trans heq.2.1.symm)
    · simp at hlength
  · have hlength := congrArg List.length heq
    simp at hlength
    omega

theorem hasDuplicateNullable_union_iff (ts : List (List Char)) :
    hasDuplicateNullable (unionSeparator.intercalate ts) = true ↔
      ∃ word ∈ nullableWords, (∃ t ∈ ts, repeats word t = true) ∨ RepeatsAcross word ts := by
  rw [hasDuplicateNullable_eq, List.any_eq_true]
  constructor
  · rintro ⟨word, hword, h⟩
    exact ⟨word, hword, (repeats_intercalate_iff (isWord_of_mem_nullableWords hword)).mp h⟩
  · rintro ⟨word, hword, h⟩
    exact ⟨word, hword, (repeats_intercalate_iff (isWord_of_mem_nullableWords hword)).mpr h⟩

theorem StandsTwice.hasDuplicateNullable (h : StandsTwice ts) :
    hasDuplicateNullable (unionSeparator.intercalate ts) = true := by
  obtain ⟨word, hword, before, between, after, rfl, hbetween⟩ := h
  have hself := isWord_of_mem_nullableWords hword
  exact (hasDuplicateNullable_union_iff _).mpr ⟨word, hword, .inr ⟨before, word, between, word, after,
    rfl, leavesOpen_self hself, hbetween, takesUp_self hself⟩⟩

theorem standsTwice_of_hasDuplicateNullable (halone : NullablesStandAlone ts)
    (h : hasDuplicateNullable (unionSeparator.intercalate ts) = true) : StandsTwice ts := by
  rw [hasDuplicateNullable_eq, List.any_eq_true] at h
  obtain ⟨word, hword, h⟩ := h
  exact ⟨word, hword, (repeats_intercalate_iff_of_alone (isWord_of_mem_nullableWords hword)
    (halone word hword)).mp h⟩

end TypeExpr

namespace Graph

open TypeExpr

variable {g : Graph} {h o : Handle} {free : List Identity} {ms : List Handle} {texts : List String}
  {ps : List Property} {p : Property} {l : Label} {s : String}

theorem textWithin_of_union (hs : g.IsSpelledOut free h) (hkind : g.kind? h = some .union)
    (hms : g.members h = .ok ms)
    (htexts : ms.mapM (g.textWithin (h.freeInside free)) = .ok (texts.map .text)) :
    g.textWithin free h = .ok (.text (" | ".intercalate texts)) := by
  rw [hs.textWithin_eq, renderNode, hkind]
  simp only [hms, bind, Except.bind]
  rw [htexts]
  simp only [Label.join, Label.mapM_toText_map_text]
  rfl

/-- An object is not clean if the text of a property is not. -/
theorem not_isClean_of_property (hs : g.IsSpelledOut free o) (hkind : g.kind? o = some .object)
    (hps : g.properties o = .ok ps) (hp : p ∈ ps)
    (hl : g.textWithin (o.freeInside free) p.type = .ok l)
    (hdup : hasDuplicateNullable (l.spliced g.doc).toList = true)
    (htext : g.textWithin free o = .ok (.text s)) : isClean s.toList = false := by
  rw [hs.textWithin_eq] at htext
  obtain ⟨labels, hlabels, heq⟩ := exists_labels_of_object hkind hps (List.ne_nil_of_mem hp) htext
  cases heq
  have hentry : g.entryText p l ∈ List.zipWith g.entryText ps labels :=
    mem_zipWith_of_mapM hlabels hp hl
  obtain ⟨before, after, hsplit, hafter⟩ := exists_intercalate_of_mem "; ".toList
    (List.mem_map_of_mem (f := String.toList) hentry)
  -- The text of the property stands between the blank behind its key and a separator or a blank.
  have hwhole : ("\x7b " ++ "; ".intercalate (List.zipWith g.entryText ps labels) ++ " \x7d").toList =
      ("\x7b ".toList ++ before ++ (rawKey p.name ++ (if p.optional then "?" else "") ++ ":").toList ++
        [' ']) ++ ((l.spliced g.doc).toList ++ (after ++ " \x7d".toList)) := by
    simp only [String.toList_append, String.toList_intercalate, hsplit, entryText]
    simp
  have hends : endsWord (after ++ " \x7d".toList) = true := by
    have hblank := not_isWordChar_of_isBlank isBlank_blank
    rcases hafter with rfl | ⟨rest, rfl⟩
    · simp [endsWord, hblank]
    · simp [endsWord, isCut_semicolon.outside]
  have hstarts : ("\x7b ".toList ++ before ++
      (rawKey p.name ++ (if p.optional then "?" else "") ++ ":").toList ++
        [' ']).getLast?.any Text.isWordChar = false := by
    rw [List.getLast?_concat]
    exact not_isWordChar_of_isBlank isBlank_blank
  rw [isClean, hwhole, hasDuplicateNullable_embedded hdup hstarts hends, Bool.not_true,
    Bool.and_false]

/-- The text of a union repeats a nullable exactly if the text of a member does, or one member leaves
it open and a later one takes it up. It does if a nullable is a member at two places and nothing
breaks off the members between; and only then, if no other member holds a nullable. An object that
has a property with such a text is not clean. The members of a well-shaped union have texts. -/
theorem repeated_nullable_is_detected_iff (hs : g.IsSpelledOut free h)
    (hkind : g.kind? h = some .union) :
    (∀ ms (texts : List String), g.members h = .ok ms →
      ms.mapM (g.textWithin (h.freeInside free)) = .ok (texts.map .text) →
      ∃ s, g.textWithin free h = .ok (.text s) ∧
        (hasDuplicateNullable s.toList = true ↔ ∃ word ∈ nullableWords,
          (∃ t ∈ texts, repeats word t.toList = true) ∨
            RepeatsAcross word (texts.map String.toList)) ∧
        (StandsTwice (texts.map String.toList) → hasDuplicateNullable s.toList = true) ∧
        (NullablesStandAlone (texts.map String.toList) →
          hasDuplicateNullable s.toList = true → StandsTwice (texts.map String.toList)) ∧
        (hasDuplicateNullable s.toList = true → ∀ free' o ps p t, g.IsSpelledOut free' o →
          g.kind? o = some .object → g.properties o = .ok ps → p ∈ ps → p.type = h →
          o.freeInside free' = free → g.textWithin free' o = .ok (.text t) →
          isClean t.toList = false)) ∧
    (g.HasAcyclicAliases → g.WellShapedFrom h → ∃ ms, ∃ texts : List String, g.members h = .ok ms ∧
      ms.mapM (g.textWithin (h.freeInside free)) = .ok (texts.map .text)) := by
  constructor
  · intro ms texts hms htexts
    have hjoined : (" | ".intercalate texts).toList =
        unionSeparator.intercalate (texts.map String.toList) := String.toList_intercalate
    refine ⟨_, textWithin_of_union hs hkind hms htexts, ?_, ?_, ?_, ?_⟩
    · rw [hjoined, hasDuplicateNullable_union_iff]
      simp only [List.mem_map, exists_exists_and_eq_and]
    · rw [hjoined]
      exact fun h => h.hasDuplicateNullable
    · rw [hjoined]
      exact standsTwice_of_hasDuplicateNullable
    · rintro hdup free' o ps p t ho hobject hps hp rfl rfl htext
      exact not_isClean_of_property ho hobject hps hp (textWithin_of_union hs hkind hms htexts) hdup
        htext
  · intro hacyclic hshaped
    obtain ⟨ms, hms⟩ := (hshaped.self.isAskable hacyclic).members
    have hyields : ∀ m ∈ ms, Yields (g.textWithin (h.freeInside free) m) Label.IsText :=
      fun m hm => yields_textWithin hacyclic _ m (hshaped.part (.member hms hm))
    obtain ⟨labels, hlabels, htexts⟩ := Yields.mapM hyields
    obtain ⟨texts, htexts⟩ := Label.exists_mapM_toText_eq_ok htexts
    exact ⟨ms, texts, hms, Label.mapM_toText_eq_ok_iff.mp htexts ▸ hlabels⟩

def interrupted : Graph where
  doc := ⟨#[
    .mapping [(.text "kind", .text "union"), (.text "members", .node 1)],
    .list [.text "null", .node 2, .text "null"],
    .mapping [(.text "kind", .text "object"), (.text "properties", .node 3)],
    .mapping [(.text "a", .text "string")]]⟩
  source := "<memory>"
  files := []
  declarations := []

set_option maxRecDepth 100000 in
theorem interrupted_parts :
    interrupted.members (.anonymous 0) = .ok [.leaf "null", .anonymous 2, .leaf "null"] ∧
      [.leaf "null", .anonymous 2, .leaf "null"].mapM
        (interrupted.textWithin ((Handle.anonymous 0).freeInside interrupted.identities)) =
          .ok (["null", "\x7b a: string \x7d", "null"].map .text) := by
  constructor <;> cbv

theorem object_hides_second_null :
    interrupted.IsSpelledOut interrupted.identities (.anonymous 0) ∧
      interrupted.kind? (.anonymous 0) = some .union ∧
      ∃ s, interrupted.text (.anonymous 0) = .ok (.text s) ∧
        s = "null | \x7b a: string \x7d | null" ∧ hasDuplicateNullable s.toList = false := by
  have hspelled : interrupted.IsSpelledOut interrupted.identities (.anonymous 0) :=
    ⟨by decide, rfl, by decide⟩
  have hkind : interrupted.kind? (.anonymous 0) = some .union := by cbv
  obtain ⟨hmembers, htexts⟩ := interrupted_parts
  obtain ⟨s, hs, -, -, honly, -⟩ :=
    (repeated_nullable_is_detected_iff hspelled hkind).1 _ _ hmembers htexts
  have hletters : ["null", "\x7b a: string \x7d", "null"].map String.toList =
      [['n', 'u', 'l', 'l'],
        ['{', ' ', 'a', ':', ' ', 's', 't', 'r', 'i', 'n', 'g', ' ', '}'],
        ['n', 'u', 'l', 'l']] := by simp
  rw [hletters] at honly
  refine ⟨hspelled, hkind, s, hs, ?_, ?_⟩
  · have hjoined := textWithin_of_union hspelled hkind hmembers htexts
    have hsame : " | ".intercalate ["null", "\x7b a: string \x7d", "null"] = s :=
      Label.text.inj (Except.ok.inj (hjoined.symm.trans hs))
    exact hsame.symm.trans (by rfl)
  · cases hdup : hasDuplicateNullable s.toList with
    | false => rfl
    | true =>
      refine absurd (honly ?_ hdup) (not_standsTwice_of_broken (by decide) (by simp))
      intro word hword t ht
      have hmissing : t = word ∨ ∃ c ∈ word, c ∉ t := by
        rw [nullableWords_eq] at hword
        revert word t
        simp
      refine hmissing.imp id ?_
      rintro ⟨c, hc, hnot⟩ hholds
      exact hnot (hholds.subset hc)

end Graph

end RouteCatalog
