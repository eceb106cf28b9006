import RouteCatalog.Markdown.Snippet
import RouteCatalog.Proofs.DuplicateNullable

/-! The replacements that turn the type of the parameters into a value. They go past every sign of an
object literal, and each of them either leaves a text as it is or makes it lighter in one measure. So
a text that they change somewhere is changed as a whole. -/

namespace RouteCatalog.Markdown

open Text TypeExpr

variable {a b cs rest padding : List Char} {c : Char}

section Stages

def commaFor (c : Char) : Char := if c = ';' then ',' else c

/-- The three replacements. -/
def converted (cs : List Char) : List Char :=
  exampleValues (dropTrailingCommas (cs.map commaFor))

theorem toList_exampleParams (s : String) : (exampleParams s).toList = converted s.toList :=
  String.toList_ofList

theorem isBlank_commaFor (c : Char) : isBlank (commaFor c) = isBlank c := by
  by_cases h : c = ';'
  · rw [h]
    decide
  · rw [commaFor, if_neg h]

/-- Whether a comma in front of the text is one too many. -/
def closes (cs : List Char) : Bool := (cs.dropWhile isBlank).head? == some '\x7d'

theorem closes_map_commaFor (cs : List Char) : closes (cs.map commaFor) = closes cs := by
  have hblank : isBlank ∘ commaFor = isBlank := funext isBlank_commaFor
  rw [closes, closes, List.dropWhile_map, hblank, List.head?_map]
  cases h : (cs.dropWhile isBlank).head? with
  | none => rfl
  | some c =>
    by_cases hc : c = ';'
    · subst hc
      rfl
    · simp [commaFor, hc]

theorem dropTrailingCommas_comma (cs : List Char) : dropTrailingCommas (',' :: cs) =
    if closes cs then dropTrailingCommas cs else ',' :: dropTrailingCommas cs := by
  simp [dropTrailingCommas, closes]

theorem dropTrailingCommas_cons_of_ne (h : c ≠ ',') (cs : List Char) :
    dropTrailingCommas (c :: cs) = c :: dropTrailingCommas cs := by
  simp [dropTrailingCommas, h]

theorem dropTrailingCommas_append (h : ',' ∉ a) (b : List Char) :
    dropTrailingCommas (a ++ b) = a ++ dropTrailingCommas b := by
  induction a with
  | nil => rfl
  | cons c a ih =>
    rw [List.mem_cons, not_or] at h
    rw [List.cons_append, dropTrailingCommas_cons_of_ne (Ne.symm h.1), ih h.2, List.cons_append]

theorem closes_append_cons (hsolid : isBlank c = false) (hbrace : c ≠ '\x7d') (a b : List Char) :
    closes (a ++ c :: b) = closes a := by
  unfold closes
  rw [show List.dropWhile isBlank (a ++ c :: b) = List.dropWhile isBlank a ++ c :: b from
    skipBlanks_append_cons hsolid a b]
  cases List.dropWhile isBlank a with
  | nil => simp [hbrace]
  | cons d rest => rfl

/-- No comma is dropped for what stands behind a sign that is neither a blank nor a brace. -/
theorem dropTrailingCommas_append_cons (hsolid : isBlank c = false) (hcomma : c ≠ ',')
    (hbrace : c ≠ '\x7d') (a b : List Char) :
    dropTrailingCommas (a ++ c :: b) = dropTrailingCommas a ++ c :: dropTrailingCommas b := by
  induction a with
  | nil => exact dropTrailingCommas_cons_of_ne hcomma b
  | cons d a ih =>
    by_cases hd : d = ','
    · subst hd
      rw [List.cons_append, dropTrailingCommas_comma, dropTrailingCommas_comma,
        closes_append_cons hsolid hbrace, ih]
      cases closes a <;> rfl
    · rw [List.cons_append, dropTrailingCommas_cons_of_ne hd, dropTrailingCommas_cons_of_ne hd, ih,
        List.cons_append]

theorem exampleValues_stringType (rest : List Char) :
    exampleValues (": string".toList ++ rest) =
      ": \"example-value\"".toList ++ exampleValues rest := by
  have hfound : after? ": string".toList (": string".toList ++ rest) = some rest :=
    after?_append _ rest
  rw [show ": string".toList ++ rest = ':' :: (" string".toList ++ rest) from rfl] at hfound ⊢
  rw [exampleValues, hfound]
  rfl

theorem exampleValues_cons (h : ¬ ": string".toList <+: c :: cs) :
    exampleValues (c :: cs) = c :: exampleValues cs := by
  have hnone : after? ": string".toList (c :: cs) = none := by
    cases hrest : after? ": string".toList (c :: cs) with
    | none => rfl
    | some rest => exact absurd ⟨rest, (after?_eq_some_iff.mp hrest).symm⟩ h
  rw [exampleValues, hnone]

theorem exampleValues_append (h : ':' ∉ a) (b : List Char) :
    exampleValues (a ++ b) = a ++ exampleValues b := by
  induction a with
  | nil => rfl
  | cons c a ih =>
    rw [List.mem_cons, not_or] at h
    have hstart : ¬ ": string".toList <+: c :: (a ++ b) := fun hstarts =>
      h.1 (List.cons_prefix_cons.mp hstarts).1
    rw [List.cons_append, exampleValues_cons hstart, ih h.2, List.cons_append]

/-- Reading for types finds one here, or goes on behind the first character. -/
theorem exampleValues_induction {P : List Char → Prop} (nil : P [])
    (found : ∀ rest, P rest → P (": string".toList ++ rest))
    (other : ∀ c cs, ¬ ": string".toList <+: c :: cs → P cs → P (c :: cs)) (cs : List Char) :
    P cs := by
  induction cs using exampleValues.induct with
  | case1 => exact nil
  | case2 c cs rest hrest ih =>
    rw [after?_eq_some_iff] at hrest
    have htail : cs = " string".toList ++ rest := (List.cons.inj hrest).2
    rw [hrest]
    rw [htail] at ih
    exact found rest ih
  | case3 c cs hnone ih =>
    refine other c cs ?_ ih
    rintro ⟨rest, heq⟩
    rw [after?_eq_some_iff.mpr heq.symm] at hnone
    cases hnone

/-- No type is found across a character that does not stand in one. -/
theorem exampleValues_append_cons (h : c ∉ " string".toList) (a b : List Char) :
    exampleValues (a ++ c :: b) = exampleValues a ++ exampleValues (c :: b) := by
  induction a using exampleValues_induction with
  | nil => simp [exampleValues]
  | found rest ih =>
    rw [List.append_assoc, exampleValues_stringType, exampleValues_stringType, ih,
      List.append_assoc]
  | other d a hself ih =>
    have hstart : ¬ ": string".toList <+: d :: (a ++ c :: b) := by
      intro hstarts
      obtain ⟨rfl, rest, heq⟩ := List.cons_prefix_cons.mp hstarts
      have hfound : after? " string".toList (a ++ c :: b) = some rest :=
        after?_eq_some_iff.mpr heq.symm
      rw [after?_append_cons h, Option.map_eq_some_iff] at hfound
      obtain ⟨rest', hfound, -⟩ := hfound
      exact hself (List.cons_prefix_cons.mpr ⟨rfl, rest', (after?_eq_some_iff.mp hfound).symm⟩)
    rw [List.cons_append, exampleValues_cons hstart, exampleValues_cons hself, ih,
      List.cons_append]

theorem converted_append (h : ∀ c ∈ a, c ∉ [',', ';', ':']) (b : List Char) :
    converted (a ++ b) = a ++ converted b := by
  have hsame : a.map commaFor = a := by
    refine List.map_congr_left (fun c hc => ?_) |>.trans (List.map_id a)
    have hne : c ≠ ';' := fun heq => h c hc (by simp [heq])
    rw [commaFor, if_neg hne, id]
  have hcomma : ',' ∉ a := fun hmem => h ',' hmem (by decide)
  have hcolon : ':' ∉ a := fun hmem => h ':' hmem (by decide)
  rw [converted, List.map_append, hsame, dropTrailingCommas_append hcomma,
    exampleValues_append hcolon]
  rfl

theorem converted_append_mark (a b : List Char) :
    converted (a ++ '?' :: b) = converted a ++ '?' :: converted b := by
  have hmark : commaFor '?' = '?' := rfl
  unfold converted
  rw [List.map_append, List.map_cons, hmark,
    dropTrailingCommas_append_cons (by decide) (by decide) (by decide),
    exampleValues_append_cons (by decide), exampleValues_cons]
  intro hstart
  exact absurd (List.cons_prefix_cons.mp hstart).1 (by decide)

theorem converted_append_type (a b : List Char) :
    converted (a ++ (": string".toList ++ b)) =
      converted a ++ (": \"example-value\"".toList ++ converted b) := by
  have htype : (": string".toList ++ b).map commaFor =
      ':' :: (" string".toList ++ b.map commaFor) := rfl
  unfold converted
  rw [List.map_append, htype, dropTrailingCommas_append_cons (by decide) (by decide) (by decide),
    dropTrailingCommas_append (by decide), exampleValues_append_cons (by decide)]
  exact congrArg _ (exampleValues_stringType _)

theorem converted_nil : converted [] = [] := by simp [converted, dropTrailingCommas, exampleValues]

theorem map_commaFor_separator (hc : c = ',' ∨ c = ';') (b : List Char) :
    (c :: b).map commaFor = ',' :: b.map commaFor := by
  rcases hc with rfl | rfl <;> rfl

theorem converted_separator (hc : c = ',' ∨ c = ';') (hopen : closes b = false) :
    converted (c :: ' ' :: b) = ',' :: ' ' :: converted b := by
  have hcloses : closes ((' ' :: b).map commaFor) = false := by
    rw [closes_map_commaFor, closes, List.dropWhile_cons_of_pos isBlank_blank]
    exact hopen
  have hblank : (' ' :: b).map commaFor = ' ' :: b.map commaFor := rfl
  rw [converted, map_commaFor_separator hc, dropTrailingCommas_comma, hcloses, hblank,
    dropTrailingCommas_cons_of_ne (by decide)]
  exact exampleValues_append (a := [',', ' ']) (by decide) _

theorem not_mem_of_blank (hpadding : ∀ c ∈ padding, isBlank c = true) :
    ∀ c ∈ padding, c ∉ [',', ';', ':'] := by
  intro c hc hmem
  have hblank := hpadding c hc
  simp only [List.mem_cons, List.not_mem_nil, or_false] at hmem
  rcases hmem with rfl | rfl | rfl <;> exact absurd hblank (by decide)

theorem converted_closing (hpadding : ∀ c ∈ padding, isBlank c = true) :
    converted (padding ++ ['\x7d']) = padding ++ ['\x7d'] := by
  have hbrace : converted ['\x7d'] = ['\x7d'] := by
    rw [← List.append_nil ['\x7d'], converted_append (by simp), converted_nil]
  rw [converted_append (not_mem_of_blank hpadding), hbrace]

theorem converted_terminator (hc : c = ',' ∨ c = ';') (hpadding : ∀ c ∈ padding, isBlank c = true) :
    converted (c :: (padding ++ ['\x7d'])) = padding ++ ['\x7d'] := by
  have hcloses : closes ((padding ++ ['\x7d']).map commaFor) = true := by
    rw [closes_map_commaFor, closes, List.dropWhile_append_of_pos hpadding]
    rfl
  rw [converted, map_commaFor_separator hc, dropTrailingCommas_comma, hcloses]
  exact converted_closing hpadding

end Stages

section Weight

/-- A measure that every replacement lowers. -/
def weight (c : Char) : Int :=
  if c = ';' then 2 else if c = ',' then 1 else if c = '"' ∨ c = '?' then -1 else 0

def weigh (cs : List Char) : Int := (cs.map weight).sum

theorem weigh_append (a b : List Char) : weigh (a ++ b) = weigh a + weigh b := by
  simp [weigh]

/-- The first text is the second one, or it is lighter. -/
def NoHeavier (a b : List Char) : Prop := a = b ∨ weigh a < weigh b

theorem NoHeavier.le (h : NoHeavier a b) : weigh a ≤ weigh b := by
  rcases h with rfl | h
  · exact le_refl _
  · exact le_of_lt h

theorem NoHeavier.eq_of_le (h : NoHeavier a b) (hle : weigh b ≤ weigh a) : a = b := by
  rcases h with h | h
  · exact h
  · exact absurd hle (not_le_of_gt h)

theorem NoHeavier.trans {c : List Char} (h : NoHeavier a b) (h' : NoHeavier b c) :
    NoHeavier a c := by
  rcases h with rfl | h
  · exact h'
  · exact .inr (lt_of_lt_of_le h h'.le)

theorem NoHeavier.append {a' b' : List Char} (h : NoHeavier a a') (h' : NoHeavier b b') :
    NoHeavier (a ++ b) (a' ++ b') := by
  rcases h with rfl | h
  · rcases h' with rfl | h'
    · exact .inl rfl
    · refine .inr ?_
      rw [weigh_append, weigh_append]
      omega
  · refine .inr ?_
    have hle := h'.le
    rw [weigh_append, weigh_append]
    omega

theorem noHeavier_commaFor (c : Char) : NoHeavier [commaFor c] [c] := by
  by_cases h : c = ';'
  · rw [h]
    exact .inr (by decide)
  · exact .inl (by rw [commaFor, if_neg h])

theorem noHeavier_map_commaFor (cs : List Char) : NoHeavier (cs.map commaFor) cs := by
  induction cs with
  | nil => exact .inl rfl
  | cons c cs ih => exact (noHeavier_commaFor c).append ih

theorem weigh_lt_comma_cons (h : NoHeavier a b) : weigh a < weigh (',' :: b) := by
  have hcomma : weigh [','] = 1 := by decide
  have hle := h.le
  rw [← List.singleton_append, weigh_append, hcomma]
  omega

theorem noHeavier_dropTrailingCommas (cs : List Char) : NoHeavier (dropTrailingCommas cs) cs := by
  induction cs with
  | nil => exact .inl rfl
  | cons c cs ih =>
    have hkept : NoHeavier (c :: dropTrailingCommas cs) (c :: cs) :=
      NoHeavier.append (a := [c]) (.inl rfl) ih
    by_cases hc : c = ','
    · subst hc
      rw [dropTrailingCommas_comma]
      cases closes cs with
      | true => exact .inr (weigh_lt_comma_cons ih)
      | false => exact hkept
    · rw [dropTrailingCommas_cons_of_ne hc]
      exact hkept

theorem weigh_exampleValues_lt (h : NoHeavier a b) :
    weigh (": \"example-value\"".toList ++ a) < weigh (": string".toList ++ b) := by
  have hlt : weigh ": \"example-value\"".toList < weigh ": string".toList := by decide
  have hle := h.le
  rw [weigh_append, weigh_append]
  omega

theorem noHeavier_exampleValues (cs : List Char) : NoHeavier (exampleValues cs) cs := by
  induction cs using exampleValues_induction with
  | nil => exact .inl (by simp [exampleValues])
  | found rest ih =>
    rw [exampleValues_stringType]
    exact .inr (weigh_exampleValues_lt ih)
  | other c cs hstart ih =>
    rw [exampleValues_cons hstart]
    exact NoHeavier.append (a := [c]) (.inl rfl) ih

theorem noHeavier_converted (cs : List Char) : NoHeavier (converted cs) cs :=
  (noHeavier_exampleValues _).trans
    ((noHeavier_dropTrailingCommas _).trans (noHeavier_map_commaFor cs))

section Together

variable {α : Type} {separator : List Char} {k l : α → List Char} {xs : List α}

theorem intercalate_map_cons_cons (separator : List Char) (k : α → List Char) (x y : α)
    (xs : List α) : separator.intercalate ((x :: y :: xs).map k) =
      k x ++ (separator ++ separator.intercalate ((y :: xs).map k)) := by
  rw [List.map_cons, List.intercalate_cons_of_ne_nil (by simp), List.append_assoc]

theorem weigh_intercalate_le (separator : List Char) (h : ∀ x ∈ xs, NoHeavier (k x) (l x)) :
    weigh (separator.intercalate (xs.map k)) ≤ weigh (separator.intercalate (xs.map l)) := by
  induction xs with
  | nil => exact le_refl _
  | cons x xs ih =>
    have hx := (h x List.mem_cons_self).le
    have hxs := ih fun y hy => h y (List.mem_cons_of_mem x hy)
    cases xs with
    | nil => simpa using hx
    | cons y ys =>
      rw [intercalate_map_cons_cons, intercalate_map_cons_cons, weigh_append, weigh_append,
        weigh_append, weigh_append]
      omega

/-- Texts that are no heavier one by one are the same if they are no lighter together. -/
theorem eq_of_weigh_intercalate_le (h : ∀ x ∈ xs, NoHeavier (k x) (l x))
    (hle : weigh (separator.intercalate (xs.map l)) ≤ weigh (separator.intercalate (xs.map k))) :
    ∀ x ∈ xs, k x = l x := by
  induction xs with
  | nil => simp
  | cons x xs ih =>
    have hx := h x List.mem_cons_self
    have htail : ∀ y ∈ xs, NoHeavier (k y) (l y) := fun y hy => h y (List.mem_cons_of_mem x hy)
    cases xs with
    | nil => simpa using hx.eq_of_le (by simpa using hle)
    | cons y ys =>
      rw [intercalate_map_cons_cons, intercalate_map_cons_cons, weigh_append, weigh_append,
        weigh_append, weigh_append] at hle
      have hxle := hx.le
      have hrest := weigh_intercalate_le separator htail
      rw [List.forall_mem_cons]
      exact ⟨hx.eq_of_le (by omega), ih htail (by omega)⟩

end Together

end Weight

section Untouched

/-- No replacement finds anything in the text. -/
structure IsUntouched (cs : List Char) : Prop where
  semicolon : ';' ∉ cs
  trailingComma : ∀ before after, cs = before ++ ',' :: after → closes after = false
  stringType : ¬ ": string".toList <:+: cs

theorem map_commaFor_eq_self_iff : cs.map commaFor = cs ↔ ';' ∉ cs := by
  induction cs with
  | nil => simp
  | cons c cs ih =>
    rw [List.map_cons, List.cons.injEq, ih, List.mem_cons, not_or]
    refine and_congr_left fun _ => ?_
    by_cases hc : c = ';'
    · subst hc
      decide
    · simp [commaFor, hc, Ne.symm hc]

theorem forall_comma_cons_iff :
    (∀ before after, c :: cs = before ++ ',' :: after → closes after = false) ↔
      (c = ',' → closes cs = false) ∧
        ∀ before after, cs = before ++ ',' :: after → closes after = false := by
  constructor
  · intro h
    refine ⟨fun hc => h [] cs (by rw [hc]; rfl), fun before after heq => ?_⟩
    exact h (c :: before) after (by rw [heq]; rfl)
  · rintro ⟨hfirst, hrest⟩ before after heq
    cases before with
    | nil =>
      obtain ⟨hc, rfl⟩ := List.cons.inj heq
      exact hfirst hc
    | cons d before => exact hrest before after (List.cons.inj heq).2

theorem dropTrailingCommas_eq_self_iff : dropTrailingCommas cs = cs ↔
    ∀ before after, cs = before ++ ',' :: after → closes after = false := by
  induction cs with
  | nil => simp [dropTrailingCommas]
  | cons c cs ih =>
    rw [forall_comma_cons_iff, ← ih]
    by_cases hc : c = ','
    · subst hc
      rw [dropTrailingCommas_comma]
      cases closes cs with
      | true =>
        have hlt := weigh_lt_comma_cons (noHeavier_dropTrailingCommas cs)
        refine iff_of_false (fun heq => ?_) (by simp)
        rw [if_pos rfl] at heq
        rw [heq] at hlt
        exact lt_irrefl _ hlt
      | false => simp
    · rw [dropTrailingCommas_cons_of_ne hc]
      simp [hc]

theorem exampleValues_eq_self_iff : exampleValues cs = cs ↔ ¬ ": string".toList <:+: cs := by
  induction cs using exampleValues_induction with
  | nil => simp [exampleValues]
  | found rest ih =>
    have hlt := weigh_exampleValues_lt (noHeavier_exampleValues rest)
    rw [exampleValues_stringType]
    refine iff_of_false (fun heq => ?_) (not_not.mpr ⟨[], rest, rfl⟩)
    rw [heq] at hlt
    exact lt_irrefl _ hlt
  | other c cs hstart ih =>
    rw [exampleValues_cons hstart, List.infix_cons_iff, not_or, List.cons.injEq, ih]
    exact ⟨fun h => ⟨hstart, h.2⟩, fun h => ⟨rfl, h.2⟩⟩

theorem converted_eq_self_iff : converted cs = cs ↔ IsUntouched cs := by
  have hlast := noHeavier_exampleValues (dropTrailingCommas (cs.map commaFor))
  have hsecond := noHeavier_dropTrailingCommas (cs.map commaFor)
  have hfirst := noHeavier_map_commaFor cs
  constructor
  · intro h
    have hweigh : weigh (exampleValues (dropTrailingCommas (cs.map commaFor))) = weigh cs :=
      congrArg weigh h
    have hle := hfirst.le
    have hle' := hsecond.le
    have hle'' := hlast.le
    have hmap := hfirst.eq_of_le (by omega)
    have hdrop := hsecond.eq_of_le (by omega)
    have hvalues := hlast.eq_of_le (by omega)
    rw [hmap] at hdrop hvalues
    rw [hdrop] at hvalues
    exact ⟨map_commaFor_eq_self_iff.mp hmap, dropTrailingCommas_eq_self_iff.mp hdrop,
      exampleValues_eq_self_iff.mp hvalues⟩
  · rintro ⟨hsemicolon, hcomma, htype⟩
    rw [converted, map_commaFor_eq_self_iff.mpr hsemicolon,
      dropTrailingCommas_eq_self_iff.mpr hcomma, exampleValues_eq_self_iff.mpr htype]

end Untouched

end RouteCatalog.Markdown
