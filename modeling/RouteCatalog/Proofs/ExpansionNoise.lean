import RouteCatalog.Proofs.DuplicateNullable

/-! Signs of an expanded array in a text that is put together from parts. A sign is a computed key or
the end of a key and the colon behind it, so that a quote cuts every sign off, and a key shows one
exactly if it ends in a telltale method. A text stands alone if its signs are its own wherever it is
put down: names do, and so do lists, brackets and objects made of texts that do. -/

namespace RouteCatalog.TypeExpr

open Text

variable {word key t cs r : List Char} {ts : List (List Char)} {c : Char}

section Characters

def isKeyChar (c : Char) : Bool := isWordChar c || c == '$'

theorem isKeyChar_of_isAscii (h : c.toNat < 128) :
    isKeyChar c = (isAsciiLetter c || ('0' ≤ c && c ≤ '9') || c == '_' || c == '$') := by
  rw [isKeyChar, isWordChar_of_isAscii h]

theorem not_isBlank_of_isKeyChar (h : isKeyChar c = true) : isBlank c = false := by
  cases hblank : isBlank c with
  | false => rfl
  | true =>
    rw [isKeyChar, not_isWordChar_of_isBlank hblank, Bool.false_or, beq_iff_eq] at h
    rw [h] at hblank
    exact absurd hblank (by decide)

theorem isKeyChar_of_isRawKey (h : isRawKey key = true) :
    key ≠ [] ∧ ∀ c ∈ key, isKeyChar c = true := by
  cases key with
  | nil => cases h
  | cons c cs =>
    rw [isRawKey, Bool.and_eq_true, List.all_eq_true] at h
    exact ⟨List.cons_ne_nil c cs, h.2⟩

/-- The punctuation of a rendering, the opening bracket apart. -/
def punctuation : List Char :=
  ['"', '?', ':', '.', '|', '&', ',', ';', '<', '>', '(', ')', ']', '\x7b', '\x7d', '=', ' ']

theorem not_isKeyChar_of_mem_punctuation (hc : c ∈ '[' :: punctuation) : isKeyChar c = false := by
  have hall : ∀ c ∈ '[' :: punctuation, c.toNat < 128 ∧
      (isAsciiLetter c || ('0' ≤ c && c ≤ '9') || c == '_' || c == '$') = false := by
    simp [punctuation, isAsciiLetter]
  obtain ⟨hascii, hother⟩ := hall c hc
  rw [isKeyChar_of_isAscii hascii, hother]

theorem ne_of_isKeyChar {d : Char} (h : isKeyChar c = true) (hd : d ∈ '[' :: punctuation) :
    c ≠ d := by
  rintro rfl
  rw [not_isKeyChar_of_mem_punctuation hd] at h
  cases h

theorem any_eq_of_mem {α : Type} {as : List α} {p q : α → Bool} (h : ∀ a ∈ as, p a = q a) :
    as.any p = as.any q := by
  rw [Bool.eq_iff_iff, List.any_eq_true, List.any_eq_true]
  refine exists_congr fun a => and_congr_right fun ha => ?_
  rw [h a ha]

theorem telltaleMethods_eq : telltaleMethods =
    [['p', 'o', 'p'], ['p', 'u', 's', 'h'], ['s', 'h', 'i', 'f', 't'],
      ['s', 'p', 'l', 'i', 'c', 'e'], ['c', 'o', 'n', 'c', 'a', 't'],
      ['r', 'e', 'v', 'e', 'r', 's', 'e'], ['f', 'o', 'r', 'E', 'a', 'c', 'h'],
      ['i', 'n', 'd', 'e', 'x', 'O', 'f']] := rfl

theorem isKeyChar_of_mem_telltaleMethods (hword : word ∈ telltaleMethods) :
    word ≠ [] ∧ ∀ c ∈ word, isKeyChar c = true := by
  have hletters : ∀ word ∈ telltaleMethods, word ≠ [] ∧ word.all isAsciiLetter = true := by
    rw [telltaleMethods_eq]
    simp [isAsciiLetter]
  obtain ⟨hne, hall⟩ := hletters word hword
  refine ⟨hne, fun c hc => ?_⟩
  have hletter := List.all_eq_true.mp hall c hc
  have hchar : isIdentifierChar c = true := by simp [isIdentifierChar, isIdentifierStart, hletter]
  rw [isKeyChar_of_isAscii (isAscii_of_isIdentifierChar hchar), hletter]
  rfl

end Characters

section Places

theorem hasExpansionNoise_cons (c : Char) (cs : List Char) :
    hasExpansionNoise (c :: cs) =
      (startsWithSymbolKey (c :: cs) || startsWithMethodKey (c :: cs) || hasExpansionNoise cs) :=
  rfl

theorem startsWithMethodKey_eq (cs : List Char) : startsWithMethodKey cs =
    telltaleMethods.any fun word => ((after? word cs).map startsWithColon).getD false := by
  refine any_eq_of_mem fun word _ => ?_
  cases after? word cs <;> rfl

def endsWithSymbol (cs : List Char) : Bool :=
  telltaleSymbols.any fun name =>
    ((after? name (skipBlanks cs)).map fun rest => (skipBlanks rest).head? == some ']').getD false

theorem startsWithSymbolKey_bracket (cs : List Char) : startsWithSymbolKey ('[' :: cs) =
    ((after? "Symbol.".toList (skipBlanks cs)).map endsWithSymbol).getD false := by
  cases hname : after? "Symbol.".toList (skipBlanks cs) with
  | none =>
    simp only [startsWithSymbolKey, hname]
    rfl
  | some rest =>
    simp only [startsWithSymbolKey, hname, Option.map_some, Option.getD_some, endsWithSymbol]
    refine any_eq_of_mem fun name _ => ?_
    cases after? name (skipBlanks rest) <;> rfl

theorem not_startsWithSymbolKey (h : c ≠ '[') : startsWithSymbolKey (c :: cs) = false := by
  unfold startsWithSymbolKey
  split
  · rename_i heq
    exact absurd (List.cons.inj heq).1 h
  · rfl

theorem not_startsWithMethodKey (h : isKeyChar c = false) :
    startsWithMethodKey (c :: cs) = false := by
  rw [startsWithMethodKey_eq, List.any_eq_false]
  intro word hword
  obtain ⟨hne, hall⟩ := isKeyChar_of_mem_telltaleMethods hword
  cases word with
  | nil => exact absurd rfl hne
  | cons d word =>
    have hdiffer : d ≠ c := by
      rintro rfl
      rw [hall d List.mem_cons_self] at h
      cases h
    simp [after?, hdiffer]

theorem hasExpansionNoise_cons_of_mem (hc : c ∈ punctuation) :
    hasExpansionNoise (c :: cs) = hasExpansionNoise cs := by
  have hbracket : c ≠ '[' := by
    rintro rfl
    exact absurd hc (by decide)
  rw [hasExpansionNoise_cons, not_startsWithSymbolKey hbracket,
    not_startsWithMethodKey (not_isKeyChar_of_mem_punctuation (List.mem_cons_of_mem _ hc))]
  rfl

theorem hasExpansionNoise_append_of_punctuation (h : ∀ c ∈ cs, c ∈ punctuation) (r : List Char) :
    hasExpansionNoise (cs ++ r) = hasExpansionNoise r := by
  induction cs with
  | nil => rfl
  | cons c cs ih =>
    rw [List.cons_append, hasExpansionNoise_cons_of_mem (h c List.mem_cons_self),
      ih fun d hd => h d (List.mem_cons_of_mem c hd)]

theorem hasExpansionNoise_bracket_cons (h : after? "Symbol.".toList (skipBlanks cs) = none) :
    hasExpansionNoise ('[' :: cs) = hasExpansionNoise cs := by
  rw [hasExpansionNoise_cons, startsWithSymbolKey_bracket, h,
    not_startsWithMethodKey (not_isKeyChar_of_mem_punctuation List.mem_cons_self)]
  rfl

end Places

section Quotes

theorem isCut_quote : IsCut '"' := ⟨by decide, by rw [isWordChar_of_isAscii] <;> decide⟩

/-- What stands behind the blanks does not depend on what follows a quote. -/
theorem head?_skipBlanks_append_quote (hc : c ≠ '"') (a b : List Char) :
    ((skipBlanks (a ++ '"' :: b)).head? == some c) = ((skipBlanks a).head? == some c) := by
  rw [skipBlanks_append_cons isCut_quote.solid]
  cases skipBlanks a with
  | nil => simpa using hc.symm
  | cons d rest => rfl

theorem startsWithColon_append_quote (a b : List Char) :
    startsWithColon (a ++ '"' :: b) = startsWithColon a := by
  cases a with
  | nil => exact head?_skipBlanks_append_quote (by decide) [] b
  | cons d a =>
    by_cases hmark : d = '?'
    · rw [hmark]
      exact head?_skipBlanks_append_quote (by decide) a b
    · simp only [startsWithColon, List.cons_append, List.head?_cons, Option.some.injEq, hmark,
        if_false]
      exact head?_skipBlanks_append_quote (by decide) (d :: a) b

theorem endsWithSymbol_append_quote (a b : List Char) :
    endsWithSymbol (a ++ '"' :: b) = endsWithSymbol a := by
  have hquote : ∀ name ∈ telltaleSymbols, '"' ∉ name := by decide
  refine any_eq_of_mem fun name hname => ?_
  rw [skipBlanks_append_cons isCut_quote.solid, after?_append_cons (hquote name hname),
    Option.map_map]
  congr 2
  funext rest
  exact head?_skipBlanks_append_quote (by decide) rest b

theorem startsWithSymbolKey_append_quote (a b : List Char) :
    startsWithSymbolKey (a ++ '"' :: b) = startsWithSymbolKey a := by
  cases a with
  | nil => rfl
  | cons d a =>
    by_cases hbracket : d = '['
    · rw [hbracket, List.cons_append, startsWithSymbolKey_bracket, startsWithSymbolKey_bracket,
        skipBlanks_append_cons isCut_quote.solid, after?_append_cons (by decide)]
      cases after? "Symbol.".toList (skipBlanks a) with
      | none => rfl
      | some rest => exact endsWithSymbol_append_quote rest b
    · rw [List.cons_append, not_startsWithSymbolKey hbracket, not_startsWithSymbolKey hbracket]

theorem startsWithMethodKey_append_quote (a b : List Char) :
    startsWithMethodKey (a ++ '"' :: b) = startsWithMethodKey a := by
  have hquote : ∀ word ∈ telltaleMethods, '"' ∉ word := by decide
  rw [startsWithMethodKey_eq, startsWithMethodKey_eq]
  refine any_eq_of_mem fun word hword => ?_
  rw [after?_append_cons (hquote word hword), Option.map_map]
  congr 2
  funext rest
  exact startsWithColon_append_quote rest b

theorem hasExpansionNoise_append_quote (a b : List Char) :
    hasExpansionNoise (a ++ '"' :: b) = (hasExpansionNoise a || hasExpansionNoise b) := by
  induction a with
  | nil =>
    rw [List.nil_append, hasExpansionNoise_cons_of_mem (by decide)]
    rfl
  | cons d a ih =>
    rw [List.cons_append, hasExpansionNoise_cons, hasExpansionNoise_cons, ← List.cons_append,
      startsWithSymbolKey_append_quote, startsWithMethodKey_append_quote, ih, Bool.or_assoc,
      Bool.or_assoc, Bool.or_assoc]

end Quotes

section Breaks

/-- No name and no key goes on into the text. -/
def IsBreak (r : List Char) : Prop :=
  ∀ c ∈ (skipBlanks r).head?, isKeyChar c = false ∧ c ∉ ['?', ':', '.']

theorem isBreak_nil : IsBreak [] := fun _ hc => by cases hc

theorem isBreak_cons (hsolid : isBlank c = false) (hc : c ∈ '[' :: punctuation)
    (hother : c ∉ ['?', ':', '.']) (r : List Char) : IsBreak (c :: r) := by
  intro d hd
  rw [skipBlanks, List.dropWhile_cons_of_neg (by simp [hsolid])] at hd
  cases hd
  exact ⟨not_isKeyChar_of_mem_punctuation hc, hother⟩

theorem isBreak_blank_cons (h : IsBreak r) : IsBreak (' ' :: r) := by
  rwa [IsBreak, skipBlanks, List.dropWhile_cons_of_pos isBlank_blank]

theorem IsBreak.head (h : IsBreak r) : ∀ c ∈ r.head?, isKeyChar c = false ∧ c ∉ ['?', ':', '.'] := by
  intro c hc
  cases hblank : isBlank c with
  | true =>
    refine ⟨?_, ?_⟩
    · cases hkey : isKeyChar c with
      | false => rfl
      | true =>
        rw [not_isBlank_of_isKeyChar hkey] at hblank
        cases hblank
    · intro hmem
      simp only [List.mem_cons, List.not_mem_nil, or_false] at hmem
      rcases hmem with rfl | rfl | rfl <;> exact absurd hblank (by decide)
  | false =>
    cases r with
    | nil => cases hc
    | cons d r =>
      cases hc
      exact h c (by rw [skipBlanks, List.dropWhile_cons_of_neg (by simp [hblank])]; rfl)

theorem IsBreak.not_startsWithColon (h : IsBreak r) : startsWithColon r = false := by
  have hmark : ¬ r.head? = some '?' := fun heq => (h.head '?' heq).2 (by decide)
  rw [startsWithColon, if_neg hmark, beq_eq_false_iff_ne]
  exact fun heq => (h ':' heq).2 (by decide)

/-- A word is read past a break only if it is read before. -/
theorem after?_append_of_head (hr : ∀ c ∈ r.head?, c ∉ word) (a : List Char) :
    after? word (a ++ r) = (after? word a).map (· ++ r) := by
  cases r with
  | nil => cases h : after? word a <;> simp [h]
  | cons c r => exact after?_append_cons (hr c rfl) a r

end Breaks

section Keys

theorem not_startsWithColon_key (h : isKeyChar c = true) (cs : List Char) :
    startsWithColon (c :: cs) = false := by
  have hmark : c ≠ '?' := ne_of_isKeyChar h (by decide)
  have hcolon : c ≠ ':' := ne_of_isKeyChar h (by decide)
  simp [startsWithColon, skipBlanks, hmark, hcolon, not_isBlank_of_isKeyChar h]

theorem startsWithMethodKey_append (hkey : ∀ c ∈ key, isKeyChar c = true)
    (hr : ∀ c ∈ r.head?, isKeyChar c = false) : startsWithMethodKey (key ++ r) =
      (telltaleMethods.any (key == ·) && startsWithColon r) := by
  have hword : ∀ word ∈ telltaleMethods,
      ((after? word (key ++ r)).map startsWithColon).getD false =
        ((key == word) && startsWithColon r) := by
    intro word hword
    have hinside := (isKeyChar_of_mem_telltaleMethods hword).2
    have hhead : ∀ c ∈ r.head?, c ∉ word := by
      intro c hc hmem
      exact Bool.false_ne_true ((hr c hc).symm.trans (hinside c hmem))
    rw [after?_append_of_head hhead]
    cases hrest : after? word key with
    | none =>
      have hne : key ≠ word := by
        rintro rfl
        have hself := after?_append key []
        rw [List.append_nil, hrest] at hself
        cases hself
      simp [hne]
    | some rest =>
      rw [after?_eq_some_iff] at hrest
      cases rest with
      | nil => simp [hrest]
      | cons c rest =>
        have hc := hkey c (by simp [hrest])
        have hne : key ≠ word := by simp [hrest]
        simp [hne, not_startsWithColon_key hc]
  rw [startsWithMethodKey_eq, any_eq_of_mem hword]
  cases startsWithColon r <;> simp

/-- A key shows a sign exactly if it ends in a method and a colon follows. -/
theorem hasExpansionNoise_key_append (hkey : ∀ c ∈ key, isKeyChar c = true)
    (hr : ∀ c ∈ r.head?, isKeyChar c = false) : hasExpansionNoise (key ++ r) =
      ((telltaleMethods.any (·.isSuffixOf key) && startsWithColon r) || hasExpansionNoise r) := by
  induction key with
  | nil =>
    have hnone : telltaleMethods.any (·.isSuffixOf []) = false := by decide
    rw [hnone]
    rfl
  | cons c key ih =>
    have hbracket : c ≠ '[' := ne_of_isKeyChar (hkey c List.mem_cons_self) (by decide)
    have hsuffix : telltaleMethods.any (·.isSuffixOf (c :: key)) =
        (telltaleMethods.any (c :: key == ·) || telltaleMethods.any (·.isSuffixOf key)) := by
      rw [Bool.eq_iff_iff, Bool.or_eq_true]
      simp only [List.any_eq_true, List.isSuffixOf_iff_suffix, List.suffix_cons_iff, beq_iff_eq]
      grind
    rw [List.cons_append, hasExpansionNoise_cons, not_startsWithSymbolKey hbracket,
      ← List.cons_append, startsWithMethodKey_append hkey hr,
      ih fun d hd => hkey d (List.mem_cons_of_mem c hd), hsuffix, Bool.false_or, ← Bool.or_assoc,
      Bool.and_or_distrib_right]

end Keys

section Parts

/-- The signs of the text and of what stands behind it are apart. -/
def IsApart (t : List Char) : Prop :=
  ∀ r, IsBreak r → hasExpansionNoise (t ++ r) = (hasExpansionNoise t || hasExpansionNoise r)

/-- The signs of the text are its own wherever it stands, also behind an opening bracket. -/
structure StandsAlone (t : List Char) : Prop where
  apart : IsApart t
  opening : ∀ r, IsBreak r → after? "Symbol.".toList (skipBlanks (t ++ r)) = none

/-- A text that ends what stands before it and shows no sign. -/
structure IsJoint (t : List Char) : Prop where
  breaks : ∀ r, IsBreak (t ++ r)
  silent : ∀ r, hasExpansionNoise (t ++ r) = hasExpansionNoise r

theorem hasExpansionNoise_nil : hasExpansionNoise [] = false := by decide

theorem isApart_of_append {b : Bool}
    (h : ∀ r, IsBreak r → hasExpansionNoise (t ++ r) = (b || hasExpansionNoise r)) :
    IsApart t ∧ hasExpansionNoise t = b := by
  have hself : hasExpansionNoise t = b := by
    have hnil := h [] isBreak_nil
    rwa [List.append_nil, hasExpansionNoise_nil, Bool.or_false] at hnil
  exact ⟨fun r hr => hself ▸ h r hr, hself⟩

theorem opening_of_head (hsolid : isBlank c = false) (hne : c ≠ 'S') (cs : List Char) :
    after? "Symbol.".toList (skipBlanks (c :: cs)) = none := by
  rw [skipBlanks, List.dropWhile_cons_of_neg (by simp [hsolid])]
  simp [after?, hne.symm]

theorem not_mem_symbol (h : isKeyChar c = false ∧ c ∉ ['?', ':', '.']) : c ∉ "Symbol.".toList := by
  intro hmem
  have hall : ∀ c ∈ "Symbol.".toList, c = '.' ∨ c.toNat < 128 ∧ isAsciiLetter c = true := by
    simp [isAsciiLetter]
  rcases hall c hmem with rfl | ⟨hascii, hletter⟩
  · exact h.2 (by decide)
  · rw [isKeyChar_of_isAscii hascii, hletter] at h
    exact absurd h.1 (by simp)

theorem IsBreak.opening (h : IsBreak r) : after? "Symbol.".toList (skipBlanks r) = none := by
  cases hskip : skipBlanks r with
  | nil => rfl
  | cons c cs =>
    have hc : 'S' ≠ c := by
      rintro rfl
      exact not_mem_symbol (h 'S' (by simp [hskip])) (by decide)
    simp [after?, hc]

theorem IsApart.append_joint {w : List Char} (ht : IsApart t) (hw : IsJoint w) :
    IsApart (t ++ w) ∧ hasExpansionNoise (t ++ w) = hasExpansionNoise t := by
  refine isApart_of_append fun r _ => ?_
  rw [List.append_assoc, ht _ (hw.breaks r), hw.silent]

theorem StandsAlone.append_joint {w : List Char} (ht : StandsAlone t) (hw : IsJoint w) :
    StandsAlone (t ++ w) ∧ hasExpansionNoise (t ++ w) = hasExpansionNoise t := by
  obtain ⟨hapart, hnoise⟩ := ht.apart.append_joint hw
  refine ⟨⟨hapart, fun r _ => ?_⟩, hnoise⟩
  rw [List.append_assoc]
  exact ht.opening _ (hw.breaks r)

/-- A text behind punctuation that begins with anything but a blank. -/
theorem IsApart.prepend (ht : IsApart t) (c : Char) (cs : List Char)
    (hcs : ∀ d ∈ c :: cs, d ∈ punctuation)
    (hsolid : isBlank c = false) :
    StandsAlone (c :: cs ++ t) ∧ hasExpansionNoise (c :: cs ++ t) = hasExpansionNoise t := by
  obtain ⟨hapart, hnoise⟩ := isApart_of_append (t := c :: cs ++ t) (b := hasExpansionNoise t)
    fun r hr => by rw [List.append_assoc, hasExpansionNoise_append_of_punctuation hcs, ht r hr]
  refine ⟨⟨hapart, fun r _ => opening_of_head hsolid ?_ _⟩, hnoise⟩
  rintro rfl
  exact absurd (hcs 'S' List.mem_cons_self) (by decide)

theorem StandsAlone.prepend_bracket (ht : StandsAlone t) :
    StandsAlone ('[' :: t) ∧ hasExpansionNoise ('[' :: t) = hasExpansionNoise t := by
  obtain ⟨hapart, hnoise⟩ := isApart_of_append (t := '[' :: t) (b := hasExpansionNoise t)
    fun r hr => by
      rw [List.cons_append, hasExpansionNoise_bracket_cons (ht.opening r hr), ht.apart r hr]
  exact ⟨⟨hapart, fun r _ => opening_of_head (by decide) (by decide) _⟩, hnoise⟩

theorem isApart_intercalate {separator : List Char} (hseparator : IsJoint separator)
    (h : ∀ t ∈ ts, IsApart t) : IsApart (separator.intercalate ts) ∧
      hasExpansionNoise (separator.intercalate ts) = ts.any hasExpansionNoise := by
  refine isApart_of_append fun r hr => ?_
  induction ts with
  | nil => rfl
  | cons t ts ih =>
    have hfirst := h t List.mem_cons_self
    have hrest := ih fun u hu => h u (List.mem_cons_of_mem t hu)
    cases ts with
    | nil => simpa using hfirst r hr
    | cons u us =>
      rw [List.intercalate_cons_of_ne_nil (List.cons_ne_nil u us), List.append_assoc,
        List.append_assoc, hfirst _ (hseparator.breaks _), hseparator.silent, hrest, ← Bool.or_assoc]
      rfl

theorem standsAlone_intercalate {separator : List Char} (hseparator : IsJoint separator)
    (h : ∀ t ∈ ts, StandsAlone t) : StandsAlone (separator.intercalate ts) ∧
      hasExpansionNoise (separator.intercalate ts) = ts.any hasExpansionNoise := by
  obtain ⟨hapart, hnoise⟩ := isApart_intercalate hseparator fun t ht => (h t ht).apart
  refine ⟨⟨hapart, fun r hr => ?_⟩, hnoise⟩
  match ts with
  | [] => exact hr.opening
  | [t] =>
    rw [List.intercalate_singleton]
    exact (h t List.mem_cons_self).opening r hr
  | t :: u :: us =>
    rw [List.intercalate_cons_of_ne_nil (List.cons_ne_nil u us), List.append_assoc,
      List.append_assoc]
    exact (h t List.mem_cons_self).opening _ (hseparator.breaks _)

theorem standsAlone_of_isRawKey (h : isRawKey key = true) :
    StandsAlone key ∧ hasExpansionNoise key = false := by
  obtain ⟨hne, hkey⟩ := isKeyChar_of_isRawKey h
  obtain ⟨hapart, hnoise⟩ := isApart_of_append (t := key) (b := false) fun r hr => by
    rw [hasExpansionNoise_key_append hkey fun c hc => (hr.head c hc).1, hr.not_startsWithColon,
      Bool.and_false]
  refine ⟨⟨hapart, fun r hr => ?_⟩, hnoise⟩
  have hstart : skipBlanks (key ++ r) = key ++ r := by
    cases key with
    | nil => exact absurd rfl hne
    | cons c key =>
      have hsolid := not_isBlank_of_isKeyChar (hkey c List.mem_cons_self)
      rw [skipBlanks, List.cons_append, List.dropWhile_cons_of_neg (by simp [hsolid])]
  have hhead : ∀ c ∈ r.head?, c ∉ "Symbol.".toList := fun c hc => not_mem_symbol (hr.head c hc)
  rw [hstart, after?_append_of_head hhead, Option.map_eq_none_iff]
  cases hrest : after? "Symbol.".toList key with
  | none => rfl
  | some rest =>
    rw [after?_eq_some_iff] at hrest
    exact absurd rfl (ne_of_isKeyChar (d := '.') (hkey '.' (by simp [hrest])) (by decide))

end Parts

section Joints

theorem isJoint_of_punctuation (c : Char) (w : List Char) (h : ∀ d ∈ c :: w, d ∈ punctuation)
    (hsolid : isBlank c = false) (hother : c ∉ ['?', ':', '.']) : IsJoint (c :: w) where
  breaks _ := isBreak_cons hsolid (List.mem_cons_of_mem _ (h c List.mem_cons_self)) hother _
  silent := hasExpansionNoise_append_of_punctuation h

theorem IsJoint.blank_cons (h : IsJoint t) : IsJoint (' ' :: t) where
  breaks r := isBreak_blank_cons (h.breaks r)
  silent r := (hasExpansionNoise_cons_of_mem (by decide)).trans (h.silent r)

theorem isJoint_brackets : IsJoint ['[', ']'] where
  breaks _ := isBreak_cons (by decide) (by decide) (by decide) _
  silent r := (hasExpansionNoise_bracket_cons
    (opening_of_head (by decide) (by decide) r)).trans (hasExpansionNoise_cons_of_mem (by decide))

theorem IsJoint.append {w : List Char} (ht : IsJoint t) (hw : IsJoint w) : IsJoint (t ++ w) where
  breaks r := by
    rw [List.append_assoc]
    exact ht.breaks (w ++ r)
  silent r := by rw [List.append_assoc, ht.silent, hw.silent]

theorem isJoint_of_mem (ht : t ∈ [[' ', '|', ' '], [' ', '&', ' '], [',', ' '], [';', ' '],
    [' ', '\x7d'], [']'], ['>'], ['[', ']'], [')', '[', ']']]) : IsJoint t := by
  simp only [List.mem_cons, List.not_mem_nil, or_false] at ht
  rcases ht with rfl | rfl | rfl | rfl | rfl | rfl | rfl | rfl | rfl
  · exact (isJoint_of_punctuation '|' [' '] (by simp [punctuation]) (by decide) (by decide)).blank_cons
  · exact (isJoint_of_punctuation '&' [' '] (by simp [punctuation]) (by decide) (by decide)).blank_cons
  · exact isJoint_of_punctuation ',' [' '] (by simp [punctuation]) (by decide) (by decide)
  · exact isJoint_of_punctuation ';' [' '] (by simp [punctuation]) (by decide) (by decide)
  · exact (isJoint_of_punctuation '\x7d' [] (by simp [punctuation]) (by decide) (by decide)).blank_cons
  · exact isJoint_of_punctuation ']' [] (by simp [punctuation]) (by decide) (by decide)
  · exact isJoint_of_punctuation '>' [] (by simp [punctuation]) (by decide) (by decide)
  · exact isJoint_brackets
  · exact (isJoint_of_punctuation ')' [] (by simp [punctuation]) (by decide) (by decide)).append isJoint_brackets

theorem StandsAlone.append_arguments (hkey : StandsAlone key) (hsilent : hasExpansionNoise key = false)
    (ht : IsApart t) : StandsAlone (key ++ '<' :: (t ++ ['>'])) ∧
      hasExpansionNoise (key ++ '<' :: (t ++ ['>'])) = hasExpansionNoise t := by
  obtain ⟨happlied, hnoise⟩ := ht.append_joint (isJoint_of_mem (t := ['>']) (by simp))
  have hbreak (r : List Char) : IsBreak ('<' :: r) :=
    isBreak_cons (by decide) (by decide) (by decide) r
  obtain ⟨hapart, hwhole⟩ := isApart_of_append (t := key ++ '<' :: (t ++ ['>']))
    (b := hasExpansionNoise t) fun r hr => by
      rw [List.append_assoc, List.cons_append, hkey.apart _ (hbreak _), hsilent, Bool.false_or,
        hasExpansionNoise_cons_of_mem (by decide), happlied r hr, hnoise]
  refine ⟨⟨hapart, fun r _ => ?_⟩, hwhole⟩
  rw [List.append_assoc]
  exact hkey.opening _ (hbreak _)

end Joints

section Entries

/-- Whether the key of a property is taken for a member of an expanded array: it ends in a telltale
method, or it is quoted and shows a sign between its quotes. -/
def isTelltale (name : String) : Bool :=
  if isRawKey name.toList then telltaleMethods.any (·.isSuffixOf name.toList)
  else hasExpansionNoise (quoted name).toList

theorem hasExpansionNoise_quoted_append (name : String) (r : List Char) :
    hasExpansionNoise ((quoted name).toList ++ r) =
      (hasExpansionNoise (quoted name).toList || hasExpansionNoise r) := by
  have hclosing (r : List Char) : Quoted.encode name.toList ++ r =
      ('"' :: name.toList.flatMap Quoted.escapeChar) ++ '"' :: r := by
    simp [Quoted.encode]
  rw [toList_quoted, hclosing, ← List.append_nil (Quoted.encode name.toList), hclosing,
    hasExpansionNoise_append_quote, hasExpansionNoise_append_quote, hasExpansionNoise_nil,
    Bool.or_false]

theorem hasExpansionNoise_rawKey_append (name : String)
    (hr : ∀ c ∈ r.head?, isKeyChar c = false) (hcolon : startsWithColon r = true) :
    hasExpansionNoise ((rawKey name).toList ++ r) = (isTelltale name || hasExpansionNoise r) := by
  unfold isTelltale
  cases hkey : isRawKey name.toList with
  | true =>
    rw [rawKey_of_isRawKey hkey,
      hasExpansionNoise_key_append (isKeyChar_of_isRawKey hkey).2 hr, hcolon, Bool.and_true]
    rfl
  | false =>
    rw [rawKey_of_not_isRawKey hkey, hasExpansionNoise_quoted_append]
    rfl

theorem isApart_entry (name : String) (optional : Bool) (ht : IsApart t) :
    IsApart ((rawKey name).toList ++ ((if optional then ['?'] else []) ++ ':' :: ' ' :: t)) ∧
      hasExpansionNoise ((rawKey name).toList ++
        ((if optional then ['?'] else []) ++ ':' :: ' ' :: t)) =
          (isTelltale name || hasExpansionNoise t) := by
  have hmark : ∀ c ∈ (if optional then ['?'] else []) ++ [':', ' '], c ∈ punctuation := by
    cases optional <;> simp [punctuation]
  refine isApart_of_append fun r hr => ?_
  have hsplit : (rawKey name).toList ++ ((if optional then ['?'] else []) ++ ':' :: ' ' :: t) ++ r =
      (rawKey name).toList ++ (((if optional then ['?'] else []) ++ [':', ' ']) ++ (t ++ r)) := by
    simp
  rw [hsplit, hasExpansionNoise_rawKey_append, hasExpansionNoise_append_of_punctuation hmark,
    ht r hr, Bool.or_assoc]
  · intro c hc
    refine not_isKeyChar_of_mem_punctuation (List.mem_cons_of_mem _ (hmark c ?_))
    cases optional <;> exact List.mem_of_mem_head? hc
  · cases optional <;> rfl

end Entries

section Fixed

theorem isApart_nil : IsApart [] := fun _ _ => rfl

theorem standsAlone_of_isIdentifier (key : List Char) (h : isIdentifier key = true) :
    StandsAlone key ∧ hasExpansionNoise key = false :=
  standsAlone_of_isRawKey (isIdentifier_iff.mp h).1

theorem standsAlone_emptyObject :
    StandsAlone emptyObject.toList ∧ hasExpansionNoise emptyObject.toList = false :=
  isApart_nil.prepend '\x7b' ['\x7d'] (by simp [punctuation]) (by decide)

theorem standsAlone_unknownList : StandsAlone "unknown[]".toList ∧
    hasExpansionNoise "unknown[]".toList = false := by
  obtain ⟨hword, hsilent⟩ := standsAlone_of_isIdentifier "unknown".toList (by decide)
  have hlist := hword.append_joint isJoint_brackets
  rw [hsilent] at hlist
  simpa using hlist

theorem standsAlone_signature : StandsAlone "(...args: any[]) => any".toList ∧
    hasExpansionNoise "(...args: any[]) => any".toList = false := by
  obtain ⟨hany, hsilent⟩ := standsAlone_of_isIdentifier ['a', 'n', 'y'] (by decide)
  have hargs := isIdentifier_iff.mp (show isIdentifier ['a', 'r', 'g', 's'] = true by decide)
  have hmethod : telltaleMethods.any (·.isSuffixOf ['a', 'r', 'g', 's']) = false := by decide
  obtain ⟨hapart, hnoise⟩ := isApart_of_append (t := "args: any[]) => any".toList) (b := false)
    fun r hr => by
      have hsplit : "args: any[]) => any".toList ++ r = ['a', 'r', 'g', 's'] ++ ([':', ' '] ++
          (['a', 'n', 'y'] ++ ('[' :: ([']', ')', ' ', '=', '>', ' '] ++
            (['a', 'n', 'y'] ++ r))))) := by simp
      have hbreak : IsBreak ('[' :: ([']', ')', ' ', '=', '>', ' '] ++ (['a', 'n', 'y'] ++ r))) :=
        isBreak_cons (by decide) List.mem_cons_self (by decide) _
      have hopening : after? "Symbol.".toList
          (skipBlanks ([']', ')', ' ', '=', '>', ' '] ++ (['a', 'n', 'y'] ++ r))) = none :=
        opening_of_head (by decide) (by decide) _
      rw [hsplit, hasExpansionNoise_key_append (isKeyChar_of_isRawKey hargs.1).2, hmethod,
        hasExpansionNoise_append_of_punctuation (by simp [punctuation]), hany.apart _ hbreak,
        hasExpansionNoise_bracket_cons hopening,
        hasExpansionNoise_append_of_punctuation (by simp [punctuation]), hany.apart r hr, hsilent]
      · rfl
      · intro c hc
        cases hc
        exact not_isKeyChar_of_mem_punctuation (by decide)
  have hopened := hapart.prepend '(' ['.', '.', '.'] (by simp [punctuation])
    (by decide)
  rw [hnoise] at hopened
  simpa using hopened

end Fixed

end RouteCatalog.TypeExpr
