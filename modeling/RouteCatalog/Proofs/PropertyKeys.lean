import RouteCatalog.Proofs.Expression
import RouteCatalog.Proofs.LayoutLaw
import RouteCatalog.Proofs.QuotedText

/-! Keys of properties. A key is an identifier or a quoted text that reads back as the name, so that
no two names have one key; and a quoted key is one literal to the scan of the top level and to the
layout, whatever brackets and quotes the name holds. The raw rendering writes the same key unless the
name is made of letters and digits some of which are not ASCII. -/

namespace RouteCatalog.TypeExpr

open Text

variable {c : Char} {cs rest : List Char} {name : String}

section Literals

/-- Both readers of type expressions take a text for one literal, wherever it stands outside other
literals: the scan sees nothing of it and is outside again behind it, and the layout copies it. -/
structure IsOpaque (cs : List Char) : Prop where
  scanned : ∀ (s : ScanState) (position : Nat), s.quoting = .outside →
    topLevelFrom s position cs = [] ∧ (scanFrom s cs).quoting = .outside ∧
      (scanFrom s cs).level = s.level
  copied : ∀ s : Layout, s.quoting = .outside →
    cs.foldl Layout.step s = ⟨(cs.map .glyph).reverse ++ s.pieces, s.level, .outside⟩
  alone : layOut cs = cs

/-- Inside a literal nothing stands at the top level, up to the end of the literal. -/
theorem topLevelFrom_of_closesAtEnd {s : ScanState} (hs : s.quoting ≠ .outside)
    (hcs : closesAtEnd s.quoting cs = true) (position : Nat) :
    topLevelFrom s position cs = [] ∧ (scanFrom s cs).quoting = .outside ∧
      (scanFrom s cs).level = s.level := by
  induction cs generalizing s position with
  | nil => cases hcs
  | cons c cs ih =>
    have htop : s.isTop c = false := by simp [ScanState.isTop, hs]
    have hlevel : (s.step c).level = s.level := by simp [ScanState.step, hs]
    have hnext : (s.step c).quoting = s.quoting.next c := rfl
    have hscan : scanFrom s (c :: cs) = scanFrom (s.step c) cs := rfl
    simp only [topLevelFrom, htop, hscan, Bool.false_eq_true, if_false]
    rw [closesAtEnd] at hcs
    split at hcs
    · rename_i hlast
      rw [List.isEmpty_iff.mp hcs]
      exact ⟨rfl, hnext.trans hlast, hlevel⟩
    · rename_i hinside
      rw [← hlevel]
      exact ih (hnext ▸ hinside) (hnext ▸ hcs) (position + 1)

theorem Token.IsProper.isOpaque (h : (Token.literal cs).IsProper) : IsOpaque cs := by
  have halone : layOut cs = cs := by
    have hspacing : Spacing.IsProper ⟨[⟨[], .literal cs⟩], []⟩ :=
      ⟨.cons (by simp) h (by simp [Token.isWord]) .nil, by simp⟩
    have hlaidOut := layOut_text hspacing
    simpa [Spacing.text, Spacing.laidOut, arrange, Spaced.chars, Token.chars] using hlaidOut
  cases h with
  | @literal quote body hquote hbody =>
    refine ⟨?_, ?_, halone⟩
    · intro s position hs
      have hnext : (s.step quote).quoting = .inside quote false := by
        simp [ScanState.step, hs, Quoting.next, hquote]
      have hlevel : (s.step quote).level = s.level := by simp [ScanState.step, hquote]
      have htop : s.isTop quote = false := by simp [ScanState.isTop, hquote]
      have hscan : scanFrom s (quote :: body) = scanFrom (s.step quote) body := rfl
      rw [← hnext] at hbody
      simp only [topLevelFrom, htop, hscan, Bool.false_eq_true, if_false]
      rw [← hlevel]
      exact topLevelFrom_of_closesAtEnd (by simp [hnext]) hbody (position + 1)
    · intro s hs
      have hstep : s.step quote = ⟨.glyph quote :: s.pieces, s.level, .inside quote false⟩ := by
        simp [Layout.step, hs, Quoting.next, hquote]
      rw [List.foldl_cons, Layout.foldl_literal (by simp [hstep]) (by rwa [hstep]), hstep]
      simp

end Literals

section Quoted

theorem closesAtEnd_escaped (cs rest : List Char) :
    closesAtEnd (.inside '"' false) (cs.flatMap Quoted.escapeChar ++ rest) =
      closesAtEnd (.inside '"' false) rest := by
  apply Quoted.escaped_induction (P := fun body => ∀ rest,
    closesAtEnd (.inside '"' false) (body ++ rest) = closesAtEnd (.inside '"' false) rest)
  · intro rest
    rfl
  · intro a b ha hb rest
    rw [List.append_assoc, ha, hb]
  · intro c hquote hbackslash rest
    simp [closesAtEnd, Quoting.next, hquote, hbackslash]
  · intro c rest
    rfl

theorem isProper_quoted (name : String) : (Token.literal (quoted name).toList).IsProper := by
  rw [toList_quoted]
  exact .literal rfl (closesAtEnd_escaped name.toList ['"'])

end Quoted

section Keys

theorem formatKey_of_isIdentifier (h : isIdentifier name.toList = true) : formatKey name = name :=
  if_pos h

theorem formatKey_of_not_isIdentifier (h : isIdentifier name.toList = false) :
    formatKey name = quoted name :=
  if_neg (Bool.eq_false_iff.mp h)

theorem not_isRawKey_quoted (name : String) : isRawKey (quoted name).toList = false := by
  rw [toList_quoted]
  have hquote : isLetter '"' = false := by decide +kernel
  simp [Quoted.encode, isRawKey, hquote]

theorem isAscii_of_isIdentifierChar (h : isIdentifierChar c = true) : c.toNat < 128 := by
  have hle {a b : Char} (hab : a ≤ b) : a.toNat ≤ b.toNat := hab
  simp only [isIdentifierChar, isIdentifierStart, isAsciiLetter, Bool.or_eq_true, Bool.and_eq_true,
    decide_eq_true_eq, beq_iff_eq] at h
  rcases h with (((⟨-, h⟩ | ⟨-, h⟩) | rfl) | rfl) | ⟨-, h⟩
  · exact Nat.lt_of_le_of_lt (hle h) (by decide)
  · exact Nat.lt_of_le_of_lt (hle h) (by decide)
  · decide
  · decide
  · exact Nat.lt_of_le_of_lt (hle h) (by decide)

/-- On ASCII characters the letters and digits of every script are those of identifiers. -/
theorem isLetter_of_isAscii (h : c.toNat < 128) : isLetter c = isAsciiLetter c ∧
    isAlphanumeric c = (isAsciiLetter c || ('0' ≤ c && c ≤ '9')) := by
  have hall : ∀ n < 128, isLetter (Char.ofNat n) = isAsciiLetter (Char.ofNat n) ∧
      isAlphanumeric (Char.ofNat n) = (isAsciiLetter (Char.ofNat n) ||
        ('0' ≤ Char.ofNat n && Char.ofNat n ≤ '9')) := by decide +kernel
  have hc := hall c.toNat h
  rwa [Char.ofNat_toNat] at hc

theorem isIdentifier_iff :
    isIdentifier cs = true ↔ isRawKey cs = true ∧ ∀ c ∈ cs, c.toNat < 128 := by
  cases cs with
  | nil => simp [isIdentifier, isRawKey]
  | cons c cs =>
    have hchar {d : Char} (hd : d.toNat < 128) :
        (isAlphanumeric d || d == '_' || d == '$') = isIdentifierChar d := by
      rw [(isLetter_of_isAscii hd).2, isIdentifierChar, isIdentifierStart]
      cases isAsciiLetter d <;> cases d == '_' <;> cases d == '$' <;> simp
    have hstart (hc : c.toNat < 128) : (isLetter c || c == '_' || c == '$') = isIdentifierStart c := by
      rw [(isLetter_of_isAscii hc).1, isIdentifierStart]
    constructor
    · intro h
      rw [isIdentifier, Bool.and_eq_true, List.all_eq_true] at h
      have hchars : ∀ d ∈ c :: cs, isIdentifierChar d = true := by
        intro d hd
        rcases List.mem_cons.mp hd with rfl | hd
        · simp [isIdentifierChar, h.1]
        · exact h.2 d hd
      have hascii : ∀ d ∈ c :: cs, d.toNat < 128 := fun d hd =>
        isAscii_of_isIdentifierChar (hchars d hd)
      refine ⟨?_, hascii⟩
      rw [isRawKey, hstart (hascii c List.mem_cons_self), h.1, Bool.true_and, List.all_eq_true]
      intro d hd
      rw [hchar (hascii d hd)]
      exact hchars d hd
    · rintro ⟨h, hascii⟩
      rw [isRawKey, hstart (hascii c List.mem_cons_self), Bool.and_eq_true, List.all_eq_true] at h
      rw [isIdentifier, h.1, Bool.true_and, List.all_eq_true]
      intro d hd
      have hd' := List.mem_cons_of_mem c hd
      rw [← hchar (hascii d hd')]
      exact h.2 d hd'

theorem not_isIdentifier_quoted (name : String) : isIdentifier (quoted name).toList = false := by
  cases h : isIdentifier (quoted name).toList with
  | false => rfl
  | true =>
    have hraw := (isIdentifier_iff.mp h).1
    rw [not_isRawKey_quoted] at hraw
    cases hraw

/-- A key is the name, which is an identifier then, or a literal that is read as the name and is
opaque to the scan and the layout; and it is the key of no other name. -/
theorem key_survives_printing (name : String) :
    ((formatKey name = name ∧ isIdentifier name.toList = true) ∨
      (formatKey name = quoted name ∧ isIdentifier name.toList = false ∧
        Quoted.decode (formatKey name).toList = some name.toList ∧
        (∀ doc, Json.read doc (formatKey name) = .ok (.text name, doc)) ∧
        IsOpaque (formatKey name).toList)) ∧
      ∀ other, formatKey other = formatKey name → other = name := by
  constructor
  · cases hname : isIdentifier name.toList with
    | true => exact .inl ⟨formatKey_of_isIdentifier hname, rfl⟩
    | false =>
      have hkey := formatKey_of_not_isIdentifier hname
      refine .inr ⟨hkey, rfl, ?_, ?_, ?_⟩
      · rw [hkey, toList_quoted, Quoted.decode_encode]
      · intro doc
        rw [hkey, Json.read_quoted]
      · rw [hkey]
        exact (isProper_quoted name).isOpaque
  · intro other h
    cases hname : isIdentifier name.toList <;> cases hother : isIdentifier other.toList
    · rw [formatKey_of_not_isIdentifier hname, formatKey_of_not_isIdentifier hother] at h
      exact quoted_injective h
    · rw [formatKey_of_not_isIdentifier hname, formatKey_of_isIdentifier hother] at h
      rw [h, not_isIdentifier_quoted] at hother
      cases hother
    · rw [formatKey_of_isIdentifier hname, formatKey_of_not_isIdentifier hother] at h
      rw [← h, not_isIdentifier_quoted] at hname
      cases hname
    · rwa [formatKey_of_isIdentifier hname, formatKey_of_isIdentifier hother] at h

theorem rawKey_of_isRawKey (h : isRawKey name.toList = true) : rawKey name = name := if_pos h

theorem rawKey_of_not_isRawKey (h : isRawKey name.toList = false) : rawKey name = quoted name :=
  if_neg (Bool.eq_false_iff.mp h)

/-- Both renderings write one key exactly if the name is no raw key or has ASCII characters only.
Else the raw rendering writes the name itself, and the canonical expression a literal. -/
theorem raw_key_is_canonical_iff (name : String) :
    (rawKey name = formatKey name ↔
      (isRawKey name.toList = true → ∀ c ∈ name.toList, c.toNat < 128)) ∧
    (rawKey name ≠ formatKey name → rawKey name = name ∧ formatKey name = quoted name) := by
  cases hraw : isRawKey name.toList with
  | false =>
    have hname : isIdentifier name.toList = false := by
      rw [← Bool.not_eq_true, isIdentifier_iff, hraw]
      simp
    have heq : rawKey name = formatKey name := by
      rw [rawKey_of_not_isRawKey hraw, formatKey_of_not_isIdentifier hname]
    exact ⟨⟨fun _ h => (Bool.false_ne_true h).elim, fun _ => heq⟩, fun hne => (hne heq).elim⟩
  | true =>
    cases hname : isIdentifier name.toList with
    | true =>
      have heq : rawKey name = formatKey name := by
        rw [rawKey_of_isRawKey hraw, formatKey_of_isIdentifier hname]
      have hascii := (isIdentifier_iff.mp hname).2
      exact ⟨⟨fun _ _ => hascii, fun _ => heq⟩, fun hne => (hne heq).elim⟩
    | false =>
      have hkeys : rawKey name = name ∧ formatKey name = quoted name :=
        ⟨rawKey_of_isRawKey hraw, formatKey_of_not_isIdentifier hname⟩
      refine ⟨⟨?_, ?_⟩, fun _ => hkeys⟩
      · intro heq
        rw [hkeys.1, hkeys.2] at heq
        rw [heq, not_isRawKey_quoted] at hraw
        cases hraw
      · intro hascii
        have hidentifier := isIdentifier_iff.mpr ⟨hraw, hascii rfl⟩
        rw [hname] at hidentifier
        cases hidentifier

end Keys

end RouteCatalog.TypeExpr

namespace RouteCatalog.Graph

open TypeExpr

/-- An object under the key `é` of another one whose rendering shows that its host expanded it. -/
def accented : Graph where
  doc := ⟨#[
    .mapping [(.text "kind", .text "object"), (.text "text", .text "\x7b [Symbol.iterator]: any \x7d"),
      (.text "properties", .node 1)],
    .mapping [(.text "é", .node 2)],
    .mapping [(.text "kind", .text "object"), (.text "properties", .node 3)],
    .mapping [(.text "é", .text "string")]]⟩
  source := "<memory>"
  files := []
  declarations := []

set_option maxRecDepth 100000 in
theorem accent_is_spelled_in_two_ways :
    Normalizer.normalize {} accented (.anonymous 0) 0 =
        .ok (.text "\x7b \"\\u00e9\": \x7b é: string \x7d \x7d") ∧
      rawKey "é" = "é" ∧ formatKey "é" = "\"\\u00e9\"" := by
  have hdiffer : rawKey "é" ≠ formatKey "é" := by
    rw [Ne, (raw_key_is_canonical_iff "é").1]
    intro hascii
    exact absurd (hascii (by decide +kernel) 'é' (by decide)) (by decide)
  obtain ⟨hraw, hquoted⟩ := (raw_key_is_canonical_iff "é").2 hdiffer
  have hkey : formatKey "é" = "\"\\u00e9\"" := by
    rw [hquoted]
    decide +kernel
  have hinner : Normalizer.normalize {} accented (.anonymous 2) 1 =
      .ok (.text "\x7b é: string \x7d") := by
    apply normalize_of_clean (by decide) (by decide) (by decide) rfl
    · cbv
    · decide +kernel
  have hproperties : accented.properties (.anonymous 0) = .ok [⟨"é", .anonymous 2, false⟩] :=
    (propertiesWithin_of_object (by decide)).trans (by cbv)
  have hliteral : accented.objectLiteral (Normalizer.normalize {} accented · 1)
      [⟨"é", .anonymous 2, false⟩] =
        .ok (some (.text "\x7b \"\\u00e9\": \x7b é: string \x7d \x7d")) := by
    have hfilter : [(⟨"é", .anonymous 2, false⟩ : Property)].filter
        (fun p => !symbolMark.toList.isPrefixOf p.name.toList) = [⟨"é", .anonymous 2, false⟩] := rfl
    simp only [objectLiteral, hfilter, List.mapM_cons, List.mapM_nil, hinner, hkey]
    rfl
  have htext : accented.text (.anonymous 0) = .ok (.text "\x7b [Symbol.iterator]: any \x7d") := by
    cbv
  have hnoisy : isClean "\x7b [Symbol.iterator]: any \x7d".toList = false := by decide +kernel
  have houter : Normalizer.normalize {} accented (.anonymous 0) 0 =
      .ok (.text "\x7b \"\\u00e9\": \x7b é: string \x7d \x7d") :=
    normalize_of_noisy (by decide) (by decide) (by decide) rfl htext hnoisy rfl hproperties hliteral
  exact ⟨houter, hraw, hkey⟩

end RouteCatalog.Graph
