import RouteCatalog.Proofs.LayoutReading
import RouteCatalog.TypeExpr.Spacing

/-! Spacings of texts whose literals are closed. They consist of whole tokens that can be told
apart, and every such spacing can be read back from its text. -/

namespace RouteCatalog.TypeExpr

open Text

variable {q : Quoting} {c d : Char} {bs cs : List Char} {t : Token} {s : Spacing} {x : Spaced}
  {xs : List Spaced}

/-- Whether a literal ends with the last of some characters, and not before. -/
def closesAtEnd (q : Quoting) : List Char → Bool
  | [] => false
  | c :: cs => if q.next c = .outside then cs.isEmpty else closesAtEnd (q.next c) cs

def isWordPart (c : Char) : Bool := !isQuote c && !isMark c && !isBlank c

inductive Token.IsProper : Token → Prop
  | literal {quote : Char} {body : List Char} :
    isQuote quote = true → closesAtEnd (.inside quote false) body = true →
      IsProper (.literal (quote :: body))
  | mark {c : Char} : isMark c = true → IsProper (.mark c)
  | word {cs : List Char} : cs ≠ [] → (∀ c ∈ cs, isWordPart c = true) → IsProper (.word cs)

def Token.isWord : Token → Bool
  | .word _ => true
  | _ => false

/-- Proper tokens with gaps of blanks. Without a gap no word follows another. -/
inductive AreProper : List Spaced → Prop
  | nil : AreProper []
  | cons {x : Spaced} {xs : List Spaced} : (∀ c ∈ x.gap, isBlank c = true) → x.token.IsProper →
      (x.token.isWord = true → startsWord xs = false) → AreProper xs → AreProper (x :: xs)

structure Spacing.IsProper (s : Spacing) : Prop where
  tokens : AreProper s.tokens
  rest : ∀ c ∈ s.rest, isBlank c = true

section Classes

theorem not_isMark_of_isBlank (hc : isBlank c = true) : isMark c = false := by
  cases hmark : isMark c with
  | false => rfl
  | true => simp [not_isBlank_of_isMark hmark] at hc

theorem isWordPart_iff :
    isWordPart c = true ↔ isQuote c = false ∧ isMark c = false ∧ isBlank c = false := by
  simp [isWordPart, and_assoc]

theorem next_of_isQuote (hc : isQuote c = true) :
    Quoting.outside.next c = .inside c false := by
  simp [Quoting.next, hc]

end Classes

section Push

theorem push_mark (hc : isMark c = true) : s.push .outside c = s.pushToken (.mark c) := by
  simp [Spacing.push, not_isQuote_of_isMark hc, hc]

theorem push_blank (hc : isBlank c = true) : s.push .outside c = s.pushBlank c := by
  simp [Spacing.push, not_isQuote_of_isBlank hc, not_isMark_of_isBlank hc, hc]

theorem push_wordPart (hc : isWordPart c = true) : s.push .outside c = s.pushWord c := by
  obtain ⟨hquote, hmark, hblank⟩ := isWordPart_iff.mp hc
  simp [Spacing.push, hquote, hmark, hblank]

theorem push_quote (hc : isQuote c = true) : s.push .outside c = s.pushLiteral c := by
  simp [Spacing.push, hc, next_of_isQuote hc]

theorem push_last (hq : q ≠ .outside) (hc : q.next c = .outside) :
    s.push q c = s.pushToken (.literal [c]) := by
  simp [Spacing.push, hq, hc]

theorem push_inside (hq : q ≠ .outside) (hc : q.next c ≠ .outside) :
    s.push q c = s.pushLiteral c := by
  simp [Spacing.push, hq, hc]

end Push

section Reading

theorem spacingFrom_cons (q : Quoting) (c : Char) (cs : List Char) :
    spacingFrom q (c :: cs) = (spacingFrom (q.next c) cs).push q c := rfl

theorem spacingFrom_word (hne : cs ≠ []) (hcs : ∀ c ∈ cs, isWordPart c = true)
    (hs : startsWord (spacingFrom .outside bs).tokens = false) :
    spacingFrom .outside (cs ++ bs) = (spacingFrom .outside bs).pushToken (.word cs) := by
  induction cs with
  | nil => exact (hne rfl).elim
  | cons c cs ih =>
    obtain ⟨hc, hcs⟩ := List.forall_mem_cons.mp hcs
    rw [List.cons_append, spacingFrom_cons, Quoting.next_outside (isWordPart_iff.mp hc).1,
      push_wordPart hc]
    cases cs with
    | nil => exact Spacing.pushWord_of_not_startsWord c hs
    | cons d cs =>
      rw [ih (by simp) hcs]
      rfl

theorem spacingFrom_literal (hq : q ≠ .outside) (hcs : closesAtEnd q cs = true) :
    spacingFrom q (cs ++ bs) = (spacingFrom .outside bs).pushToken (.literal cs) := by
  induction cs generalizing q with
  | nil => cases hcs
  | cons c cs ih =>
    rw [List.cons_append, spacingFrom_cons]
    rw [closesAtEnd] at hcs
    split at hcs
    · rename_i hlast
      rw [List.isEmpty_iff.mp hcs, hlast, List.nil_append, push_last hq hlast]
    · rename_i hnext
      rw [ih hnext hcs, push_inside hq hnext]
      rfl

theorem spacingFrom_token (ht : t.IsProper)
    (hs : t.isWord = true → startsWord (spacingFrom .outside bs).tokens = false) :
    spacingFrom .outside (t.chars ++ bs) = (spacingFrom .outside bs).pushToken t := by
  cases ht with
  | @literal quote body hquote hbody =>
    have hnext := next_of_isQuote hquote
    change spacingFrom .outside (quote :: (body ++ bs)) = _
    rw [spacingFrom_cons, hnext, spacingFrom_literal (by simp) hbody, push_quote hquote]
    rfl
  | @mark c hc =>
    change spacingFrom .outside (c :: bs) = _
    rw [spacingFrom_cons, Quoting.next_outside (not_isQuote_of_isMark hc), push_mark hc]
  | word hne hcs => exact spacingFrom_word hne hcs (hs rfl)

theorem spacingFrom_gap (hbs : ∀ c ∈ bs, isBlank c = true) (t : Token) (s : Spacing)
    (hcs : spacingFrom .outside cs = s.pushToken t) :
    spacingFrom .outside (bs ++ cs) = ⟨⟨bs, t⟩ :: s.tokens, s.rest⟩ := by
  induction bs with
  | nil => exact hcs
  | cons b bs ih =>
    obtain ⟨hb, hbs⟩ := List.forall_mem_cons.mp hbs
    rw [List.cons_append, spacingFrom_cons, Quoting.next_outside (not_isQuote_of_isBlank hb),
      ih hbs, push_blank hb]
    rfl

theorem spacingFrom_blanks (hbs : ∀ c ∈ bs, isBlank c = true) :
    spacingFrom .outside bs = ⟨[], bs⟩ := by
  induction bs with
  | nil => rfl
  | cons b bs ih =>
    obtain ⟨hb, hbs⟩ := List.forall_mem_cons.mp hbs
    rw [spacingFrom_cons, Quoting.next_outside (not_isQuote_of_isBlank hb), ih hbs, push_blank hb]
    rfl

theorem spacing_text (hs : s.IsProper) : spacing s.text = s := by
  rcases s with ⟨xs, rest⟩
  obtain ⟨hxs, hrest⟩ := hs
  simp only at hxs hrest
  unfold spacing Spacing.text
  simp only
  induction hxs with
  | nil => exact spacingFrom_blanks hrest
  | @cons x xs hgap htoken hword _ ih =>
    rw [List.flatMap_cons, List.append_assoc, Spaced.chars, List.append_assoc]
    have hread : spacingFrom .outside (x.token.chars ++ (xs.flatMap Spaced.chars ++ rest)) = _ :=
      spacingFrom_token htoken (by rwa [ih])
    rw [ih] at hread
    exact spacingFrom_gap hgap x.token ⟨xs, rest⟩ hread

end Reading

section Splitting

theorem Spacing.IsProper.pushToken (hs : s.IsProper) (ht : t.IsProper)
    (hword : t.isWord = true → startsWord s.tokens = false) : (s.pushToken t).IsProper :=
  ⟨.cons (by simp) ht hword hs.tokens, hs.rest⟩

theorem Spacing.IsProper.pushBlank (hs : s.IsProper) (hc : isBlank c = true) :
    (s.pushBlank c).IsProper := by
  rcases s with ⟨_ | ⟨x, xs⟩, rest⟩
  · exact ⟨.nil, List.forall_mem_cons.mpr ⟨hc, hs.rest⟩⟩
  · cases hs.tokens with
    | cons hgap htoken hword hxs =>
      exact ⟨.cons (List.forall_mem_cons.mpr ⟨hc, hgap⟩) htoken hword hxs, hs.rest⟩

theorem Spacing.IsProper.pushWord (hs : s.IsProper) (hc : isWordPart c = true) :
    (s.pushWord c).IsProper := by
  unfold Spacing.pushWord
  split
  · rename_i cs xs htokens
    have htokens' := hs.tokens
    rw [htokens] at htokens'
    cases htokens' with
    | cons hgap htoken hword hxs =>
      cases htoken with
      | word _ hcs =>
        exact ⟨.cons hgap (.word (by simp) (List.forall_mem_cons.mpr ⟨hc, hcs⟩)) hword hxs, hs.rest⟩
  · rename_i hnone
    apply hs.pushToken (.word (by simp) (by simpa using hc))
    intro _
    unfold startsWord
    split
    · rename_i cs xs htokens
      exact (hnone cs xs htokens).elim
    · rfl

/-- A text that closes its literals has a proper spacing; from within a literal it begins with the
rest of that. -/
theorem isProper_spacingFrom (h : cs.foldl Quoting.next q = .outside) :
    (q = .outside → (spacingFrom q cs).IsProper) ∧
      (q ≠ .outside → ∃ (body : List Char) (s : Spacing),
        spacingFrom q cs = s.pushToken (.literal body) ∧ closesAtEnd q body = true ∧
          s.IsProper) := by
  induction cs generalizing q with
  | nil =>
    constructor
    · rintro rfl
      exact ⟨.nil, by simp [spacingFrom]⟩
    · intro hq
      exact (hq h).elim
  | cons c cs ih =>
    obtain ⟨houtside, hinside⟩ := ih h
    rw [spacingFrom_cons]
    constructor
    · rintro rfl
      cases hquote : isQuote c with
      | true =>
        have hnext := next_of_isQuote hquote
        obtain ⟨body, s, hbody, hcloses, hs⟩ := hinside (by simp [hnext])
        rw [hbody, push_quote hquote]
        rw [hnext] at hcloses
        exact hs.pushToken (.literal hquote hcloses) (by simp [Token.isWord])
      | false =>
        have hlater := houtside (Quoting.next_outside hquote)
        cases hmark : isMark c with
        | true =>
          rw [push_mark hmark]
          exact hlater.pushToken (.mark hmark) (by simp [Token.isWord])
        | false =>
          cases hblank : isBlank c with
          | true =>
            rw [push_blank hblank]
            exact hlater.pushBlank hblank
          | false =>
            have hword := isWordPart_iff.mpr ⟨hquote, hmark, hblank⟩
            rw [push_wordPart hword]
            exact hlater.pushWord hword
    · intro hq
      by_cases hnext : q.next c = .outside
      · refine ⟨[c], _, push_last hq hnext, ?_, houtside hnext⟩
        rw [closesAtEnd, if_pos hnext]
        rfl
      · obtain ⟨body, s, hbody, hcloses, hs⟩ := hinside hnext
        refine ⟨c :: body, s, ?_, ?_, hs⟩
        · rw [push_inside hq hnext, hbody]
          rfl
        · rw [closesAtEnd, if_neg hnext, hcloses]

theorem isProper_spacing (h : closesLiterals cs = true) : (spacing cs).IsProper :=
  (isProper_spacingFrom (beq_iff_eq.mp h)).1 rfl

end Splitting

end RouteCatalog.TypeExpr
