import RouteCatalog.TypeExpr.Token

/-! The spacing of a type expression: its tokens with the blanks before each of them, and the blanks
at its end. `text_spacing` says that nothing of the expression is lost, and `tokens_spacing` that
the tokens are those of the expression. -/

namespace RouteCatalog.TypeExpr

open Text

structure Spaced where
  gap : List Char
  token : Token
  deriving DecidableEq, Repr

def Spaced.chars (x : Spaced) : List Char := x.gap ++ x.token.chars

def startsWord : List Spaced → Bool
  | ⟨[], .word _⟩ :: _ => true
  | _ => false

structure Spacing where
  tokens : List Spaced
  /-- The blanks behind the last token. -/
  rest : List Char
  deriving DecidableEq, Repr

namespace Spacing

def text (s : Spacing) : List Char := s.tokens.flatMap Spaced.chars ++ s.rest

def pushToken (s : Spacing) (t : Token) : Spacing := ⟨⟨[], t⟩ :: s.tokens, s.rest⟩

def pushBlank (s : Spacing) (c : Char) : Spacing :=
  match s.tokens with
  | [] => ⟨[], c :: s.rest⟩
  | x :: xs => ⟨⟨c :: x.gap, x.token⟩ :: xs, s.rest⟩

/-- Lengthens a word that begins without a gap, or else makes a new one. -/
def pushWord (s : Spacing) (c : Char) : Spacing :=
  match s.tokens with
  | ⟨[], .word cs⟩ :: xs => ⟨⟨[], .word (c :: cs)⟩ :: xs, s.rest⟩
  | _ => s.pushToken (.word [c])

def pushLiteral (s : Spacing) (c : Char) : Spacing :=
  match s.tokens with
  | ⟨[], .literal cs⟩ :: xs => ⟨⟨[], .literal (c :: cs)⟩ :: xs, s.rest⟩
  | _ => s.pushToken (.literal [c])

/-- Puts a character in front that is read where `q` says. -/
def push (s : Spacing) (q : Quoting) (c : Char) : Spacing :=
  if q = .outside ∧ isQuote c = false then
    if isMark c then s.pushToken (.mark c)
    else if isBlank c then s.pushBlank c
    else s.pushWord c
  else if q.next c = .outside then s.pushToken (.literal [c])
  else s.pushLiteral c

end Spacing

/-- The spacing of a text from a position on. Inside a literal it begins with the rest of that
literal. -/
def spacingFrom (q : Quoting) : List Char → Spacing
  | [] => if q = .outside then ⟨[], []⟩ else ⟨[⟨[], .literal []⟩], []⟩
  | c :: cs => (spacingFrom (q.next c) cs).push q c

def spacing (cs : List Char) : Spacing := spacingFrom .outside cs

namespace Spacing

variable (s : Spacing) (c : Char) (t : Token)

theorem text_pushToken : (s.pushToken t).text = t.chars ++ s.text := by
  simp [text, pushToken, Spaced.chars]

theorem text_pushBlank : (s.pushBlank c).text = c :: s.text := by
  rcases s with ⟨_ | ⟨x, xs⟩, rest⟩
  · rfl
  · simp [text, pushBlank, Spaced.chars]

theorem text_pushWord : (s.pushWord c).text = c :: s.text := by
  unfold pushWord
  split
  · rename_i htokens
    simp [text, htokens, Spaced.chars, Token.chars]
  · exact text_pushToken s _

theorem text_pushLiteral : (s.pushLiteral c).text = c :: s.text := by
  unfold pushLiteral
  split
  · rename_i htokens
    simp [text, htokens, Spaced.chars, Token.chars]
  · exact text_pushToken s _

theorem text_push (q : Quoting) : (s.push q c).text = c :: s.text := by
  unfold push
  split
  · split
    · exact s.text_pushToken _
    · split
      · exact s.text_pushBlank c
      · exact s.text_pushWord c
  · split
    · exact s.text_pushToken _
    · exact s.text_pushLiteral c

theorem startsWord_pushBlank : startsWord (s.pushBlank c).tokens = false := by
  rcases s with ⟨_ | ⟨x, xs⟩, rest⟩ <;> rfl

theorem tokens_pushBlank :
    (s.pushBlank c).tokens.map Spaced.token = s.tokens.map Spaced.token := by
  rcases s with ⟨_ | ⟨x, xs⟩, rest⟩ <;> rfl

theorem startsWord_pushLiteral : startsWord (s.pushLiteral c).tokens = false := by
  unfold pushLiteral
  split <;> rfl

theorem pushWord_of_not_startsWord {s : Spacing} (h : startsWord s.tokens = false) :
    s.pushWord c = s.pushToken (.word [c]) := by
  unfold pushWord
  split
  · rename_i htokens
    simp [startsWord, htokens] at h
  · rfl

end Spacing

/-- The tokens and the blanks of a text are the whole text. -/
theorem text_spacingFrom (q : Quoting) (cs : List Char) : (spacingFrom q cs).text = cs := by
  induction cs generalizing q with
  | nil =>
    unfold spacingFrom
    split <;> rfl
  | cons c cs ih => rw [spacingFrom, Spacing.text_push, ih]

theorem text_spacing (cs : List Char) : (spacing cs).text = cs := text_spacingFrom .outside cs

section Tokens

open TokenReader

variable {s : Spacing} {cs : List Char}

theorem foldl_pushWord (h : startsWord s.tokens = false) (cs : List Char) :
    cs.foldl Spacing.pushWord s = if cs = [] then s else s.pushToken (.word cs.reverse) := by
  cases cs with
  | nil => rfl
  | cons c cs =>
    have hmore (w : List Char) : cs.foldl Spacing.pushWord (s.pushToken (.word w)) =
        s.pushToken (.word (cs.reverse ++ w)) := by
      induction cs generalizing w with
      | nil => rfl
      | cons d cs ih =>
        rw [List.foldl_cons, List.reverse_cons, List.append_assoc]
        exact ih (d :: w)
    rw [List.foldl_cons, Spacing.pushWord_of_not_startsWord c h, hmore, List.reverse_cons]
    rfl

theorem foldl_pushLiteral (l cs : List Char) :
    cs.foldl Spacing.pushLiteral (s.pushToken (.literal l)) =
      s.pushToken (.literal (cs.reverse ++ l)) := by
  induction cs generalizing l with
  | nil => rfl
  | cons c cs ih =>
    rw [List.foldl_cons, List.reverse_cons, List.append_assoc]
    exact ih (c :: l)

/-- Puts what a reader has read of a token in front of the rest of it. -/
def TokenReader.resume (r : TokenReader) (s : Spacing) : Spacing :=
  match r.quoting with
  | .outside => r.current.foldl Spacing.pushWord s
  | .inside _ _ => r.current.foldl Spacing.pushLiteral s

/-- The tokens that a reader ends with if `s` is the spacing of what it has not read. -/
def TokenReader.tokensWith (r : TokenReader) (s : Spacing) : List Token :=
  r.finished.reverse ++ (r.resume s).tokens.map Spaced.token

/-- If no word goes on there, the reader is done with its own. -/
theorem TokenReader.tokensWith_outside {r : TokenReader} (hr : r.quoting = .outside)
    (h : startsWord s.tokens = false) :
    r.tokensWith s = r.endWord.reverse ++ s.tokens.map Spaced.token := by
  unfold tokensWith resume endWord
  rw [hr]
  simp only [foldl_pushWord h]
  split
  · rfl
  · simp [Spacing.pushToken]

theorem TokenReader.tokensWith_step (r : TokenReader) (s : Spacing) (c : Char) :
    (r.step c).tokensWith s = r.tokensWith (s.push r.quoting c) := by
  rcases r with ⟨finished, current, quoting⟩
  cases quoting with
  | inside quote escaped =>
    cases hnext : Quoting.next (.inside quote escaped) c with
    | outside =>
      have hpush : s.push (.inside quote escaped) c = s.pushToken (.literal [c]) := by
        simp [Spacing.push, hnext]
      have hread : resume ⟨finished, current, .inside quote escaped⟩ (s.pushToken (.literal [c])) =
          s.pushToken (.literal (current.reverse ++ [c])) := foldl_pushLiteral [c] current
      rw [tokensWith, tokensWith, hpush, hread]
      simp [step, hnext, resume, endLiteral, Spacing.pushToken]
    | inside quote' escaped' => simp [tokensWith, resume, step, Spacing.push, hnext]
  | outside =>
    cases hquote : isQuote c with
    | true =>
      have hpush : s.push .outside c = s.pushLiteral c := by
        simp [Spacing.push, hquote, Quoting.next]
      have hstep : step ⟨finished, current, .outside⟩ c =
          ⟨endWord ⟨finished, current, .outside⟩, [c], .inside c false⟩ := by
        simp [step, hquote]
      rw [hpush, hstep, tokensWith_outside rfl (s.startsWord_pushLiteral c)]
      rfl
    | false =>
      simp only [step, Spacing.push, hquote]
      cases hmark : isMark c with
      | true =>
        have hdone := tokensWith_outside (r := ⟨finished, current, .outside⟩)
          (s := s.pushToken (.mark c)) rfl rfl
        simpa [tokensWith, resume, Spacing.pushToken] using hdone.symm
      | false =>
        cases hblank : isBlank c with
        | true =>
          have hdone := tokensWith_outside (r := ⟨finished, current, .outside⟩) rfl
            (s.startsWord_pushBlank c)
          rw [s.tokens_pushBlank] at hdone
          simpa [tokensWith, resume] using hdone.symm
        | false => simp [tokensWith, resume]

theorem TokenReader.tokens_foldl (r : TokenReader) (cs : List Char) :
    (cs.foldl step r).tokens = r.tokensWith (spacingFrom r.quoting cs) := by
  induction cs generalizing r with
  | nil =>
    rcases r with ⟨finished, current, quoting⟩
    cases quoting with
    | outside =>
      rw [tokensWith_outside rfl rfl]
      simp [tokens, spacingFrom]
    | inside quote escaped =>
      have hliteral := foldl_pushLiteral (s := ⟨[], []⟩) [] current
      simp only [Spacing.pushToken, List.append_nil] at hliteral
      simp [tokensWith, resume, spacingFrom, tokens, endLiteral, hliteral]
  | cons c cs ih => rw [List.foldl_cons, ih, quoting_step, tokensWith_step, spacingFrom]

end Tokens

theorem tokens_spacing (cs : List Char) : (spacing cs).tokens.map Spaced.token = tokens cs :=
  (TokenReader.tokens_foldl .start cs).symm

end RouteCatalog.TypeExpr
