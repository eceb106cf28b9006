import RouteCatalog.TypeExpr.Layout

/-! The tokens of a type expression: literals, marks and words. Blanks outside literals keep tokens
apart and are no part of any; tokens lose nothing else. -/

namespace RouteCatalog.TypeExpr

open Text

/-- A mark is a brace, a square bracket, a semicolon or a comma. A literal is kept with its
quotes; the last one of a text may be open. -/
inductive Token where
  | literal (cs : List Char)
  | mark (c : Char)
  | word (cs : List Char)
  deriving DecidableEq, Repr

def Token.chars : Token → List Char
  | literal cs => cs
  | mark c => [c]
  | word cs => cs

def isMark (c : Char) : Bool := opensBlock c || closesBlock c || separates c

/-- What has been read so far: the finished tokens and the characters of the one that is being
read, both in reverse. -/
structure TokenReader where
  finished : List Token
  current : List Char
  quoting : Quoting
  deriving DecidableEq, Repr

namespace TokenReader

def start : TokenReader := ⟨[], [], .outside⟩

def endWord (r : TokenReader) : List Token :=
  if r.current = [] then r.finished else .word r.current.reverse :: r.finished

def endLiteral (r : TokenReader) : List Token := .literal r.current.reverse :: r.finished

def step (r : TokenReader) (c : Char) : TokenReader :=
  match r.quoting with
  | .inside _ _ =>
    let r := { r with current := c :: r.current, quoting := r.quoting.next c }
    if r.quoting = .outside then ⟨r.endLiteral, [], .outside⟩ else r
  | .outside =>
    if isQuote c then ⟨r.endWord, [c], .inside c false⟩
    else if isMark c then ⟨.mark c :: r.endWord, [], .outside⟩
    else if isBlank c then ⟨r.endWord, [], .outside⟩
    else { r with current := c :: r.current }

def tokens (r : TokenReader) : List Token :=
  match r.quoting with
  | .outside => r.endWord.reverse
  | .inside _ _ => r.endLiteral.reverse

end TokenReader

def tokens (cs : List Char) : List Token := (cs.foldl TokenReader.step .start).tokens

/-- A text from a position on without the blanks outside its literals. -/
def solid (q : Quoting) : List Char → List Char
  | [] => []
  | c :: cs => if q = .outside ∧ isBlank c = true then solid q cs else c :: solid (q.next c) cs

def closesLiterals (cs : List Char) : Bool := cs.foldl Quoting.next .outside == .outside

theorem not_isBlank_of_isQuote {c : Char} (h : isQuote c = true) : isBlank c = false := by
  simp only [isQuote, Bool.or_eq_true, beq_iff_eq] at h
  rcases h with (rfl | rfl) | rfl <;> rfl

theorem not_isBlank_of_isMark {c : Char} (h : isMark c = true) : isBlank c = false := by
  simp only [isMark, opensBlock, closesBlock, separates, Bool.or_eq_true, beq_iff_eq] at h
  rcases h with ((rfl | rfl) | (rfl | rfl)) | (rfl | rfl) <;> rfl

namespace TokenReader

/-- The characters of the tokens that have been read and of the one that is being read. -/
def chars (r : TokenReader) : List Char :=
  r.finished.reverse.flatMap Token.chars ++ r.current.reverse

theorem chars_endWord (r : TokenReader) :
    r.endWord.reverse.flatMap Token.chars = r.chars := by
  unfold endWord chars
  split
  · simp_all
  · simp [Token.chars]

theorem chars_endLiteral (r : TokenReader) :
    r.endLiteral.reverse.flatMap Token.chars = r.chars := by
  simp [endLiteral, chars, Token.chars]

theorem chars_step (r : TokenReader) (c : Char) :
    (r.step c).chars =
      r.chars ++ (if r.quoting = .outside ∧ isBlank c = true then [] else [c]) := by
  rcases r with ⟨finished, current, quoting⟩
  cases quoting with
  | inside q escaped =>
    simp only [step, reduceCtorEq, false_and, if_false]
    split <;> simp [chars, endLiteral, Token.chars]
  | outside =>
    have hword : (endWord ⟨finished, current, .outside⟩).reverse.flatMap Token.chars =
        finished.reverse.flatMap Token.chars ++ current.reverse := chars_endWord _
    simp only [step, true_and]
    split
    · rename_i hq
      simp [not_isBlank_of_isQuote hq, hword, chars]
    · split
      · rename_i hm
        simp [not_isBlank_of_isMark hm, hword, chars, Token.chars]
      · split
        · simp [hword, chars]
        · simp [chars]

theorem quoting_step (r : TokenReader) (c : Char) : (r.step c).quoting = r.quoting.next c := by
  rcases r with ⟨finished, current, quoting⟩
  cases quoting with
  | inside q escaped =>
    simp only [step]
    split
    · rename_i h
      exact h.symm
    · rfl
  | outside =>
    simp only [step, Quoting.next]
    split
    · rfl
    · split
      · rfl
      · split <;> rfl

theorem chars_foldl (r : TokenReader) (cs : List Char) :
    (cs.foldl step r).chars = r.chars ++ solid r.quoting cs := by
  induction cs generalizing r with
  | nil => simp [solid]
  | cons c cs ih =>
    rw [List.foldl_cons, ih, chars_step, quoting_step, solid, List.append_assoc]
    congr 1
    split
    · rename_i h
      have hq : isQuote c = false := by
        cases hc : isQuote c with
        | false => rfl
        | true => simp [not_isBlank_of_isQuote hc] at h
      simp [h.1, Quoting.next, hq]
    · rfl

end TokenReader

/-- The tokens hold every character of a text but the blanks outside literals. -/
theorem chars_tokens (cs : List Char) :
    (tokens cs).flatMap Token.chars = solid .outside cs := by
  have h := TokenReader.chars_foldl .start cs
  unfold tokens TokenReader.tokens
  split
  · rw [TokenReader.chars_endWord, h]
    rfl
  · rw [TokenReader.chars_endLiteral, h]
    rfl

end RouteCatalog.TypeExpr
