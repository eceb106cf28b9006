import RouteCatalog.Proofs.LayoutTokens
import RouteCatalog.Proofs.ProperSpacing

/-! The law of the layout. What stands between two neighbouring tokens of a laid-out text follows
from the two, from the nesting level, and from whether they stood apart before. -/

namespace RouteCatalog.TypeExpr

open Text

def Token.isOf (kind : Char → Bool) : Token → Bool
  | .mark c => kind c
  | _ => false

def lineBreak (level : Nat) : List Char := '\n' :: List.replicate (2 * level) ' '

/-- The nesting level behind a token. A closer without partner does not count. -/
def levelAfter (level : Nat) (t : Token) : Nat :=
  if t.isOf opensBlock then level + 1
  else if t.isOf closesBlock then level - 1
  else level

/-- What the law puts between two tokens, the first of which leads to `level`. -/
def between (level : Nat) (a b : Token) (apart : Bool) : List Char :=
  if a.isOf opensBlock && b.isOf closesBlock then []
  else if b.isOf closesBlock then lineBreak (levelAfter level b)
  else if a.isOf endsLine then lineBreak level
  else if apart then [' ']
  else []

def Spaced.isApart (x : Spaced) : Bool := !x.gap.isEmpty

def arrange (level : Nat) (a : Token) : List Spaced → List Spaced
  | [] => []
  | x :: xs =>
    ⟨between level a x.token x.isApart, x.token⟩ ::
      arrange (levelAfter level x.token) x.token xs

/-- The spacing that the law gives to the tokens of another one. -/
def Spacing.laidOut (s : Spacing) : Spacing :=
  match s.tokens with
  | [] => ⟨[], []⟩
  | x :: xs => ⟨⟨[], x.token⟩ :: arrange (levelAfter 0 x.token) x.token xs, []⟩

def Spacing.joints (s : Spacing) : List Bool := s.tokens.tail.map Spaced.isApart

def levelBehind (xs : List Spaced) : Nat := (xs.map Spaced.token).foldl levelAfter 0

/-- The law for a text that has been laid out. Between two tokens stands one space at most, or one
line break. -/
structure Spacing.IsLaidOut (s : Spacing) : Prop where
  first : ∀ x ∈ s.tokens.head?, x.gap = []
  rest : s.rest = []
  gap : ∀ x ∈ s.tokens, x.gap = [] ∨ x.gap = [' '] ∨ ∃ level, x.gap = lineBreak level
  lineBreak_iff : ∀ before x y after, s.tokens = before ++ x :: y :: after →
    ((∃ level, y.gap = lineBreak level) ↔
      (x.token.isOf endsLine = true ∨ y.token.isOf closesBlock = true) ∧
        ¬(x.token.isOf opensBlock = true ∧ y.token.isOf closesBlock = true))
  /-- The line of a closer has the level behind the closer. -/
  level : ∀ before x y after level, s.tokens = before ++ x :: y :: after →
    y.gap = lineBreak level →
      level = levelBehind (if y.token.isOf closesBlock then before ++ [x, y] else before ++ [x])

variable {q : Quoting} {c d : Char} {bs cs : List Char} {t a : Token} {x : Spaced}
  {xs : List Spaced} {pieces : List Piece} {level : Nat}

section Ends

theorem isQuote_of_next_eq_outside (hq : q.IsProper) (hq' : q ≠ .outside)
    (hc : q.next c = .outside) : isQuote c = true := by
  cases q with
  | outside => exact (hq' rfl).elim
  | inside quote escaped =>
    cases escaped with
    | true => cases hc
    | false =>
      simp only [Quoting.next] at hc
      split_ifs at hc with hescape hquote
      rw [hquote]
      exact hq

theorem isQuote_of_closesAtEnd (hq : q.IsProper) (hq' : q ≠ .outside)
    (hcs : closesAtEnd q cs = true) : ∃ d, cs.getLast? = some d ∧ isQuote d = true := by
  induction cs generalizing q with
  | nil => cases hcs
  | cons c cs ih =>
    rw [closesAtEnd] at hcs
    split at hcs
    · rename_i hlast
      rw [List.isEmpty_iff.mp hcs]
      exact ⟨c, rfl, isQuote_of_next_eq_outside hq hq' hlast⟩
    · rename_i hnext
      obtain ⟨d, hd, hquote⟩ := ih (hq.next c) hnext hcs
      refine ⟨d, ?_, hquote⟩
      rw [List.getLast?_cons, hd]
      rfl

theorem not_opensBlock_of_not_isMark (hc : isMark c = false) : opensBlock c = false := by
  simp only [isMark, Bool.or_eq_false_iff] at hc
  exact hc.1.1

theorem not_isMark_of_isQuote (hc : isQuote c = true) : isMark c = false := by
  cases hmark : isMark c with
  | false => rfl
  | true => simp [not_isQuote_of_isMark hmark] at hc

/-- The last character of a token is no blank, and it opens a block only if the token does. -/
theorem Token.IsProper.exists_last (ht : t.IsProper) : ∃ d, t.chars.getLast? = some d ∧
    isBlank d = false ∧ opensBlock d = t.isOf opensBlock := by
  cases ht with
  | @literal quote body hquote hbody =>
    obtain ⟨d, hd, hlast⟩ := isQuote_of_closesAtEnd (by exact hquote) (by simp) hbody
    refine ⟨d, ?_, not_isBlank_of_isQuote hlast,
      not_opensBlock_of_not_isMark (not_isMark_of_isQuote hlast)⟩
    change (quote :: body).getLast? = some d
    rw [List.getLast?_cons, hd]
    rfl
  | @mark c hc => exact ⟨c, rfl, not_isBlank_of_isMark hc, rfl⟩
  | @word cs hne hcs =>
    have hlast := isWordPart_iff.mp (hcs _ (List.getLast_mem hne))
    exact ⟨cs.getLast hne, List.getLast?_eq_some_getLast hne, hlast.2.2,
      not_opensBlock_of_not_isMark hlast.2.1⟩

theorem Token.IsProper.exists_first (ht : t.IsProper) :
    ∃ d cs, t.chars = d :: cs ∧ isBlank d = false := by
  cases ht with
  | @literal quote body hquote _ => exact ⟨quote, body, rfl, not_isBlank_of_isQuote hquote⟩
  | @mark c hc => exact ⟨c, [], rfl, not_isBlank_of_isMark hc⟩
  | @word cs hne hcs =>
    cases cs with
    | nil => exact (hne rfl).elim
    | cons d cs => exact ⟨d, cs, rfl, (isWordPart_iff.mp (hcs d List.mem_cons_self)).2.2⟩

end Ends

section Pieces

theorem spelled_glyphs (cs : List Char) (pieces : List Piece) :
    spelled ((cs.map Piece.glyph).reverse ++ pieces) = spelled pieces ++ cs := by
  induction cs generalizing pieces with
  | nil => simp [spelled]
  | cons c cs ih =>
    rw [List.map_cons, List.reverse_cons, List.append_assoc, List.singleton_append, ih,
      spelled_cons, List.append_assoc]
    rfl

theorem isBlank_of_mem_lineBreak (hc : c ∈ lineBreak level) : isBlank c = true :=
  Piece.isBlank_of_mem_chars (p := .lineBreak level) rfl hc

theorem settled_glyph (c : Char) (pieces : List Piece) :
    settled (.glyph c :: pieces) = .glyph c :: pieces := rfl

/-- Whether the last piece is a character that opens a block. -/
def endsOpen : List Piece → Bool
  | .glyph c :: _ => opensBlock c
  | _ => false

theorem endsOpen_of_head? (h : pieces.head? = some (.glyph c)) :
    endsOpen pieces = opensBlock c := by
  cases pieces with
  | nil => cases h
  | cons p pieces =>
    cases h
    rfl

theorem close_eq (pieces : List Piece) (level : Nat) (c : Char) : Layout.close pieces level c =
    Piece.glyph c :: if endsOpen (settled pieces) then settled pieces
      else .lineBreak level :: settled pieces := by
  unfold Layout.close
  change (match settled pieces with
    | .glyph o :: _ => if opensBlock o then Piece.glyph c :: settled pieces
      else Piece.glyph c :: .lineBreak level :: settled pieces
    | _ => Piece.glyph c :: .lineBreak level :: settled pieces) = _
  split
  · rename_i o rest hkept
    rw [hkept]
    change (if opensBlock o then Piece.glyph c :: .glyph o :: rest
      else Piece.glyph c :: .lineBreak level :: .glyph o :: rest) = Piece.glyph c ::
        if opensBlock o then .glyph o :: rest else .lineBreak level :: .glyph o :: rest
    split <;> rfl
  · rename_i hkept
    have hnot : endsOpen (settled pieces) = false := by
      unfold endsOpen
      split
      · rename_i o rest ho
        exact (hkept o rest ho).elim
      · rfl
    rw [hnot]
    rfl

end Pieces

namespace Layout

variable {s : Layout} {out : List Char}

section Steps

theorem level_step_mark (hs : s.quoting = .outside) (hc : isMark c = true) :
    (s.step c).level = levelAfter s.level (.mark c) := by
  have hquote := not_isQuote_of_isMark hc
  simp only [step, hs, hquote, levelAfter, Token.isOf]
  split_ifs <;> simp_all [isMark]

theorem foldl_word (hs : s.quoting = .outside) (hcs : ∀ c ∈ cs, isWordPart c = true) :
    cs.foldl step s = ⟨(cs.map .glyph).reverse ++ s.pieces, s.level, .outside⟩ := by
  induction cs generalizing s with
  | nil =>
    rw [← hs]
    rfl
  | cons c cs ih =>
    obtain ⟨hc, hcs⟩ := List.forall_mem_cons.mp hcs
    obtain ⟨hquote, hmark, hblank⟩ := isWordPart_iff.mp hc
    simp only [isMark, Bool.or_eq_false_iff] at hmark
    have hstep : s.step c = ⟨.glyph c :: s.pieces, s.level, .outside⟩ := by
      simp [step, hs, hquote, hmark, hblank, Quoting.next]
    rw [List.foldl_cons, ih (by rw [hstep]) hcs, hstep]
    simp

theorem foldl_literal (hs : s.quoting ≠ .outside) (hcs : closesAtEnd s.quoting cs = true) :
    cs.foldl step s = ⟨(cs.map .glyph).reverse ++ s.pieces, s.level, .outside⟩ := by
  induction cs generalizing s with
  | nil => cases hcs
  | cons c cs ih =>
    have hstep : s.step c = ⟨.glyph c :: s.pieces, s.level, s.quoting.next c⟩ := by
      simp [step, hs]
    rw [closesAtEnd] at hcs
    rw [List.foldl_cons]
    split at hcs
    · rename_i hlast
      rw [List.isEmpty_iff.mp hcs, hstep, hlast]
      rfl
    · rename_i hnext
      rw [ih (by rwa [hstep]) (by rwa [hstep]), hstep]
      simp

theorem foldl_blanks (hs : s.quoting = .outside) (hbs : ∀ c ∈ bs, isBlank c = true) :
    bs.foldl step s = ⟨if bs.isEmpty then s.pieces else blank s.pieces, s.level, .outside⟩ := by
  induction bs generalizing s with
  | nil =>
    rw [← hs]
    rfl
  | cons b bs ih =>
    obtain ⟨hb, hbs⟩ := List.forall_mem_cons.mp hbs
    have hstep := step_isBlank hs hb
    rw [List.foldl_cons, ih (by rw [hstep]) hbs, hstep, blank_blank]
    simp

end Steps

/-- What a layout writes is `out`, the last token of which is `t`. If a line ends behind it, a line
break has been written already. -/
structure StandsBehind (s : Layout) (t : Token) (out : List Char) : Prop where
  quoting : s.quoting = .outside
  pieces : s.pieces = if t.isOf endsLine then .lineBreak s.level :: settled s.pieces
    else settled s.pieces
  last : (settled s.pieces).head? = t.chars.getLast?.map .glyph
  output : spelled (settled s.pieces) = out

def outputAfter (s : Layout) (t : Token) : List Char :=
  if t.isOf closesBlock then
    spelled (settled s.pieces) ++
      ((if endsOpen (settled s.pieces) then [] else lineBreak (s.level - 1)) ++ t.chars)
  else spelled s.pieces ++ t.chars

theorem standsBehind_glyphs (hne : cs ≠ []) (hline : t.isOf endsLine = false)
    (hclose : t.isOf closesBlock = false) (hchars : t.chars = cs) :
    StandsBehind ⟨(cs.map .glyph).reverse ++ s.pieces, s.level, .outside⟩ t (s.outputAfter t) := by
  have hpieces : (cs.map .glyph).reverse ++ s.pieces =
      .glyph (cs.getLast hne) :: ((cs.dropLast.map .glyph).reverse ++ s.pieces) := by
    rw [← List.singleton_append, ← List.append_assoc, ← List.map_singleton, ← List.map_reverse,
      ← List.map_reverse]
    nth_rewrite 1 [← List.dropLast_append_getLast hne]
    simp
  have hsettled : settled ((cs.map .glyph).reverse ++ s.pieces) =
      (cs.map .glyph).reverse ++ s.pieces := by
    rw [hpieces]
    rfl
  refine ⟨rfl, ?_, ?_, ?_⟩
  · simp only [hline, hsettled]
    rfl
  · rw [hsettled, hpieces, hchars, List.getLast?_eq_some_getLast hne]
    rfl
  · rw [hsettled, spelled_glyphs, outputAfter, hclose, hchars]
    rfl

theorem standsBehind_token (hs : s.quoting = .outside) (ht : t.IsProper) :
    (t.chars.foldl step s).level = levelAfter s.level t ∧
      StandsBehind (t.chars.foldl step s) t (s.outputAfter t) := by
  cases ht with
  | @literal quote body hquote hbody =>
    have hstep : s.step quote = ⟨.glyph quote :: s.pieces, s.level, .inside quote false⟩ := by
      simp [step, hquote, hs, next_of_isQuote hquote]
    have hread : (quote :: body).foldl step s =
        ⟨((quote :: body).map .glyph).reverse ++ s.pieces, s.level, .outside⟩ := by
      rw [List.foldl_cons, foldl_literal (by rw [hstep]; simp) (by rw [hstep]; exact hbody), hstep]
      simp
    change ((quote :: body).foldl step s).level = s.level ∧
      StandsBehind ((quote :: body).foldl step s) _ _
    rw [hread]
    exact ⟨rfl, standsBehind_glyphs (by simp) rfl rfl rfl⟩
  | @word cs hne hcs =>
    change (cs.foldl step s).level = s.level ∧ StandsBehind (cs.foldl step s) _ _
    rw [foldl_word hs hcs]
    exact ⟨rfl, standsBehind_glyphs hne rfl rfl rfl⟩
  | @mark c hc =>
    refine ⟨level_step_mark hs hc, ?_⟩
    change StandsBehind (s.step c) (.mark c) (s.outputAfter (.mark c))
    by_cases hclose : closesBlock c = true
    · have hline : endsLine c = false := by
        simp only [closesBlock, Bool.or_eq_true, beq_iff_eq] at hclose
        rcases hclose with rfl | rfl <;> rfl
      rw [step_closesBlock hs hclose, close_eq]
      refine ⟨rfl, ?_, rfl, ?_⟩
      · simp only [Token.isOf, hline]
        rfl
      · simp only [settled_glyph, spelled_cons, outputAfter, Token.isOf, hclose, if_true]
        split
        · rfl
        · rw [spelled_cons, List.append_assoc]
          rfl
    · have hline : endsLine c = true := by
        simpa [isMark, endsLine, hclose] using hc
      obtain ⟨level, hstep⟩ := step_endsLine hs hline
      rw [hstep]
      refine ⟨rfl, ?_, rfl, ?_⟩
      · simp only [Token.isOf, hline]
        rfl
      · change spelled (.glyph c :: s.pieces) = _
        simp only [spelled_cons, outputAfter, Token.isOf, hclose]
        rfl

/-- Reading a gap. It shows only where no line has ended. -/
theorem StandsBehind.gap (hs : StandsBehind s a out) (ha : a.IsProper)
    (hbs : ∀ c ∈ bs, isBlank c = true) : ∃ pieces, bs.foldl step s = ⟨pieces, s.level, .outside⟩ ∧
      spelled (settled pieces) = out ∧ endsOpen (settled pieces) = a.isOf opensBlock ∧
      spelled pieces = out ++ (if a.isOf endsLine then lineBreak s.level
        else if !bs.isEmpty then [' '] else []) := by
  obtain ⟨d, hd, -, hopens⟩ := ha.exists_last
  have hpieces := hs.pieces
  have hlast := hs.last
  have houtput := hs.output
  generalize hkept : settled s.pieces = kept at hpieces hlast houtput
  rw [hd] at hlast
  obtain ⟨rest, hrest⟩ := List.head?_eq_some_iff.mp hlast
  refine ⟨_, foldl_blanks hs.quoting hbs, ?_⟩
  have hsettled : settled (if bs.isEmpty then s.pieces else blank s.pieces) = kept := by
    split
    · exact hkept
    · rw [settled_blank, hkept]
  rw [hsettled, houtput, endsOpen_of_head? hlast, hopens]
  refine ⟨rfl, rfl, ?_⟩
  rw [hpieces]
  cases a.isOf endsLine with
  | true =>
    -- A line has ended, so the gap does not show.
    change spelled (if bs.isEmpty then .lineBreak s.level :: kept else .lineBreak s.level :: kept) =
      out ++ lineBreak s.level
    rw [ite_self, spelled_cons, houtput]
    rfl
  | false =>
    cases bs.isEmpty with
    | true =>
      rw [← houtput]
      exact (List.append_nil _).symm
    | false =>
      have hblank : blank kept = .space :: kept := by
        rw [hrest]
        rfl
      change spelled (blank kept) = out ++ [' ']
      rw [hblank, spelled_cons, houtput]
      rfl

theorem levelAfter_of_closesBlock (h : t.isOf closesBlock = true) :
    levelAfter level t = level - 1 := by
  have hopen : t.isOf opensBlock = false := by
    cases t with
    | mark c => exact not_opensBlock_of_closesBlock h
    | _ => rfl
  rw [levelAfter, hopen, h]
  rfl

theorem StandsBehind.next (hs : StandsBehind s a out) (ha : a.IsProper)
    (hgap : ∀ c ∈ x.gap, isBlank c = true) (hx : x.token.IsProper) :
    (x.chars.foldl step s).level = levelAfter s.level x.token ∧
      StandsBehind (x.chars.foldl step s) x.token
        (out ++ (between s.level a x.token x.isApart ++ x.token.chars)) := by
  obtain ⟨pieces, hread, hsettled, hopen, hspelled⟩ := hs.gap ha hgap
  have hout : outputAfter ⟨pieces, s.level, .outside⟩ x.token =
      out ++ (between s.level a x.token x.isApart ++ x.token.chars) := by
    rw [outputAfter, between, hsettled, hopen, hspelled]
    cases hclose : x.token.isOf closesBlock with
    | true =>
      rw [levelAfter_of_closesBlock hclose, if_pos rfl, Bool.and_true, if_pos rfl]
    | false =>
      simp only [Bool.and_false, Bool.false_eq_true, if_false, List.append_assoc]
      rfl
  rw [Spaced.chars, List.foldl_append, hread, ← hout]
  exact standsBehind_token rfl hx

theorem StandsBehind.all (hs : StandsBehind s a out) (ha : a.IsProper) (hxs : AreProper xs) :
    ∃ b, b.IsProper ∧ StandsBehind ((xs.flatMap Spaced.chars).foldl step s) b
      (out ++ (arrange s.level a xs).flatMap Spaced.chars) := by
  induction hxs generalizing s a out with
  | nil => exact ⟨a, ha, by simpa [arrange] using hs⟩
  | @cons x xs hgap hx _ _ ih =>
    obtain ⟨hlevel, hnext⟩ := hs.next ha hgap hx
    obtain ⟨b, hb, hlast⟩ := ih hnext hx
    refine ⟨b, hb, ?_⟩
    rw [List.flatMap_cons, List.foldl_append, arrange, List.flatMap_cons, ← List.append_assoc]
    rw [hlevel] at hlast
    exact hlast

/-- What is written at the end of a text, where the blanks behind the last token are read. -/
theorem StandsBehind.exists_ending (hs : StandsBehind s a out) (ha : a.IsProper)
    (hbs : ∀ c ∈ bs, isBlank c = true) : ∃ ending, (bs.foldl step s).chars = out ++ ending ∧
      ∀ c ∈ ending, isBlank c = true := by
  obtain ⟨pieces, hread, -, -, hspelled⟩ := hs.gap ha hbs
  refine ⟨_, by rw [hread]; exact hspelled, ?_⟩
  intro c hc
  split_ifs at hc
  · exact isBlank_of_mem_lineBreak hc
  · exact Piece.isBlank_of_mem_chars (p := .space) rfl hc
  · cases hc

theorem StandsBehind.exists_last (hs : StandsBehind s a out) (ha : a.IsProper) :
    ∃ d, out.getLast? = some d ∧ isBlank d = false := by
  obtain ⟨d, hd, hblank, -⟩ := ha.exists_last
  have hlast := hs.last
  rw [hd] at hlast
  obtain ⟨rest, hrest⟩ := List.head?_eq_some_iff.mp hlast
  refine ⟨d, ?_, hblank⟩
  rw [← hs.output, hrest, spelled_cons]
  exact List.getLast?_concat

/-- At the beginning of a text, a closer stands behind a line break that is trimmed later. -/
theorem outputAfter_start (t : Token) :
    ∃ bs, start.outputAfter t = bs ++ t.chars ∧ ∀ c ∈ bs, isBlank c = true := by
  unfold outputAfter
  split
  · exact ⟨lineBreak 0, rfl, fun c hc => isBlank_of_mem_lineBreak hc⟩
  · exact ⟨[], rfl, by simp⟩

end Layout

section Trimming

theorem dropWhile_append_blanks (hbs : ∀ c ∈ bs, isBlank c = true) (cs : List Char) :
    (bs ++ cs).dropWhile isBlank = cs.dropWhile isBlank := by
  rw [List.dropWhile_append, List.dropWhile_eq_nil_iff.mpr hbs]
  rfl

theorem trim_eq {before behind : List Char} (hbefore : ∀ c ∈ before, isBlank c = true)
    (hbehind : ∀ c ∈ behind, isBlank c = true) (hc : isBlank c = false)
    (hlast : ∀ d, (c :: cs).getLast? = some d → isBlank d = false) :
    trim (before ++ ((c :: cs) ++ behind)) = c :: cs := by
  have hdrop : (before ++ ((c :: cs) ++ behind)).dropWhile isBlank = (c :: cs) ++ behind := by
    rw [dropWhile_append_blanks hbefore, List.cons_append, List.dropWhile_cons, hc]
    rfl
  change ((before ++ ((c :: cs) ++ behind)).dropWhile isBlank).rdropWhile isBlank = c :: cs
  rw [hdrop]
  exact rdropWhile_append_blanks hbehind hlast

end Trimming

theorem isBlank_of_mem_between {b : Token} {apart : Bool} (hc : c ∈ between level a b apart) :
    isBlank c = true := by
  unfold between at hc
  split_ifs at hc
  · cases hc
  · exact isBlank_of_mem_lineBreak hc
  · exact isBlank_of_mem_lineBreak hc
  · exact Piece.isBlank_of_mem_chars (p := .space) rfl hc
  · cases hc

/-- A text with a proper spacing is laid out by the law. -/
theorem layOut_text {s : Spacing} (hs : s.IsProper) : layOut s.text = s.laidOut.text := by
  rcases s with ⟨_ | ⟨x, xs⟩, rest⟩
  · change trim (rest.foldl Layout.step .start).chars = []
    rw [Layout.foldl_blanks rfl hs.rest]
    split <;> rfl
  · cases hs.tokens with
    | cons hgap hx hword hxs =>
      have hstart : x.gap.foldl Layout.step .start = .start := by
        rw [Layout.foldl_blanks rfl hgap]
        split <;> rfl
      obtain ⟨hlevel, hfirst⟩ := Layout.standsBehind_token (s := .start) rfl hx
      obtain ⟨lead, hlead, hblank⟩ := Layout.outputAfter_start x.token
      obtain ⟨b, hb, hall⟩ := hfirst.all hx hxs
      rw [hlevel, hlead, List.append_assoc] at hall
      obtain ⟨ending, hending, hends⟩ := hall.exists_ending hb hs.rest
      obtain ⟨d, hd, hnot⟩ := hall.exists_last hb
      obtain ⟨c, cs, hchars, hc⟩ := hx.exists_first
      have hread : (⟨x :: xs, rest⟩ : Spacing).text.foldl Layout.step .start =
          rest.foldl Layout.step ((xs.flatMap Spaced.chars).foldl Layout.step
            (x.token.chars.foldl Layout.step .start)) := by
        rw [Spacing.text, List.foldl_append, List.flatMap_cons, List.foldl_append, Spaced.chars,
          List.foldl_append, hstart]
      have htext : (⟨x :: xs, rest⟩ : Spacing).laidOut.text = x.token.chars ++
          (arrange (levelAfter 0 x.token) x.token xs).flatMap Spaced.chars := by
        simp [Spacing.laidOut, Spacing.text, Spaced.chars]
      rw [layOut, hread, hending, htext, List.append_assoc]
      change (lead ++ (x.token.chars ++
        (arrange (levelAfter 0 x.token) x.token xs).flatMap Spaced.chars)).getLast? = _ at hd
      change trim (lead ++ (x.token.chars ++
        (arrange (levelAfter 0 x.token) x.token xs).flatMap Spaced.chars ++ ending)) = _
      rw [hchars, List.cons_append] at hd ⊢
      apply trim_eq hblank hends hc
      intro d' hd'
      rw [List.getLast?_append, hd', Option.some_or, Option.some_inj] at hd
      rwa [hd]

section Law

variable {s : Spacing} {y : Spaced} {before after : List Spaced}

theorem startsWord_arrange (ha : a.isWord = true) (hxs : startsWord xs = false) :
    startsWord (arrange level a xs) = false := by
  cases xs with
  | nil => rfl
  | cons x xs =>
    rcases x with ⟨gap, token⟩
    cases a with
    | word cs =>
      cases token with
      | word ds =>
        cases gap with
        | nil => cases hxs
        | cons b bs => rfl
      | _ => unfold startsWord arrange; split <;> simp_all
    | _ => cases ha

theorem AreProper.arrange (hxs : AreProper xs) : AreProper (arrange level a xs) := by
  induction hxs generalizing level a with
  | nil => exact .nil
  | cons _ htoken hword _ ih =>
    refine .cons ?_ htoken ?_ ih
    · intro c hc
      exact isBlank_of_mem_between hc
    · intro hisWord
      exact startsWord_arrange hisWord (hword hisWord)

theorem Spacing.IsProper.laidOut (hs : s.IsProper) : s.laidOut.IsProper := by
  rcases s with ⟨_ | ⟨x, xs⟩, rest⟩
  · exact ⟨.nil, by simp [Spacing.laidOut]⟩
  · cases hs.tokens with
    | cons _ htoken hword hxs =>
      refine ⟨.cons (by simp) htoken ?_ hxs.arrange, by simp [Spacing.laidOut]⟩
      intro hisWord
      exact startsWord_arrange hisWord (hword hisWord)

theorem token_arrange (level : Nat) (a : Token) (xs : List Spaced) :
    (arrange level a xs).map Spaced.token = xs.map Spaced.token := by
  induction xs generalizing level a with
  | nil => rfl
  | cons x xs ih => rw [arrange, List.map_cons, ih, List.map_cons]

theorem token_laidOut (s : Spacing) :
    s.laidOut.tokens.map Spaced.token = s.tokens.map Spaced.token := by
  rcases s with ⟨_ | ⟨x, xs⟩, rest⟩
  · rfl
  · change x.token :: (arrange _ _ xs).map Spaced.token = x.token :: xs.map Spaced.token
    rw [token_arrange]

/-- The law sees nothing of a gap but whether it is one. -/
theorem arrange_congr {ys : List Spaced} (htokens : xs.map Spaced.token = ys.map Spaced.token)
    (hgaps : xs.map Spaced.isApart = ys.map Spaced.isApart) :
    arrange level a xs = arrange level a ys := by
  induction xs generalizing level a ys with
  | nil =>
    cases ys with
    | nil => rfl
    | cons y ys => cases htokens
  | cons x xs ih =>
    cases ys with
    | nil => cases htokens
    | cons y ys =>
      obtain ⟨htoken, htokens⟩ := List.cons_eq_cons.mp htokens
      obtain ⟨hgap, hgaps⟩ := List.cons_eq_cons.mp hgaps
      rw [arrange, arrange, htoken, hgap, ih htokens hgaps]

theorem laidOut_congr {s' : Spacing} (htokens : s.tokens.map Spaced.token =
    s'.tokens.map Spaced.token) (hjoints : s.joints = s'.joints) : s.laidOut = s'.laidOut := by
  rcases s with ⟨_ | ⟨x, xs⟩, rest⟩ <;> rcases s' with ⟨_ | ⟨y, ys⟩, rest'⟩
  · rfl
  · cases htokens
  · cases htokens
  · obtain ⟨htoken, htokens⟩ := List.cons_eq_cons.mp htokens
    unfold Spacing.laidOut
    simp only [htoken]
    rw [arrange_congr htokens hjoints]

theorem lineBreak_inj {m n : Nat} (h : lineBreak m = lineBreak n) : m = n := by
  have hlength := congrArg List.length h
  simp only [lineBreak, List.length_cons, List.length_replicate] at hlength
  omega

theorem between_cases (level : Nat) (a b : Token) (apart : Bool) :
    between level a b apart = [] ∨ between level a b apart = [' '] ∨
      ∃ n, between level a b apart = lineBreak n := by
  unfold between
  split_ifs
  · exact .inl rfl
  · exact .inr (.inr ⟨_, rfl⟩)
  · exact .inr (.inr ⟨_, rfl⟩)
  · exact .inr (.inl rfl)
  · exact .inl rfl

theorem between_eq_lineBreak_iff {b : Token} {apart : Bool} {n : Nat} :
    between level a b apart = lineBreak n ↔
      ((a.isOf endsLine = true ∨ b.isOf closesBlock = true) ∧
        ¬(a.isOf opensBlock = true ∧ b.isOf closesBlock = true)) ∧
        n = if b.isOf closesBlock then levelAfter level b else level := by
  have hspace : [' '] ≠ lineBreak n := by simp [lineBreak]
  have hnil : [] ≠ lineBreak n := by simp [lineBreak]
  have hinj (m : Nat) : lineBreak m = lineBreak n ↔ n = m :=
    ⟨fun h => (lineBreak_inj h).symm, fun h => by rw [h]⟩
  unfold between
  cases hopens : a.isOf opensBlock <;> cases hcloses : b.isOf closesBlock <;>
    cases hline : a.isOf endsLine <;> cases apart <;> simp [hinj, hspace, hnil]

theorem arrange_split (h : arrange level a xs = before ++ y :: after) :
    ∃ apart, y.gap = between ((before.map Spaced.token).foldl levelAfter level)
      ((before.map Spaced.token).getLastD a) y.token apart := by
  induction xs generalizing level a before with
  | nil => simp [arrange] at h
  | cons x xs ih =>
    cases before with
    | nil =>
      obtain ⟨rfl, -⟩ := List.cons_eq_cons.mp h
      exact ⟨_, rfl⟩
    | cons z before =>
      obtain ⟨rfl, htail⟩ := List.cons_eq_cons.mp h
      obtain ⟨apart, hgap⟩ := ih htail
      refine ⟨apart, ?_⟩
      rw [List.map_cons, List.foldl_cons, List.getLastD_cons]
      exact hgap

theorem laidOut_split (h : s.laidOut.tokens = before ++ x :: y :: after) :
    ∃ apart, y.gap = between (levelBehind (before ++ [x])) x.token y.token apart := by
  rcases s with ⟨_ | ⟨first, xs⟩, rest⟩
  · simp [Spacing.laidOut] at h
  · change ⟨[], first.token⟩ :: arrange (levelAfter 0 first.token) first.token xs = _ at h
    cases before with
    | nil =>
      obtain ⟨rfl, htail⟩ := List.cons_eq_cons.mp h
      have hsplit : arrange (levelAfter 0 first.token) first.token xs = [] ++ y :: after := htail
      obtain ⟨apart, hgap⟩ := arrange_split hsplit
      exact ⟨apart, hgap⟩
    | cons z before =>
      obtain ⟨rfl, htail⟩ := List.cons_eq_cons.mp h
      have hsplit : arrange (levelAfter 0 first.token) first.token xs =
          (before ++ [x]) ++ y :: after := by
        rw [List.append_assoc]
        exact htail
      obtain ⟨apart, hgap⟩ := arrange_split hsplit
      refine ⟨apart, ?_⟩
      rw [List.map_append, List.map_singleton, List.getLastD_concat] at hgap
      rw [hgap, levelBehind]
      simp

theorem levelBehind_concat (xs : List Spaced) (x : Spaced) :
    levelBehind (xs ++ [x]) = levelAfter (levelBehind xs) x.token := by
  simp [levelBehind]

theorem gap_arrange (hx : x ∈ arrange level a xs) :
    x.gap = [] ∨ x.gap = [' '] ∨ ∃ n, x.gap = lineBreak n := by
  obtain ⟨before, after, hsplit⟩ := List.append_of_mem hx
  obtain ⟨apart, hgap⟩ := arrange_split hsplit
  rw [hgap]
  exact between_cases ..

theorem isLaidOut_laidOut (s : Spacing) : s.laidOut.IsLaidOut where
  first := by
    rcases s with ⟨_ | ⟨x, xs⟩, rest⟩ <;> simp [Spacing.laidOut]
  rest := by
    rcases s with ⟨_ | ⟨x, xs⟩, rest⟩ <;> rfl
  gap := by
    rcases s with ⟨_ | ⟨x, xs⟩, rest⟩
    · simp [Spacing.laidOut]
    · intro y hy
      rcases List.mem_cons.mp hy with rfl | hy
      · exact .inl rfl
      · exact gap_arrange hy
  lineBreak_iff := by
    intro before x y after h
    obtain ⟨apart, hgap⟩ := laidOut_split h
    simp only [hgap, between_eq_lineBreak_iff, exists_and_left, exists_eq, and_true]
  level := by
    intro before x y after level h hlevel
    obtain ⟨apart, hgap⟩ := laidOut_split h
    rw [hgap] at hlevel
    rw [(between_eq_lineBreak_iff.mp hlevel).2]
    have hboth : before ++ [x, y] = (before ++ [x]) ++ [y] := by simp
    rw [hboth]
    split
    · rw [levelBehind_concat (before ++ [x])]
    · rfl

/-- What is laid out follows the law, and the law looks at nothing but the tokens and which of them
stand apart. -/
theorem layout_follows_law (cs : List Char) (hcs : closesLiterals cs = true) :
    (spacing (layOut cs)).text = layOut cs ∧ (spacing (layOut cs)).IsProper ∧
      spacing (layOut cs) = (spacing cs).laidOut ∧ (spacing (layOut cs)).IsLaidOut ∧
      (spacing (layOut cs)).tokens.map Spaced.token = tokens cs ∧
      ∀ ds, closesLiterals ds = true → tokens ds = tokens cs →
        (spacing ds).joints = (spacing cs).joints → layOut ds = layOut cs := by
  have hlaid (ds : List Char) (hds : closesLiterals ds = true) :
      layOut ds = (spacing ds).laidOut.text := by
    rw [← layOut_text (isProper_spacing hds), text_spacing]
  have hspacing : spacing (layOut cs) = (spacing cs).laidOut := by
    rw [hlaid cs hcs]
    exact spacing_text (isProper_spacing hcs).laidOut
  refine ⟨text_spacing _, ?_, hspacing, ?_, ?_, ?_⟩
  · rw [hspacing]
    exact (isProper_spacing hcs).laidOut
  · rw [hspacing]
    exact isLaidOut_laidOut _
  · rw [hspacing, token_laidOut, tokens_spacing]
  · intro ds hds htokens hjoints
    rw [hlaid ds hds, hlaid cs hcs]
    rw [← tokens_spacing, ← tokens_spacing cs] at htokens
    rw [laidOut_congr htokens hjoints]

/-- A closer without partner, an opener that another kind of closer follows, and marks in
literals. -/
theorem stray_closers_follow_law :
    closesLiterals "] [ \x7da:'x; [' ,\t\x7b b\n c".toList = true ∧
      closesLiterals "]\n[  \x7da:'x; [' , \x7b b c ".toList = true ∧
      spacing (layOut "] [ \x7da:'x; [' ,\t\x7b b\n c".toList) =
        (spacing "] [ \x7da:'x; [' ,\t\x7b b\n c".toList).laidOut ∧
      layOut "]\n[  \x7da:'x; [' , \x7b b c ".toList =
        layOut "] [ \x7da:'x; [' ,\t\x7b b\n c".toList ∧
      layOut "] [ \x7da:'x; [' ,\t\x7b b\n c".toList =
        "] [\x7da:'x; [' ,\n\x7b\n  b c".toList := by
  obtain ⟨-, -, hspacing, -, -, hsame⟩ :=
    layout_follows_law "] [ \x7da:'x; [' ,\t\x7b b\n c".toList (by decide)
  refine ⟨by decide, by decide, hspacing, ?_, by decide⟩
  exact hsame _ (by decide) (by decide +kernel) (by decide +kernel)

end Law

end RouteCatalog.TypeExpr
