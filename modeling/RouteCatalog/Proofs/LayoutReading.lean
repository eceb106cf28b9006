import Mathlib
import RouteCatalog.TypeExpr.Token

/-! Reading a laid-out text. A reader to whom blanks outside literals are only gaps, and who needs
no gap behind an opener or a separator nor before a closer, ends in the same state on a text and on
its layout. The layout is itself such a reader, and so a second layout changes nothing. -/

namespace RouteCatalog.TypeExpr

open Text

variable {c : Char} {bs cs : List Char}

section Classes

theorem isBlank_space : isBlank ' ' = true := by decide

theorem not_isQuote_of_isBlank (h : isBlank c = true) : isQuote c = false := by
  cases hq : isQuote c with
  | false => rfl
  | true => simp [not_isBlank_of_isQuote hq] at h

theorem not_isQuote_of_isMark (h : isMark c = true) : isQuote c = false := by
  simp only [isMark, opensBlock, closesBlock, separates, Bool.or_eq_true, beq_iff_eq] at h
  rcases h with ((rfl | rfl) | (rfl | rfl)) | (rfl | rfl) <;> rfl

def endsLine (c : Char) : Bool := opensBlock c || separates c

theorem isMark_of_endsLine (h : endsLine c = true) : isMark c = true := by
  simp only [endsLine, Bool.or_eq_true] at h
  rcases h with h | h <;> simp [isMark, h]

theorem isMark_of_closesBlock (h : closesBlock c = true) : isMark c = true := by
  simp [isMark, h]

theorem not_opensBlock_of_closesBlock (h : closesBlock c = true) : opensBlock c = false := by
  simp only [closesBlock, Bool.or_eq_true, beq_iff_eq] at h
  rcases h with rfl | rfl <;> rfl

end Classes

namespace Quoting

variable {q : Quoting}

/-- A literal begins with a quote character. -/
def IsProper : Quoting → Prop
  | outside => True
  | inside quote _ => isQuote quote = true

theorem next_outside (h : isQuote c = false) : outside.next c = outside := by
  simp [next, h]

theorem IsProper.next (hq : q.IsProper) (c : Char) : (q.next c).IsProper := by
  cases q with
  | outside =>
    cases hc : isQuote c with
    | false => simp [Quoting.next, hc, IsProper]
    | true => simp [Quoting.next, hc, IsProper]
  | inside quote escaped =>
    cases escaped with
    | true => exact hq
    | false =>
      simp only [Quoting.next]
      split_ifs
      · exact hq
      · trivial
      · exact hq

theorem IsProper.foldl (hq : q.IsProper) (cs : List Char) : (cs.foldl Quoting.next q).IsProper := by
  induction cs generalizing q with
  | nil => exact hq
  | cons c cs ih => exact ih (hq.next c)

theorem isProper_foldl (cs : List Char) : (cs.foldl Quoting.next outside).IsProper :=
  IsProper.foldl (q := outside) trivial cs

/-- No blank begins a literal or ends one. -/
theorem IsProper.blank_iff (hq : q.IsProper) (hc : isBlank c = true) :
    q.next c = outside ↔ q = outside := by
  cases q with
  | outside => simp [Quoting.next, not_isQuote_of_isBlank hc]
  | inside quote escaped =>
    cases escaped with
    | true => simp [Quoting.next]
    | false =>
      have hne : c ≠ quote := by
        rintro rfl
        simp [IsProper, not_isQuote_of_isBlank hc] at hq
      simp only [Quoting.next, if_neg hne]
      split_ifs <;> simp

theorem IsProper.blanks_iff (hq : q.IsProper) (hbs : ∀ c ∈ bs, isBlank c = true) :
    bs.foldl Quoting.next q = outside ↔ q = outside := by
  induction bs generalizing q with
  | nil => rfl
  | cons b bs ih =>
    obtain ⟨hb, hbs⟩ := List.forall_mem_cons.mp hbs
    exact (ih (hq.next b) hbs).trans (hq.blank_iff hb)

end Quoting

section Pieces

variable {p : Piece} {pieces : List Piece}

def spelled (pieces : List Piece) : List Char := pieces.reverse.flatMap Piece.chars

theorem spelled_cons (p : Piece) (pieces : List Piece) :
    spelled (p :: pieces) = spelled pieces ++ p.chars := by
  simp [spelled]

theorem Piece.chars_ne_nil (p : Piece) : p.chars ≠ [] := by
  cases p <;> simp [Piece.chars]

theorem Piece.isBlank_of_mem_chars (hp : p.isGlyph = false) (hc : c ∈ p.chars) :
    isBlank c = true := by
  cases p with
  | glyph d => cases hp
  | space =>
    rw [List.mem_singleton.mp hc]
    exact isBlank_space
  | lineBreak level =>
    rcases List.mem_cons.mp hc with rfl | hc
    · exact (by decide : isBlank '\n' = true)
    · rw [List.eq_of_mem_replicate hc]
      exact isBlank_space

/-- The pieces up to the last character. -/
def settled (pieces : List Piece) : List Piece := pieces.dropWhile (!·.isGlyph)

/-- What stands behind the last character is a gap, if it is anything. -/
theorem exists_spelled_settled (pieces : List Piece) :
    ∃ bs, spelled pieces = spelled (settled pieces) ++ bs ∧ ∀ c ∈ bs, isBlank c = true := by
  induction pieces with
  | nil => exact ⟨[], rfl, by simp⟩
  | cons p pieces ih =>
    cases hp : p.isGlyph with
    | true => exact ⟨[], by simp [settled, hp], by simp⟩
    | false =>
      obtain ⟨bs, hbs, hblank⟩ := ih
      refine ⟨bs ++ p.chars, ?_, ?_⟩
      · rw [spelled_cons, hbs, List.append_assoc]
        simp [settled, hp]
      · intro c hc
        rcases List.mem_append.mp hc with hc | hc
        · exact hblank c hc
        · exact Piece.isBlank_of_mem_chars hp hc

theorem settled_blank (pieces : List Piece) :
    settled (Layout.blank pieces) = settled pieces := by
  unfold Layout.blank
  split <;> rfl

/-- A closer takes back the gap that stands before it. -/
theorem close_cases (pieces : List Piece) (level : Nat) (c : Char) :
    Layout.close pieces level c = .glyph c :: settled pieces ∨
      Layout.close pieces level c = .glyph c :: .lineBreak level :: settled pieces := by
  unfold Layout.close settled
  simp only
  split
  · split
    · exact .inl rfl
    · exact .inr rfl
  · exact .inr rfl

theorem close_blank (pieces : List Piece) (level : Nat) (c : Char) :
    Layout.close (Layout.blank pieces) level c = Layout.close pieces level c := by
  have h := settled_blank pieces
  unfold settled at h
  unfold Layout.close
  rw [h]

end Pieces

namespace Layout

variable {s : Layout}

theorem chars_eq_spelled (s : Layout) : s.chars = spelled s.pieces := rfl

theorem quoting_step (s : Layout) (c : Char) : (s.step c).quoting = s.quoting.next c := by
  unfold step
  simp only
  split_ifs <;> rfl

theorem quoting_foldl (s : Layout) (cs : List Char) :
    (cs.foldl step s).quoting = cs.foldl Quoting.next s.quoting := by
  induction cs generalizing s with
  | nil => rfl
  | cons c cs ih => rw [List.foldl_cons, ih, quoting_step, List.foldl_cons]

theorem step_endsLine (hs : s.quoting = .outside) (hc : endsLine c = true) :
    ∃ level, s.step c = ⟨.lineBreak level :: .glyph c :: s.pieces, level, .outside⟩ := by
  have hquote := not_isQuote_of_isMark (isMark_of_endsLine hc)
  by_cases hopen : opensBlock c = true
  · exact ⟨s.level + 1, by simp [step, hs, hquote, hopen, Quoting.next]⟩
  · have hsep : separates c = true := by simpa [endsLine, hopen] using hc
    have hclose : closesBlock c = false := by
      simp only [separates, Bool.or_eq_true, beq_iff_eq] at hsep
      rcases hsep with rfl | rfl <;> rfl
    exact ⟨s.level, by simp [step, hs, hquote, hopen, hclose, hsep, Quoting.next]⟩

theorem step_closesBlock (hs : s.quoting = .outside) (hc : closesBlock c = true) :
    s.step c = ⟨close s.pieces (s.level - 1) c, s.level - 1, .outside⟩ := by
  have hquote := not_isQuote_of_isMark (isMark_of_closesBlock hc)
  have hopen := not_opensBlock_of_closesBlock hc
  simp [step, hs, hquote, hopen, hc, Quoting.next]

theorem step_isBlank (hs : s.quoting = .outside) (hc : isBlank c = true) :
    s.step c = ⟨blank s.pieces, s.level, .outside⟩ := by
  have hquote := not_isQuote_of_isBlank hc
  have hmark : isMark c = false := by
    cases hm : isMark c with
    | false => rfl
    | true => simp [not_isBlank_of_isMark hm] at hc
  simp only [isMark, Bool.or_eq_false_iff] at hmark
  simp [step, hs, hquote, hmark, hc, Quoting.next]

theorem pieces_step_inside (hs : s.quoting ≠ .outside) (c : Char) :
    (s.step c).pieces = .glyph c :: s.pieces := by
  simp [step, hs]

theorem step_cases (s : Layout) (c : Char) :
    (s.step c).pieces = .glyph c :: s.pieces ∨
      s.quoting = .outside ∧ (endsLine c = true ∨ closesBlock c = true ∨ isBlank c = true) := by
  by_cases hlit : s.quoting ≠ .outside ∨ isQuote c = true
  · exact .inl (by simp only [step, if_pos hlit])
  · have hs : s.quoting = .outside := by simpa using (not_or.mp hlit).1
    simp only [step, if_neg hlit]
    split_ifs with hopen hclose hsep hblank
    · exact .inr ⟨hs, .inl (by simp [endsLine, hopen])⟩
    · exact .inr ⟨hs, .inr (.inl hclose)⟩
    · exact .inr ⟨hs, .inl (by simp [endsLine, hsep])⟩
    · exact .inr ⟨hs, .inr (.inr hblank)⟩
    · exact .inl rfl

end Layout

/-- A reader that takes blanks outside literals only as gaps: all of them alike, a longer gap like
a short one, and none at the beginning of a text, behind a mark that ends a line or before a
closer. -/
structure IgnoresLayout {σ : Type} (start : σ) (step : σ → Char → σ) (quoting : σ → Quoting) :
    Prop where
  quoting_start : quoting start = .outside
  quoting_step : ∀ t c, quoting (step t c) = (quoting t).next c
  at_start : ∀ b, isBlank b = true → step start b = start
  alike : ∀ t b d, quoting t = .outside → isBlank b = true → isBlank d = true →
    step t b = step t d
  longer : ∀ t b, quoting t = .outside → isBlank b = true → step (step t b) b = step t b
  behind : ∀ t b c, quoting t = .outside → isBlank b = true → endsLine c = true →
    step (step t c) b = step t c
  before : ∀ t b c, quoting t = .outside → isBlank b = true → closesBlock c = true →
    step (step t b) c = step t c

namespace IgnoresLayout

variable {σ : Type} {start : σ} {step : σ → Char → σ} {quoting : σ → Quoting}
  (h : IgnoresLayout start step quoting)
include h

theorem quoting_foldl (t : σ) (cs : List Char) :
    quoting (cs.foldl step t) = cs.foldl Quoting.next (quoting t) := by
  induction cs generalizing t with
  | nil => rfl
  | cons c cs ih => rw [List.foldl_cons, ih, h.quoting_step, List.foldl_cons]

theorem quoting_read (cs : List Char) :
    quoting (cs.foldl step start) = cs.foldl Quoting.next .outside := by
  rw [h.quoting_foldl, h.quoting_start]

theorem quoting_step_of_not_isQuote {t : σ} (ht : quoting t = .outside) (hc : isQuote c = false) :
    quoting (step t c) = .outside := by
  rw [h.quoting_step, ht, Quoting.next_outside hc]

/-- A gap counts as one space, however long it is. -/
theorem foldl_blanks {t : σ} (ht : quoting t = .outside) (hbs : ∀ c ∈ bs, isBlank c = true) :
    bs.foldl step t = t ∨ bs.foldl step t = step t ' ' := by
  induction bs using List.reverseRecOn with
  | nil => exact .inl rfl
  | append_singleton bs b ih =>
    have hb : isBlank b = true := hbs b (by simp)
    rw [List.foldl_concat]
    rcases ih fun c hc => hbs c (by simp [hc]) with heq | heq
    · exact .inr (by rw [heq, h.alike t b ' ' ht hb isBlank_space])
    · right
      have hout := h.quoting_step_of_not_isQuote ht (not_isQuote_of_isBlank isBlank_space)
      rw [heq, h.alike _ b ' ' hout hb isBlank_space, h.longer t ' ' ht isBlank_space]

theorem foldl_gap {t : σ} (ht : quoting t = .outside) {p : Piece} (hp : p.isGlyph = false) :
    p.chars.foldl step t = step t ' ' := by
  cases hchars : p.chars with
  | nil => exact (p.chars_ne_nil hchars).elim
  | cons b bs =>
    have hblank : ∀ c ∈ b :: bs, isBlank c = true := by
      intro c hc
      exact Piece.isBlank_of_mem_chars hp (hchars ▸ hc)
    obtain ⟨hb, hbs⟩ := List.forall_mem_cons.mp hblank
    have hout := h.quoting_step_of_not_isQuote ht (not_isQuote_of_isBlank isBlank_space)
    rw [List.foldl_cons, h.alike t b ' ' ht hb isBlank_space]
    rcases h.foldl_blanks hout hbs with heq | heq
    · exact heq
    · rw [heq, h.longer t ' ' ht isBlank_space]

/-- Behind a gap and at the beginning of a text, a blank makes no difference. -/
theorem read_blank {s : Layout} (hs : quoting (s.chars.foldl step start) = .outside)
    (hc : isBlank c = true) :
    (spelled (Layout.blank s.pieces)).foldl step start = step (s.chars.foldl step start) c := by
  have hread : s.chars = spelled s.pieces := rfl
  cases hpieces : s.pieces with
  | nil =>
    rw [hread, hpieces]
    exact (h.at_start c hc).symm
  | cons p rest =>
    rw [hread, hpieces] at hs ⊢
    cases hp : p.isGlyph with
    | true =>
      have hblank : Layout.blank (p :: rest) = .space :: p :: rest := by
        cases p with
        | glyph d => rfl
        | _ => cases hp
      rw [hblank, spelled_cons, List.foldl_append]
      exact h.alike _ ' ' c hs isBlank_space hc
    | false =>
      have hblank : Layout.blank (p :: rest) = p :: rest := by
        cases p with
        | glyph d => cases hp
        | _ => rfl
      -- The gap is read from outside, since no blank ends a literal.
      rw [spelled_cons, h.quoting_read, List.foldl_append] at hs
      have hout : quoting ((spelled rest).foldl step start) = .outside := by
        rw [h.quoting_read]
        apply ((Quoting.isProper_foldl (spelled rest)).blanks_iff _).mp hs
        intro d hd
        exact Piece.isBlank_of_mem_chars hp hd
      rw [hblank, spelled_cons, List.foldl_append, h.foldl_gap hout hp]
      have hout' := h.quoting_step_of_not_isQuote hout (not_isQuote_of_isBlank isBlank_space)
      rw [h.alike _ c ' ' hout' hc isBlank_space, h.longer _ ' ' hout isBlank_space]

theorem read_close {s : Layout} (hs : quoting (s.chars.foldl step start) = .outside)
    (hc : closesBlock c = true) (level : Nat) :
    (spelled (Layout.close s.pieces level c)).foldl step start =
      step (s.chars.foldl step start) c := by
  obtain ⟨bs, hbs, hblank⟩ := exists_spelled_settled s.pieces
  rw [Layout.chars_eq_spelled, hbs] at hs ⊢
  generalize hu : (spelled (settled s.pieces)).foldl step start = u
  have hout : quoting u = .outside := by
    rw [h.quoting_read, List.foldl_append] at hs
    rw [← hu, h.quoting_read]
    exact ((Quoting.isProper_foldl _).blanks_iff hblank).mp hs
  -- The closer is read the same with the gap before it and without.
  have hgap : step (bs.foldl step u) c = step u c := by
    rcases h.foldl_blanks hout hblank with heq | heq
    · rw [heq]
    · rw [heq, h.before u ' ' c hout isBlank_space hc]
  rw [List.foldl_append, hu, hgap]
  rcases close_cases s.pieces level c with heq | heq
  · rw [heq, spelled_cons, List.foldl_append, hu]
    rfl
  · rw [heq, spelled_cons, spelled_cons, List.foldl_append, List.foldl_append, hu,
      h.foldl_gap hout rfl]
    exact h.before u ' ' c hout isBlank_space hc

theorem read_step {s : Layout} (hs : quoting (s.chars.foldl step start) = s.quoting) (c : Char) :
    (s.step c).chars.foldl step start = step (s.chars.foldl step start) c := by
  rcases s.step_cases c with hpieces | ⟨hout, hc⟩
  · rw [Layout.chars_eq_spelled, hpieces, spelled_cons, List.foldl_append]
    rfl
  rw [hout] at hs
  rcases hc with hc | hc | hc
  · obtain ⟨level, hstep⟩ := Layout.step_endsLine hout hc
    have hquote := not_isQuote_of_isMark (isMark_of_endsLine hc)
    have hafter := h.quoting_step_of_not_isQuote hs hquote
    rw [Layout.chars_eq_spelled, hstep, spelled_cons, spelled_cons, List.foldl_append,
      List.foldl_append]
    exact (h.foldl_gap hafter rfl).trans (h.behind _ ' ' c hs isBlank_space hc)
  · rw [Layout.chars_eq_spelled, Layout.step_closesBlock hout hc]
    exact h.read_close hs hc _
  · rw [Layout.chars_eq_spelled, Layout.step_isBlank hout hc]
    exact h.read_blank hs hc

/-- A text and what is laid out for it are read alike. -/
theorem read_layout (cs : List Char) :
    (cs.foldl Layout.step .start).chars.foldl step start = cs.foldl step start := by
  induction cs using List.reverseRecOn with
  | nil => rfl
  | append_singleton cs c ih =>
    have hs : quoting ((cs.foldl Layout.step .start).chars.foldl step start) =
        (cs.foldl Layout.step .start).quoting := by
      rw [ih, h.quoting_read, Layout.quoting_foldl]
      rfl
    rw [List.foldl_concat, List.foldl_concat, h.read_step hs, ih]

theorem read_dropWhile (cs : List Char) :
    (cs.dropWhile isBlank).foldl step start = cs.foldl step start := by
  induction cs with
  | nil => rfl
  | cons c cs ih =>
    cases hc : isBlank c with
    | false => simp [hc]
    | true => simpa [hc, h.at_start c hc] using ih

/-- A text is read like its trimmed form with some blanks behind. -/
theorem exists_read_trim (cs : List Char) :
    ∃ bs : List Char, (∀ c ∈ bs, isBlank c = true) ∧
      cs.foldl step start = bs.foldl step ((trim cs).foldl step start) := by
  refine ⟨(cs.dropWhile isBlank).rtakeWhile isBlank, fun c hc => List.mem_rtakeWhile_imp hc, ?_⟩
  have htrim : trim cs ++ (cs.dropWhile isBlank).rtakeWhile isBlank = cs.dropWhile isBlank :=
    List.rdropWhile_append_rtakeWhile
  rw [← List.foldl_append, htrim, h.read_dropWhile]

end IgnoresLayout

namespace Layout

theorem blank_blank (pieces : List Piece) : blank (blank pieces) = blank pieces := by
  unfold blank
  cases pieces with
  | nil => rfl
  | cons p rest => cases p <;> rfl

theorem ignoresLayout : IgnoresLayout start step quoting where
  quoting_start := rfl
  quoting_step := quoting_step
  at_start b hb := step_isBlank rfl hb
  alike t b d ht hb hd := by rw [step_isBlank ht hb, step_isBlank ht hd]
  longer t b ht hb := by
    rw [step_isBlank ht hb, step_isBlank rfl hb, blank_blank]
  behind t b c ht hb hc := by
    obtain ⟨level, hstep⟩ := step_endsLine ht hc
    rw [hstep, step_isBlank rfl hb]
    rfl
  before t b c ht hb hc := by
    rw [step_isBlank ht hb, step_closesBlock rfl hc, step_closesBlock ht hc, close_blank]

end Layout

section Stability

theorem trim_append_blank (cs : List Char) (hc : isBlank c = true) :
    trim (cs ++ [c]) = trim cs := by
  have hconcat : ∀ l : List Char, (l ++ [c]).rdropWhile isBlank = l.rdropWhile isBlank :=
    fun l => List.rdropWhile_concat_pos isBlank l c hc
  change ((cs ++ [c]).dropWhile isBlank).rdropWhile isBlank =
    (cs.dropWhile isBlank).rdropWhile isBlank
  rw [List.dropWhile_append]
  split
  · rename_i hempty
    rw [List.isEmpty_iff.mp hempty]
    simp [hc]
  · exact hconcat _

/-- Blanks at the end of a text do not show in its layout. -/
theorem trim_chars_step (s : Layout) (hc : isBlank c = true) :
    trim (s.step c).chars = trim s.chars := by
  by_cases hs : s.quoting = .outside
  · rw [Layout.chars_eq_spelled, Layout.step_isBlank hs hc]
    have hblank : Layout.blank s.pieces = s.pieces ∨
        Layout.blank s.pieces = .space :: s.pieces := by
      unfold Layout.blank
      split
      · exact .inr rfl
      · exact .inl rfl
    rcases hblank with heq | heq
    · simp only [heq]
      rfl
    · simp only [heq]
      rw [spelled_cons]
      exact trim_append_blank _ isBlank_space
  · rw [Layout.chars_eq_spelled, Layout.pieces_step_inside hs, spelled_cons]
    exact trim_append_blank _ hc

theorem trim_chars_foldl (s : Layout) (hbs : ∀ c ∈ bs, isBlank c = true) :
    trim (bs.foldl Layout.step s).chars = trim s.chars := by
  induction bs generalizing s with
  | nil => rfl
  | cons b bs ih =>
    obtain ⟨hb, hbs⟩ := List.forall_mem_cons.mp hbs
    rw [List.foldl_cons, ih _ hbs, trim_chars_step s hb]

/-- A laid-out text stays as it is, whatever stands in it: brackets without partner, literals
without end, any blanks. -/
theorem layOut_layOut (cs : List Char) : layOut (layOut cs) = layOut cs := by
  have hread := Layout.ignoresLayout.read_layout cs
  obtain ⟨bs, hbs, htrim⟩ :=
    Layout.ignoresLayout.exists_read_trim (cs.foldl Layout.step .start).chars
  rw [hread] at htrim
  calc layOut (layOut cs) = trim ((layOut cs).foldl Layout.step .start).chars := rfl
    _ = trim (bs.foldl Layout.step ((layOut cs).foldl Layout.step .start)).chars :=
      (trim_chars_foldl _ hbs).symm
    _ = layOut cs := congrArg (fun s : Layout => trim s.chars) htrim.symm

end Stability

end RouteCatalog.TypeExpr
