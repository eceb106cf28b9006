import RouteCatalog.Proofs.LayoutReading

/-! The layout of a type expression has the tokens of the expression. Only a literal that the text
leaves open can lose something: the blanks at its end, which are the end of the text. -/

namespace RouteCatalog.TypeExpr

open Text

variable {c : Char} {bs cs : List Char}

section Trimming

theorem not_isBlank_of_getLast?_trim (h : (trim cs).getLast? = some c) : isBlank c = false := by
  have hlast := List.rdropWhile_last_not isBlank (cs.dropWhile isBlank)
  change (List.rdropWhile isBlank (cs.dropWhile isBlank)).getLast? = some c at h
  obtain ⟨hne, rfl⟩ := List.mem_getLast?_eq_getLast h
  simpa using hlast hne

theorem rdropWhile_append_blanks {body : List Char} (hbs : ∀ c ∈ bs, isBlank c = true)
    (hbody : ∀ c, body.getLast? = some c → isBlank c = false) :
    (body ++ bs).rdropWhile isBlank = body := by
  induction bs using List.reverseRecOn with
  | nil =>
    rw [List.append_nil, List.rdropWhile_eq_self_iff]
    intro hne
    simp [hbody _ (List.getLast?_eq_some_getLast hne)]
  | append_singleton bs b ih =>
    rw [← List.append_assoc, List.rdropWhile_concat_pos isBlank _ _ (hbs b (by simp))]
    exact ih fun c hc => hbs c (by simp [hc])

end Trimming

namespace TokenReader

variable {r : TokenReader}

theorem step_isBlank (hr : r.quoting = .outside) (hc : isBlank c = true) :
    r.step c = ⟨r.endWord, [], .outside⟩ := by
  have hquote := not_isQuote_of_isBlank hc
  have hmark : isMark c = false := by
    cases hm : isMark c with
    | false => rfl
    | true => simp [not_isBlank_of_isMark hm] at hc
  simp [step, hr, hquote, hmark, hc]

theorem step_isMark (hr : r.quoting = .outside) (hc : isMark c = true) :
    r.step c = ⟨.mark c :: r.endWord, [], .outside⟩ := by
  simp [step, hr, not_isQuote_of_isMark hc, hc]

/-- A character that leaves the reader inside a literal is the last one of the literal so far. -/
theorem head?_current_step (h : (r.step c).quoting ≠ .outside) :
    (r.step c).current.head? = some c := by
  rcases r with ⟨finished, current, quoting⟩
  cases quoting with
  | inside quote escaped =>
    simp only [step] at h ⊢
    split_ifs at h ⊢ with hnext
    · exact (h rfl).elim
    · rfl
  | outside =>
    simp only [step] at h ⊢
    split_ifs at h ⊢
    · rfl
    all_goals exact (h rfl).elim

theorem head?_current (h : (cs.foldl step start).quoting ≠ .outside) :
    (cs.foldl step start).current.head? = cs.getLast? := by
  induction cs using List.reverseRecOn with
  | nil => exact (h rfl).elim
  | append_singleton cs c _ =>
    rw [List.foldl_concat] at h ⊢
    rw [head?_current_step h, List.getLast?_concat]

theorem ignoresLayout : IgnoresLayout start step quoting where
  quoting_start := rfl
  quoting_step := quoting_step
  at_start b hb := step_isBlank rfl hb
  alike r b d hr hb hd := by rw [step_isBlank hr hb, step_isBlank hr hd]
  longer r b hr hb := by
    rw [step_isBlank hr hb, step_isBlank rfl hb]
    rfl
  behind r b c hr hb hc := by
    rw [step_isMark hr (isMark_of_endsLine hc), step_isBlank rfl hb]
    rfl
  before r b c hr hb hc := by
    have hmark := isMark_of_closesBlock hc
    rw [step_isBlank hr hb, step_isMark rfl hmark, step_isMark hr hmark]
    rfl

theorem tokens_of_outside (hr : r.quoting = .outside) : r.tokens = r.endWord.reverse := by
  simp [tokens, hr]

theorem tokens_of_inside (hr : r.quoting ≠ .outside) :
    r.tokens = r.finished.reverse ++ [.literal r.current.reverse] := by
  rcases r with ⟨finished, current, quoting⟩
  cases quoting with
  | outside => exact (hr rfl).elim
  | inside quote escaped => simp [tokens, endLiteral]

/-- Outside literals, blanks at the end add nothing to the tokens. -/
theorem tokens_foldl_blanks (hr : r.quoting = .outside) (hbs : ∀ c ∈ bs, isBlank c = true) :
    (bs.foldl step r).tokens = r.tokens := by
  induction bs generalizing r with
  | nil => rfl
  | cons b bs ih =>
    obtain ⟨hb, hbs⟩ := List.forall_mem_cons.mp hbs
    rw [List.foldl_cons, step_isBlank hr hb, ih rfl hbs, tokens_of_outside hr,
      tokens_of_outside rfl]
    rfl

/-- Inside a literal, blanks at the end of the text belong to the literal. -/
theorem foldl_blanks_inside (hproper : r.quoting.IsProper) (hr : r.quoting ≠ .outside)
    (hbs : ∀ c ∈ bs, isBlank c = true) :
    (bs.foldl step r).finished = r.finished ∧
      (bs.foldl step r).current = bs.reverse ++ r.current := by
  induction bs generalizing r with
  | nil => exact ⟨rfl, rfl⟩
  | cons b bs ih =>
    obtain ⟨hb, hbs⟩ := List.forall_mem_cons.mp hbs
    have hnext : r.quoting.next b ≠ .outside := mt (hproper.blank_iff hb).mp hr
    have hstep : r.step b = ⟨r.finished, b :: r.current, r.quoting.next b⟩ := by
      rcases r with ⟨finished, current, quoting⟩
      cases quoting with
      | outside => exact (hr rfl).elim
      | inside quote escaped => simp only [step, if_neg hnext]
    have hproper' : (r.step b).quoting.IsProper := by
      rw [hstep]
      exact hproper.next b
    obtain ⟨hfinished, hcurrent⟩ := ih hproper' (by rw [hstep]; exact hnext) hbs
    rw [List.foldl_cons, hfinished, hcurrent, hstep]
    exact ⟨rfl, by simp⟩

/-- Blanks behind an open literal lengthen the literal and change nothing else. -/
theorem tokens_foldl_blanks_inside (hproper : r.quoting.IsProper) (hr : r.quoting ≠ .outside)
    (hbs : ∀ c ∈ bs, isBlank c = true) (hlast : ∀ c, r.current.head? = some c → isBlank c = false) :
    ∃ before body, (bs.foldl step r).tokens = before ++ [.literal body] ∧
      r.tokens = before ++ [.literal (body.rdropWhile isBlank)] := by
  have hr' : (bs.foldl step r).quoting ≠ .outside := by
    rw [ignoresLayout.quoting_foldl]
    exact mt (hproper.blanks_iff hbs).mp hr
  obtain ⟨hfinished, hcurrent⟩ := foldl_blanks_inside hproper hr hbs
  refine ⟨r.finished.reverse, r.current.reverse ++ bs, ?_, ?_⟩
  · rw [tokens_of_inside hr', hfinished, hcurrent]
    simp
  · rw [tokens_of_inside hr, rdropWhile_append_blanks hbs]
    intro c hc
    rw [List.getLast?_reverse] at hc
    exact hlast c hc

end TokenReader

/-- Laying out changes no token, and tokens leave out nothing but the blanks outside literals. A
literal that is still open at the end of the text ends with its last character that is not blank. -/
theorem tokens_layOut (cs : List Char) :
    (tokens cs).flatMap Token.chars = solid .outside cs ∧
    (closesLiterals cs = true → tokens (layOut cs) = tokens cs) ∧
      (closesLiterals cs = false → ∃ before body, tokens cs = before ++ [.literal body] ∧
        tokens (layOut cs) = before ++ [.literal (body.rdropWhile isBlank)]) := by
  have hignores := TokenReader.ignoresLayout
  have hproper : ((layOut cs).foldl TokenReader.step .start).quoting.IsProper := by
    rw [hignores.quoting_read]
    exact Quoting.isProper_foldl (layOut cs)
  obtain ⟨bs, hbs, hread⟩ := hignores.exists_read_trim (cs.foldl Layout.step .start).chars
  rw [hignores.read_layout] at hread
  change _ = bs.foldl TokenReader.step ((layOut cs).foldl TokenReader.step .start) at hread
  have hcloses : closesLiterals cs = true ↔
      ((layOut cs).foldl TokenReader.step .start).quoting = .outside := by
    rw [closesLiterals, beq_iff_eq, ← hignores.quoting_read, hread, hignores.quoting_foldl]
    exact hproper.blanks_iff hbs
  refine ⟨chars_tokens cs, ?_⟩
  unfold tokens
  rw [hread]
  constructor
  · intro hclosed
    exact (TokenReader.tokens_foldl_blanks (hcloses.mp hclosed) hbs).symm
  · intro hopen
    have hin := mt hcloses.mpr (ne_true_of_eq_false hopen)
    apply TokenReader.tokens_foldl_blanks_inside hproper hin hbs
    intro c hc
    rw [TokenReader.head?_current hin] at hc
    exact not_isBlank_of_getLast?_trim hc

/-- Marks, blanks and an escaped quote stand in literals, one of which is left open. -/
theorem mixed_keeps_tokens :
    closesLiterals "\x7b a:'x; \x7b' ,]\n\"\\\"[ \"b \x7d ".toList = true ∧
      tokens (layOut "\x7b a:'x; \x7b' ,]\n\"\\\"[ \"b \x7d ".toList) =
        [.mark '{', .word "a:".toList, .literal "'x; \x7b'".toList, .mark ',', .mark ']',
          .literal "\"\\\"[ \"".toList, .word ['b'], .mark '}'] ∧
      closesLiterals "[ b ; 'it\\'s \x7d  \t".toList = false ∧
      ∃ before body, tokens "[ b ; 'it\\'s \x7d  \t".toList = before ++ [.literal body] ∧
        tokens (layOut "[ b ; 'it\\'s \x7d  \t".toList) =
          before ++ [.literal (body.rdropWhile isBlank)] := by
  obtain ⟨-, hclosed, -⟩ := tokens_layOut "\x7b a:'x; \x7b' ,]\n\"\\\"[ \"b \x7d ".toList
  obtain ⟨-, -, hopen⟩ := tokens_layOut "[ b ; 'it\\'s \x7d  \t".toList
  refine ⟨by decide, ?_, by decide, hopen (by decide)⟩
  rw [hclosed (by decide)]
  decide

end RouteCatalog.TypeExpr
