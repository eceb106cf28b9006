import Mathlib
import RouteCatalog.Path

/-! Normalized file names. A path is read back from its text as it is, so that a name which is
normalized already stays the same. -/

namespace RouteCatalog

namespace Text

variable {separator : Char} {cs : List Char}

theorem pieces_eq_splitOn : pieces separator cs = cs.splitOn separator := by
  rw [List.splitOn_eq_splitOnP]
  induction cs with
  | nil => rfl
  | cons c cs ih =>
    unfold pieces
    rw [ih, List.splitOnP_cons_eq_if_modifyHead]
    by_cases hc : c = separator
    · simp [hc]
    · rw [if_neg hc, if_neg (by simpa using hc)]
      cases hrest : cs.splitOnP (· == separator) with
      | nil => exact (List.splitOnP_ne_nil _ _ hrest).elim
      | cons piece rest => rfl

theorem pieces_replicate (n : Nat) (cs : List Char) :
    pieces separator (List.replicate n separator ++ cs) =
      List.replicate n [] ++ pieces separator cs := by
  induction n with
  | zero => rfl
  | succ n ih => simp [List.replicate_succ, pieces, ih]

theorem of_mem_pieces {piece : List Char} {c : Char} (hpiece : piece ∈ pieces separator cs)
    (hc : c ∈ piece) : c ∈ cs ∧ c ≠ separator := by
  induction cs generalizing piece with
  | nil =>
    rw [List.mem_singleton.mp hpiece] at hc
    cases hc
  | cons d cs ih =>
    unfold pieces at hpiece
    split_ifs at hpiece with hd
    · rcases List.mem_cons.mp hpiece with rfl | hpiece
      · cases hc
      · exact (ih hpiece hc).imp_left (List.mem_cons_of_mem d)
    · cases hrest : pieces separator cs with
      | nil => exact (pieces_ne_nil _ _ hrest).elim
      | cons first rest =>
        simp only [hrest] at hpiece ih
        rcases List.mem_cons.mp hpiece with rfl | hpiece
        · rcases List.mem_cons.mp hc with rfl | hc
          · exact ⟨List.mem_cons_self, hd⟩
          · exact (ih List.mem_cons_self hc).imp_left (List.mem_cons_of_mem d)
        · exact (ih (List.mem_cons_of_mem first hpiece) hc).imp_left (List.mem_cons_of_mem d)

theorem of_mem_intercalate {names : List (List Char)} {c : Char}
    (hc : c ∈ [separator].intercalate names) : c = separator ∨ ∃ name ∈ names, c ∈ name := by
  induction names with
  | nil => simp at hc
  | cons name names ih =>
    cases names with
    | nil => exact .inr ⟨name, List.mem_cons_self, by simpa using hc⟩
    | cons next names =>
      rw [List.intercalate_cons_of_ne_nil (by simp)] at hc
      rcases List.mem_append.mp hc with hc | hc
      · rcases List.mem_append.mp hc with hc | hc
        · exact .inr ⟨name, List.mem_cons_self, hc⟩
        · exact .inl (List.mem_singleton.mp hc)
      · refine (ih hc).imp_right ?_
        rintro ⟨name', hname', hc⟩
        exact ⟨name', List.mem_cons_of_mem name hname', hc⟩

end Text

namespace Path

open Text

variable {p : Path} {s : String} {c : Char}

/-- A path as it is read from a text: it begins with at most two slashes, and none of its parts is
empty, a single dot or parted by a slash. -/
structure IsClean (p : Path) : Prop where
  root : p.root ≤ 2
  parts : ∀ part ∈ p.parts, part ≠ "" ∧ part ≠ "." ∧ '/' ∉ part.toList

theorem of_mem_parts_ofText {part : String} (hpart : part ∈ (ofText s).parts) (hc : c ∈ part.toList) :
    c ∈ s.toList ∧ c ≠ '/' := by
  obtain ⟨piece, hpiece, rfl⟩ := List.mem_map.mp hpart
  rw [String.toList_ofList] at hc
  exact of_mem_pieces (List.mem_filter.mp hpiece).1 hc

theorem isClean_ofText (s : String) : (ofText s).IsClean where
  root := by
    unfold ofText
    dsimp only
    split_ifs <;> omega
  parts part hpart := by
    have hslash : '/' ∉ part.toList := fun hmem => (of_mem_parts_ofText hpart hmem).2 rfl
    obtain ⟨piece, hpiece, rfl⟩ := List.mem_map.mp hpart
    have hkept := (List.mem_filter.mp hpiece).2
    simp only [Bool.and_eq_true, Bool.not_eq_true', bne_iff_ne, List.isEmpty_eq_false_iff] at hkept
    refine ⟨fun hempty => hkept.1 ?_, fun hdot => hkept.2 ?_, hslash⟩
    · simpa using congrArg String.toList hempty
    · simpa using congrArg String.toList hdot

theorem toList_text (hparts : p.parts ≠ []) : p.text.toList =
    List.replicate p.root '/' ++ ['/'].intercalate (p.parts.map String.toList) := by
  simp [text, hparts]

theorem IsClean.of_mem_names (h : p.IsClean) {name : List Char}
    (hname : name ∈ p.parts.map String.toList) : name ≠ [] ∧ name ≠ ['.'] ∧ '/' ∉ name := by
  obtain ⟨part, hpart, rfl⟩ := List.mem_map.mp hname
  obtain ⟨hempty, hdot, hslash⟩ := h.parts part hpart
  exact ⟨fun heq => hempty (String.toList_inj.mp heq), fun heq => hdot (String.toList_inj.mp heq),
    hslash⟩

/-- After its slashes the text goes on with the first part, which begins with another character. -/
theorem IsClean.slashes_text (h : p.IsClean) (hparts : p.parts ≠ []) :
    p.text.toList.takeWhile (· == '/') = List.replicate p.root '/' := by
  rw [toList_text hparts, List.takeWhile_append_of_pos (by simp)]
  obtain ⟨first, rest, hrest⟩ := List.exists_cons_of_ne_nil hparts
  obtain ⟨tail, htail⟩ : ∃ tail, ['/'].intercalate (p.parts.map String.toList) =
      first.toList ++ tail := by
    rw [hrest]
    cases rest with
    | nil => exact ⟨[], by simp⟩
    | cons second rest =>
      exact ⟨_, (List.intercalate_cons_of_ne_nil (by simp)).trans (List.append_assoc _ _ _)⟩
  obtain ⟨hne, -, hslash⟩ := h.of_mem_names (List.mem_map_of_mem (hrest ▸ List.mem_cons_self))
  obtain ⟨c, cs, hcs⟩ := List.exists_cons_of_ne_nil hne
  have hc : c ≠ '/' := fun heq => hslash (by simp [hcs, heq])
  rw [htail, hcs, List.cons_append, List.takeWhile_cons_of_neg (by simpa using hc), List.append_nil]

theorem IsClean.pieces_text (h : p.IsClean) (hparts : p.parts ≠ []) :
    pieces '/' p.text.toList = List.replicate p.root [] ++ p.parts.map String.toList := by
  rw [toList_text hparts, pieces_replicate, pieces_eq_splitOn,
    List.splitOn_intercalate '/' (fun name hname => (h.of_mem_names hname).2.2) (by simpa using hparts)]

/-- Reading a path back takes off its slashes and cuts the rest where it was put together. -/
theorem IsClean.ofText_text (h : p.IsClean) : ofText p.text = p := by
  by_cases hparts : p.parts = []
  · obtain ⟨root, parts⟩ := p
    have hroot : root ≤ 2 := h.root
    cases hparts
    interval_cases root <;> decide
  · have hkept : (List.replicate p.root [] ++ p.parts.map String.toList).filter
        (fun p => !p.isEmpty && p != ['.']) = p.parts.map String.toList := by
      rw [List.filter_append, List.filter_replicate, if_neg (by simp), List.nil_append,
        List.filter_eq_self]
      intro name hname
      obtain ⟨hempty, hdot, -⟩ := h.of_mem_names hname
      simp [hempty, hdot]
    unfold ofText
    simp only [h.slashes_text hparts, h.pieces_text hparts, hkept, List.length_replicate]
    obtain ⟨root, parts⟩ := p
    have hroot : root ≤ 2 := h.root
    dsimp only
    congr 1
    · split_ifs <;> omega
    · simp [Function.comp_def]

/-- A text of a path holds slashes, a dot for the empty path, and what its parts hold. -/
theorem of_mem_text (hc : c ∈ p.text.toList) :
    c = '/' ∨ c = '.' ∨ ∃ part ∈ p.parts, c ∈ part.toList := by
  unfold text at hc
  split_ifs at hc
  · exact .inr (.inl (by simpa using hc))
  · rw [String.toList_append, String.toList_ofList, String.toList_intercalate] at hc
    rcases List.mem_append.mp hc with hc | hc
    · exact .inl (List.eq_of_mem_replicate hc)
    · refine (of_mem_intercalate hc).imp_right fun ⟨name, hname, hc⟩ => .inr ?_
      obtain ⟨part, hpart, rfl⟩ := List.mem_map.mp hname
      exact ⟨part, hpart, hc⟩

end Path

theorem fileKey_fileKey (s : String) : fileKey (fileKey s) = fileKey s := by
  set slashed := String.ofList (s.toList.map fun c => if c = '\\' then '/' else c) with hslashed
  have hbackslash : ∀ c ∈ (fileKey s).toList, c ≠ '\\' := by
    intro c hc
    rcases Path.of_mem_text hc with rfl | rfl | ⟨part, hpart, hc⟩
    · decide
    · decide
    · have hmem := (Path.of_mem_parts_ofText hpart hc).1
      rw [String.toList_ofList] at hmem
      obtain ⟨d, -, rfl⟩ := List.mem_map.mp hmem
      split_ifs with hd
      · decide
      · exact hd
  have hsame : String.ofList ((fileKey s).toList.map fun c => if c = '\\' then '/' else c) =
      fileKey s := by
    rw [List.map_congr_left fun c hc => if_neg (hbackslash c hc), List.map_id'', String.ofList_toList]
    simp
  rw [fileKey, hsame]
  exact congrArg Path.text (Path.isClean_ofText slashed).ofText_text

end RouteCatalog
