import Mathlib
import RouteCatalog.Json.Reading

/-! Quoted text is read back. Every character is written in one of three forms, by itself, after a
backslash or by its code units, and the reader takes each form for the character and leaves what
follows. So quoting loses nothing, and no two texts have one quoted form. -/

namespace RouteCatalog.Text

variable {c : Char} {n u : Nat} {cs rest : List Char}

section Digits

theorem hexValue?_hexDigit (n : Nat) : hexValue? (hexDigit n) = some (n % 16) := by
  have hdigit : ∀ d < 16, hexValue? (Nat.digitChar d) = some d := by decide
  exact hdigit (n % 16) (Nat.mod_lt n (by decide))

namespace Quoted

theorem takeUnit_hexDigits (hu : u < 0x10000) (rest : List Char) :
    takeUnit (hexDigits 4 u ++ rest) = some (u, rest) := by
  have hdigits : hexDigits 4 u =
      [hexDigit (u / 16 / 16 / 16), hexDigit (u / 16 / 16), hexDigit (u / 16), hexDigit u] := rfl
  have hvalue : ((u / 16 / 16 / 16 % 16 * 16 + u / 16 / 16 % 16) * 16 + u / 16 % 16) * 16 + u % 16 =
      u := by omega
  rw [hdigits]
  simp only [List.cons_append, List.nil_append, takeUnit, hexValue?_hexDigit]
  exact congrArg (fun v => some (v, rest)) hvalue

end Quoted

end Digits

namespace Quoted

section Units

/-- A character below U+10000 is no surrogate, so that its one unit stands for it. -/
theorem takeUnits_of_lt (h : c.toNat < 0x10000) (rest : List Char) :
    takeUnits (hexDigits 4 c.toNat ++ rest) = some (c, rest) := by
  have hvalid : c.toNat < 0xD800 ∨ 0xDFFF < c.toNat := by
    rcases c.valid with h | h
    · exact .inl h
    · exact .inr h.1
  have hhigh : isHighSurrogate c.toNat = false := by
    simp only [isHighSurrogate, Bool.and_eq_false_iff, decide_eq_false_iff_not]
    omega
  have hlow : isLowSurrogate c.toNat = false := by
    simp only [isLowSurrogate, Bool.and_eq_false_iff, decide_eq_false_iff_not]
    omega
  unfold takeUnits
  rw [takeUnit_hexDigits h]
  simp [hhigh, hlow, Char.ofNat_toNat]

theorem takeUnits_pair {v : Nat} (hu : isHighSurrogate u = true) (hv : isLowSurrogate v = true)
    (rest : List Char) :
    takeUnits (hexDigits 4 u ++ '\\' :: 'u' :: (hexDigits 4 v ++ rest)) =
      some (Char.ofNat (0x10000 + (u - 0xD800) * 0x400 + (v - 0xDC00)), rest) := by
  have hu' : u < 0xDC00 := by
    simp only [isHighSurrogate, Bool.and_eq_true, decide_eq_true_eq] at hu
    exact hu.2
  have hv' : v < 0xE000 := by
    simp only [isLowSurrogate, Bool.and_eq_true, decide_eq_true_eq] at hv
    exact hv.2
  unfold takeUnits
  rw [takeUnit_hexDigits (by omega)]
  simp only [bind, Option.bind, hu, if_true]
  rw [takeUnit_hexDigits (by omega)]
  simp [hv]

/-- Any other one is read from a high surrogate and the low one behind it. -/
theorem takeUnits_of_le (h : 0x10000 ≤ c.toNat) (rest : List Char) :
    takeUnits (hexDigits 4 (0xD800 + (c.toNat - 0x10000) / 0x400) ++
      '\\' :: 'u' :: (hexDigits 4 (0xDC00 + (c.toNat - 0x10000) % 0x400) ++ rest)) =
        some (c, rest) := by
  have hlast : c.toNat < 0x110000 := by
    rcases c.valid with h | h
    · exact Nat.lt_trans h (by decide)
    · exact h.2
  have hhigh : isHighSurrogate (0xD800 + (c.toNat - 0x10000) / 0x400) = true := by
    simp only [isHighSurrogate, Bool.and_eq_true, decide_eq_true_eq]
    omega
  have hlow : isLowSurrogate (0xDC00 + (c.toNat - 0x10000) % 0x400) = true := by
    simp only [isLowSurrogate, Bool.and_eq_true, decide_eq_true_eq]
    omega
  have hvalue : 0x10000 + (0xD800 + (c.toNat - 0x10000) / 0x400 - 0xD800) * 0x400 +
      (0xDC00 + (c.toNat - 0x10000) % 0x400 - 0xDC00) = c.toNat := by omega
  rw [takeUnits_pair hhigh hlow, hvalue, Char.ofNat_toNat]

theorem takeUnits_codeUnits (c : Char) (rest : List Char) :
    ∃ units, (codeUnits c).flatMap (fun u => '\\' :: 'u' :: hexDigits 4 u) = '\\' :: 'u' :: units ∧
      takeUnits (units ++ rest) = some (c, rest) := by
  unfold codeUnits
  split
  · rename_i h
    refine ⟨hexDigits 4 c.toNat, by simp, takeUnits_of_lt h rest⟩
  · rename_i h
    refine ⟨_, rfl, ?_⟩
    simpa using takeUnits_of_le (Nat.le_of_not_lt h) rest

end Units

theorem takeChar_escapeChar (c : Char) (rest : List Char) :
    takeChar (escapeChar c ++ rest) = some (c, rest) := by
  unfold escapeChar
  split_ifs with hquote hbackslash hline hreturn htab hbackspace hfeed hvisible
  · rw [hquote]
    rfl
  · rw [hbackslash]
    rfl
  · rw [hline]
    rfl
  · rw [hreturn]
    rfl
  · rw [htab]
    rfl
  · rw [hbackspace]
    rfl
  · rw [hfeed]
    rfl
  · have hcontrol : ¬c < ' ' := not_lt.mpr hvisible.1
    rw [List.singleton_append]
    unfold takeChar
    split
    · rename_i heq
      cases heq
    · rename_i heq
      cases heq
      exact (hbackslash rfl).elim
    · rename_i heq
      cases heq
      simp [hquote, hbackslash, hcontrol]
  · obtain ⟨units, hunits, hread⟩ := takeUnits_codeUnits c rest
    rw [hunits]
    exact hread

theorem takeChar_quote (rest : List Char) : takeChar ('"' :: rest) = none := by
  cases rest <;> rfl

theorem readBody_escaped (read cs rest : List Char) :
    readBody read (cs.flatMap escapeChar ++ '"' :: rest) = some (read.reverse ++ cs, rest) := by
  induction cs generalizing read with
  | nil =>
    have hend := takeChar_quote rest
    unfold readBody
    split
    · rename_i heq
      rw [List.flatMap_nil, List.nil_append, hend] at heq
      cases heq
    · simp [afterQuote?]
  | cons c cs ih =>
    have hnext := takeChar_escapeChar c (cs.flatMap escapeChar ++ '"' :: rest)
    rw [List.flatMap_cons, List.append_assoc]
    unfold readBody
    split
    · rename_i heq
      rw [hnext] at heq
      cases heq
      rw [ih, List.reverse_cons, List.append_assoc, List.singleton_append]
    · rename_i heq
      rw [hnext] at heq
      cases heq

theorem decode_encode (cs : List Char) : decode (encode cs) = some cs := by
  simp only [encode, decode, readBody_escaped]
  rfl

theorem encode_injective : Function.Injective encode := by
  intro as bs h
  have hdecoded := congrArg decode h
  rw [decode_encode, decode_encode] at hdecoded
  exact Option.some.inj hdecoded

end Quoted

theorem toList_quoted (s : String) : (quoted s).toList = Quoted.encode s.toList :=
  String.toList_ofList

theorem quoted_injective : Function.Injective quoted := by
  intro s t h
  have hencoded := congrArg String.toList h
  rw [toList_quoted, toList_quoted] at hencoded
  exact String.toList_inj.mp (Quoted.encode_injective hencoded)

end RouteCatalog.Text

namespace RouteCatalog.Json

open Text

theorem read_quoted (doc : Document) (s : String) : read doc (quoted s) = .ok (.text s, doc) := by
  have hscalar : takeScalar (Quoted.encode s.toList) = .ok (.text s, []) := by
    simp only [Quoted.encode, takeScalar, Quoted.readBody_escaped]
    simp
  have hspace : skipSpace (Quoted.encode s.toList) = Quoted.encode s.toList := rfl
  have hstep : State.step ⟨doc, [], .value, .null⟩ (Quoted.encode s.toList) =
      .ok (⟨doc, [], .separator, .text s⟩, []) := by
    change (takeScalar (Quoted.encode s.toList) >>= fun p =>
      Except.ok (State.complete ⟨doc, [], .value, .null⟩ p.1, p.2)) = _
    rw [hscalar]
    rfl
  have hlast (fuel : Nat) : run (fuel + 1) ⟨doc, [], .separator, .text s⟩ [] =
      .ok ⟨doc, [], .separator, .text s⟩ := rfl
  have hrun (fuel : Nat) : run (fuel + 2) ⟨doc, [], .value, .null⟩ (Quoted.encode s.toList) =
      .ok ⟨doc, [], .separator, .text s⟩ := by
    change (State.step ⟨doc, [], .value, .null⟩ (skipSpace (Quoted.encode s.toList)) >>= fun p =>
      run (fuel + 1) p.1 p.2) = _
    rw [hspace, hstep]
    exact hlast fuel
  unfold read
  rw [toList_quoted, hrun]
  rfl

end RouteCatalog.Json
