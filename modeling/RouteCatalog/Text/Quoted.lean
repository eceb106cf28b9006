/-! Text in double quotes, written in ASCII. A quote and a backslash follow a backslash, the
common controls have a letter of their own, and every other character outside the visible ASCII
range is written by its UTF-16 code units as `\uXXXX`. Reading also takes plain characters of any
kind and the escaped slash. -/

namespace RouteCatalog.Text

def hexDigit (n : Nat) : Char := Nat.digitChar (n % 16)

def hexValue? (c : Char) : Option Nat :=
  if '0' ≤ c ∧ c ≤ '9' then some (c.toNat - '0'.toNat)
  else if 'a' ≤ c ∧ c ≤ 'f' then some (c.toNat - 'a'.toNat + 10)
  else if 'A' ≤ c ∧ c ≤ 'F' then some (c.toNat - 'A'.toNat + 10)
  else none

/-- The last `width` hexadecimal digits of a number, most significant first. -/
def hexDigits : (width : Nat) → Nat → List Char
  | 0, _ => []
  | width + 1, n => hexDigits width (n / 16) ++ [hexDigit n]

/-- The UTF-16 code units of a character: one, or a high and a low surrogate. -/
def codeUnits (c : Char) : List Nat :=
  if c.toNat < 0x10000 then [c.toNat]
  else [0xD800 + (c.toNat - 0x10000) / 0x400, 0xDC00 + (c.toNat - 0x10000) % 0x400]

namespace Quoted

def escapeChar (c : Char) : List Char :=
  if c = '"' then ['\\', '"']
  else if c = '\\' then ['\\', '\\']
  else if c = '\n' then ['\\', 'n']
  else if c = '\r' then ['\\', 'r']
  else if c = '\t' then ['\\', 't']
  else if c = '\x08' then ['\\', 'b']
  else if c = '\x0c' then ['\\', 'f']
  else if ' ' ≤ c ∧ c ≤ '~' then [c]
  else (codeUnits c).flatMap fun u => '\\' :: 'u' :: hexDigits 4 u

def encode (cs : List Char) : List Char :=
  '"' :: (cs.flatMap escapeChar ++ ['"'])

section Escaped

/-- An escaped text is put together from plain characters and from pairs that begin with a
backslash. -/
theorem escaped_induction {P : List Char → Prop} (hnil : P [])
    (happend : ∀ a b, P a → P b → P (a ++ b)) (hplain : ∀ c, c ≠ '"' → c ≠ '\\' → P [c])
    (hpair : ∀ c, P ['\\', c]) (cs : List Char) : P (cs.flatMap escapeChar) := by
  have hdigit : ∀ d < 16, Nat.digitChar d ≠ '"' ∧ Nat.digitChar d ≠ '\\' := by decide
  have hdigits (width n : Nat) : P (hexDigits width n) := by
    induction width generalizing n with
    | zero => exact hnil
    | succ width ih =>
      obtain ⟨hquote, hbackslash⟩ := hdigit (n % 16) (Nat.mod_lt n (by decide))
      exact happend _ _ (ih (n / 16)) (hplain _ hquote hbackslash)
  have hunits (units : List Nat) : P (units.flatMap fun u => '\\' :: 'u' :: hexDigits 4 u) := by
    induction units with
    | nil => exact hnil
    | cons u units ih =>
      rw [List.flatMap_cons]
      exact happend _ _ (happend _ _ (hpair 'u') (hdigits 4 u)) ih
  have hchar (c : Char) : P (escapeChar c) := by
    unfold escapeChar
    by_cases hquote : c = '"'
    · rw [if_pos hquote]
      exact hpair '"'
    rw [if_neg hquote]
    by_cases hbackslash : c = '\\'
    · rw [if_pos hbackslash]
      exact hpair '\\'
    rw [if_neg hbackslash]
    repeat' split
    · exact hpair 'n'
    · exact hpair 'r'
    · exact hpair 't'
    · exact hpair 'b'
    · exact hpair 'f'
    · exact hplain c hquote hbackslash
    · exact hunits (codeUnits c)
  induction cs with
  | nil => exact hnil
  | cons c cs ih =>
    rw [List.flatMap_cons]
    exact happend _ _ (hchar c) ih

end Escaped

def takeUnit : List Char → Option (Nat × List Char)
  | a :: b :: c :: d :: rest => do
    let a ← hexValue? a
    let b ← hexValue? b
    let c ← hexValue? c
    let d ← hexValue? d
    return (((a * 16 + b) * 16 + c) * 16 + d, rest)
  | _ => none

def isHighSurrogate (u : Nat) : Bool := 0xD800 ≤ u && u < 0xDC00
def isLowSurrogate (u : Nat) : Bool := 0xDC00 ≤ u && u < 0xE000

/-- Reads the code units of one character whose `\u` has been read. A surrogate without its
partner becomes the replacement character. -/
def takeUnits (cs : List Char) : Option (Char × List Char) := do
  let (u, rest) ← takeUnit cs
  if isHighSurrogate u then
    match rest with
    | '\\' :: 'u' :: low =>
      let (v, rest') ← takeUnit low
      if isLowSurrogate v then
        return (Char.ofNat (0x10000 + (u - 0xD800) * 0x400 + (v - 0xDC00)), rest')
      else return ('\uFFFD', rest)
    | _ => return ('\uFFFD', rest)
  else if isLowSurrogate u then return ('\uFFFD', rest)
  else return (Char.ofNat u, rest)

/-- Reads one character of quoted text. A bare quote, a bare control and an unknown escape are
not read. -/
def takeChar : List Char → Option (Char × List Char)
  | [] => none
  | '\\' :: e :: rest =>
    match e with
    | '"' => some ('"', rest)
    | '\\' => some ('\\', rest)
    | '/' => some ('/', rest)
    | 'n' => some ('\n', rest)
    | 'r' => some ('\r', rest)
    | 't' => some ('\t', rest)
    | 'b' => some ('\x08', rest)
    | 'f' => some ('\x0c', rest)
    | 'u' => takeUnits rest
    | _ => none
  | c :: rest => if c = '"' ∨ c = '\\' ∨ c < ' ' then none else some (c, rest)

theorem takeUnit_shorter {s r : List Char} {u : Nat} (h : takeUnit s = some (u, r)) :
    r.length < s.length := by
  unfold takeUnit at h
  split at h
  · simp only [bind, Option.bind_eq_some_iff, pure, Option.some.injEq, Prod.mk.injEq] at h
    obtain ⟨_, _, _, _, _, _, _, _, _, rfl⟩ := h
    simp only [List.length_cons]
    omega
  · simp at h

theorem takeUnits_shorter {s r : List Char} {c : Char} (h : takeUnits s = some (c, r)) :
    r.length < s.length := by
  unfold takeUnits at h
  simp only [bind, Option.bind_eq_some_iff, pure] at h
  obtain ⟨⟨u, rest⟩, hu, h⟩ := h
  have hlt := takeUnit_shorter hu
  dsimp only at h
  split at h
  · split at h
    · simp only [Option.bind_eq_some_iff] at h
      obtain ⟨⟨v, rest'⟩, hv, h⟩ := h
      have hlt' := takeUnit_shorter hv
      simp only [List.length_cons] at hlt
      dsimp only at h
      split at h <;> simp only [Option.some.injEq, Prod.mk.injEq] at h <;> obtain ⟨_, rfl⟩ := h
      · omega
      · simpa using hlt
    · simp only [Option.some.injEq, Prod.mk.injEq] at h
      exact h.2 ▸ hlt
  · split at h <;> simp only [Option.some.injEq, Prod.mk.injEq] at h <;> exact h.2 ▸ hlt

theorem takeChar_shorter {s r : List Char} {c : Char} (h : takeChar s = some (c, r)) :
    r.length < s.length := by
  unfold takeChar at h
  split at h
  · simp at h
  · split at h
    case h_9 =>
      have hlt := takeUnits_shorter h
      simp only [List.length_cons]
      omega
    case h_10 => simp at h
    all_goals
      simp only [Option.some.injEq, Prod.mk.injEq] at h
      obtain ⟨_, rfl⟩ := h
      simp only [List.length_cons]
      omega
  · split at h
    · simp at h
    · simp only [Option.some.injEq, Prod.mk.injEq] at h
      obtain ⟨_, rfl⟩ := h
      simp

def afterQuote? : List Char → Option (List Char)
  | '"' :: rest => some rest
  | _ => none

/-- Reads up to the closing quote, after the characters in `read`, which stand in reverse. -/
def readBody (read : List Char) (s : List Char) : Option (List Char × List Char) :=
  match _h : takeChar s with
  | some (c, rest) => readBody (c :: read) rest
  | none => (afterQuote? s).map fun rest => (read.reverse, rest)
termination_by s.length
decreasing_by exact takeChar_shorter _h

def decode : List Char → Option (List Char)
  | '"' :: s =>
    match readBody [] s with
    | some (cs, []) => some cs
    | _ => none
  | _ => none

end Quoted

def quoted (s : String) : String := String.ofList (Quoted.encode s.toList)

end RouteCatalog.Text
