import RouteCatalog.Text.Blank
import RouteCatalog.Text.Digit

/-! Reading numbers from text: whole numbers in a base, and decimals with a fraction and an
exponent. Digits of every script count, single underscores may stand between digits, and blanks
around the number are skipped. -/

namespace RouteCatalog.Decimal

open Text

/-- Whole numbers of more digits than this are not read in base ten. -/
def digitLimit : Nat := 4300

/-- The value of a digit or an ASCII letter as a digit of a base up to 36. -/
def baseDigit? (c : Char) : Option Nat :=
  if 'a' ≤ c ∧ c ≤ 'z' then some (c.toNat - 'a'.toNat + 10)
  else if 'A' ≤ c ∧ c ≤ 'Z' then some (c.toNat - 'A'.toNat + 10)
  else digitValue? c

/-- Splits off a sign; the flag says whether it is a minus. -/
def takeSign : List Char → Bool × List Char
  | '-' :: rest => (true, rest)
  | '+' :: rest => (false, rest)
  | rest => (false, rest)

def applySign (negative : Bool) (n : Nat) : Int := if negative then -n else n

/-- Removes underscores that stand between two other characters. -/
def joinDigits : List Char → Option (List Char)
  | [] => some []
  | ['_'] => none
  | '_' :: _ => none
  | c :: '_' :: rest =>
    match rest with
    | [] => none
    | '_' :: _ => none
    | _ => (joinDigits rest).map (c :: ·)
  | c :: rest => (joinDigits rest).map (c :: ·)

def valueInBase (base : Nat) (digits : List Nat) : Nat :=
  digits.foldl (fun n d => n * base + d) 0

/-- The digits of a text that holds nothing but digits below `base`, and at least one. -/
def digitsInBase? (base : Nat) (cs : List Char) : Option (List Nat) := do
  let cs ← joinDigits cs
  let digits ← cs.mapM baseDigit?
  guard (!digits.isEmpty && digits.all (· < base))
  return digits

/-- Drops a base mark such as `0x`, after which one underscore may stand. -/
def dropBaseMark (base : Nat) (cs : List Char) : List Char :=
  let afterMark (rest : List Char) := if rest.head? = some '_' then rest.drop 1 else rest
  match base, cs with
  | 2, '0' :: 'b' :: rest | 2, '0' :: 'B' :: rest => afterMark rest
  | 8, '0' :: 'o' :: rest | 8, '0' :: 'O' :: rest => afterMark rest
  | 16, '0' :: 'x' :: rest | 16, '0' :: 'X' :: rest => afterMark rest
  | _, _ => cs

def readInteger? (base : Nat) (cs : List Char) : Option Int := do
  let (negative, body) := takeSign (trim cs)
  let digits ← digitsInBase? base (dropBaseMark base body)
  guard (base != 10 || digits.length ≤ digitLimit)
  return applySign negative (valueInBase base digits)

/-- The nearest floating-point number to `n * 10 ^ exponent`. -/
def nearestFloat (n : Nat) (exponent : Int) : Float :=
  let magnitude := (Nat.toDigits 10 n).length + exponent
  if n = 0 then 0
  else if magnitude > 320 then 1 / 0
  else if magnitude < -340 then 0
  else if exponent < 0 then Float.ofScientific n true exponent.natAbs
  else Float.ofScientific n false exponent.natAbs

def splitExponent (cs : List Char) : List Char × Option (List Char) :=
  let isMark (c : Char) := c == 'e' || c == 'E'
  match cs.dropWhile (!isMark ·) with
  | [] => (cs, none)
  | _ :: exponent => (cs.takeWhile (!isMark ·), some exponent)

def digitRun? (cs : List Char) : Option (List Nat) := do
  if cs.isEmpty then return []
  let cs ← joinDigits cs
  cs.mapM digitValue?

def readExponent? (cs : List Char) : Option Int := do
  let (negative, body) := takeSign cs
  let digits ← digitRun? body
  guard (!digits.isEmpty)
  return applySign negative (valueInBase 10 digits)

/-- Reads the digits of a decimal without its sign. -/
def readMagnitude? (cs : List Char) : Option Float := do
  let (significand, exponent?) := splitExponent cs
  let whole ← digitRun? (significand.takeWhile (· != '.'))
  let fraction ← digitRun? ((significand.dropWhile (· != '.')).drop 1)
  guard (!whole.isEmpty || !fraction.isEmpty)
  let exponent ← match exponent? with
    | none => some 0
    | some cs => readExponent? cs
  return nearestFloat (valueInBase 10 (whole ++ fraction)) (exponent - fraction.length)

/-- Reads a decimal, an infinity or a not-a-number. -/
def readFloat? (cs : List Char) : Option Float := do
  let (negative, body) := takeSign (trim cs)
  let magnitude ← match String.ofList (body.map Char.toLower) with
    | "inf" | "infinity" => some (1 / 0)
    | "nan" => some (0 / 0)
    | _ => readMagnitude? body
  return if negative then -magnitude else magnitude

end RouteCatalog.Decimal
