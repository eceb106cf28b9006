/-! Tags say what type a node is of. A plain scalar without a tag is given one by its form: a
truth value, a number, a date and so on, and otherwise a text. -/

namespace RouteCatalog.Yaml

namespace Tag

/-- The full name of a tag of the common repertoire. -/
def common (name : String) : String := "tag:yaml.org,2002:" ++ name

def null : String := common "null"
def bool : String := common "bool"
def int : String := common "int"
def float : String := common "float"
def binary : String := common "binary"
def timestamp : String := common "timestamp"
def str : String := common "str"
def seq : String := common "seq"
def map : String := common "map"
def set : String := common "set"
def omap : String := common "omap"
def pairs : String := common "pairs"
def merge : String := common "merge"
def value : String := common "value"
def indicator : String := common "yaml"

def orDefault (default : String) : Option String → String
  | none => default
  | some tag => if tag = "!" then default else tag

end Tag

/-! ### Forms of plain scalars -/

namespace Form

def isDigit (c : Char) : Bool := c.isDigit
def isDigitOrBar (c : Char) : Bool := c.isDigit || c == '_'
def isHexOrBar (c : Char) : Bool :=
  isDigitOrBar c || ('a' ≤ c && c ≤ 'f') || ('A' ≤ c && c ≤ 'F')

/-- The text after an optional sign. -/
def unsigned : List Char → List Char
  | '-' :: rest => rest
  | '+' :: rest => rest
  | cs => cs

/-- Whether the text is not empty and all of it satisfies `p`. -/
def isRun (p : Char → Bool) (cs : List Char) : Bool := !cs.isEmpty && cs.all p

/-- A digit followed by digits and bars. -/
def isBarred : List Char → Bool
  | c :: cs => isDigit c && cs.all isDigitOrBar
  | [] => false

def startsNonzero : List Char → Bool
  | c :: _ => isDigit c && c != '0'
  | [] => false

/-- One or two digits below sixty. -/
def isSixtieth : List Char → Bool
  | [a] => isDigit a
  | [a, b] => isDigit a && a ≤ '5' && isDigit b
  | _ => false

/-- Colons with a number below sixty after each of them, at least once. -/
def areSixtieths (fuel : Nat) (cs : List Char) : Bool :=
  match fuel, cs with
  | fuel + 1, ':' :: rest =>
    let after := rest.dropWhile (· != ':')
    isSixtieth (rest.takeWhile (· != ':')) && (after.isEmpty || areSixtieths fuel after)
  | _, _ => false

def isInt (text : List Char) : Bool :=
  let cs := unsigned text
  let sixtieths := cs.dropWhile (· != ':')
  match cs with
  | '0' :: 'b' :: rest => isRun (fun c => c == '0' || c == '1' || c == '_') rest
  | '0' :: 'x' :: rest => isRun isHexOrBar rest
  | ['0'] => true
  | '0' :: rest => isRun (fun c => ('0' ≤ c && c ≤ '7') || c == '_') rest
  | _ =>
    startsNonzero cs && isBarred (cs.takeWhile (· != ':')) &&
      (sixtieths.isEmpty || areSixtieths cs.length sixtieths)

def isExponent : List Char → Bool
  | [] => true
  | e :: sign :: digits =>
    (e == 'e' || e == 'E') && (sign == '-' || sign == '+') && isRun isDigit digits
  | _ => false

def isFraction (cs : List Char) : Bool := isExponent (cs.dropWhile isDigitOrBar)

def isFloat (text : List Char) : Bool :=
  let cs := unsigned text
  let whole := cs.takeWhile (· != '.')
  match cs.dropWhile (· != '.') with
  | '.' :: fraction =>
    if whole.isEmpty then
      (["inf".toList, "Inf".toList, "INF".toList].contains fraction) ||
        (text.head? == some '.' &&
          (["nan".toList, "NaN".toList, "NAN".toList].contains fraction ||
            (fraction.head?.any isDigit && isFraction fraction)))
    else
      (isBarred whole && isFraction fraction) ||
        (isBarred (whole.takeWhile (· != ':')) &&
          areSixtieths whole.length (whole.dropWhile (· != ':')) && fraction.all isDigitOrBar)
  | _ => false

def nullWords : List String := ["", "~", "null", "Null", "NULL"]

def boolWords : List String :=
  ["yes", "Yes", "YES", "no", "No", "NO", "true", "True", "TRUE", "false", "False", "FALSE",
    "on", "On", "ON", "off", "Off", "OFF"]

end Form

/-- The parts of a written date or moment; the time of day is left out together. -/
structure WrittenMoment where
  year : List Char
  month : List Char
  day : List Char
  time : Option (List Char × List Char × List Char) := none
  fraction : List Char := []
  /-- The zone: a sign, hours and minutes, or none of them for universal time. -/
  zone : Option (Option (Char × List Char × List Char)) := none
  deriving DecidableEq, Repr

namespace WrittenMoment

/-- Splits off at least one and at most `most` digits. -/
def takeDigits (most : Nat) (cs : List Char) : Option (List Char × List Char) :=
  let digits := (cs.take most).takeWhile Char.isDigit
  if digits.isEmpty then none else some (digits, cs.drop digits.length)

def takeExactly (n : Nat) (cs : List Char) : Option (List Char × List Char) := do
  let (digits, rest) ← takeDigits n cs
  if digits.length = n then return (digits, rest) else none

def takeChar (c : Char) : List Char → Option (List Char)
  | d :: rest => if c = d then some rest else none
  | [] => none

def skipGaps (cs : List Char) : List Char := cs.dropWhile fun c => c == ' ' || c == '\t'

/-- The zone at the end of a moment; gaps may only stand before a zone. -/
def readZone (cs : List Char) : Option (Option (Option (Char × List Char × List Char))) :=
  if cs.isEmpty then some none
  else
    match skipGaps cs with
    | ['Z'] => some (some none)
    | sign :: rest =>
      if sign = '+' ∨ sign = '-' then
        match takeDigits 2 rest with
        | some (hours, []) => some (some (some (sign, hours, [])))
        | some (hours, ':' :: rest) =>
          match takeExactly 2 rest with
          | some (minutes, []) => some (some (some (sign, hours, minutes)))
          | _ => none
        | _ => none
      else none
    | [] => none

/-- Reads a time of day with its fraction and zone, after the date. -/
def readTime (date : WrittenMoment) (cs : List Char) : Option WrittenMoment := do
  let (hour, rest) ← takeDigits 2 cs
  let (minute, rest) ← takeExactly 2 (← takeChar ':' rest)
  let (second, rest) ← takeExactly 2 (← takeChar ':' rest)
  let (fraction, rest) := match rest with
    | '.' :: rest => (rest.takeWhile Char.isDigit, rest.dropWhile Char.isDigit)
    | _ => ([], rest)
  let zone ← readZone rest
  return { date with time := some (hour, minute, second), fraction := fraction, zone := zone }

/-- Reads a date, alone or with a time of day after a letter or gaps. -/
def read? (cs : List Char) : Option WrittenMoment := do
  let (year, rest) ← takeExactly 4 cs
  let (month, rest) ← takeDigits 2 (← takeChar '-' rest)
  let (day, rest) ← takeDigits 2 (← takeChar '-' rest)
  let date : WrittenMoment := { year := year, month := month, day := day }
  match rest with
  | [] => return date
  | 'T' :: rest | 't' :: rest => date.readTime rest
  | _ =>
    let after := skipGaps rest
    if after.length < rest.length then date.readTime after else none

/-- A date alone is only recognized without a tag if month and day have two digits. -/
def isRecognized (cs : List Char) : Bool :=
  (read? cs).any fun m => m.time.isSome || (m.month.length == 2 && m.day.length == 2)

end WrittenMoment

namespace Tag

/-- The tag of a plain scalar by its form. -/
def ofPlain (text : String) : String :=
  let cs := text.toList
  if Form.boolWords.contains text then bool
  else if Form.isFloat cs then float
  else if Form.isInt cs then int
  else if text = "<<" then merge
  else if Form.nullWords.contains text then null
  else if WrittenMoment.isRecognized cs then timestamp
  else if text = "=" then value
  else if ["!", "&", "*"].contains text then indicator
  else str

/-- The tag of a scalar that is written with or without one. -/
def ofScalar (tag : Option String) (plain : Bool) (text : String) : String :=
  match tag with
  | none => if plain then ofPlain text else str
  | some tag => if tag = "!" then ofPlain text else tag

end Tag

end RouteCatalog.Yaml
