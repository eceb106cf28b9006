import RouteCatalog.Decimal.Reading
import RouteCatalog.Document.Basic
import RouteCatalog.Text.Base64
import RouteCatalog.Text.Pieces
import RouteCatalog.Yaml.Cursor
import RouteCatalog.Yaml.Tag

/-! The values of tagged scalars. A scalar that is tagged as a number, a truth value or a date has
to be written like one. -/

namespace RouteCatalog.Yaml

open Decimal

namespace ScalarValue

def dropBars (cs : List Char) : List Char := cs.filter (· != '_')

/-- Splits off a sign; a number without any character cannot be asked for one. -/
def takeSign? (cs : List Char) : Except ReadError (Bool × List Char) :=
  if cs.isEmpty then .error (.fault .noDigits) else .ok (takeSign cs)

def readWhole (base : Nat) (cs : List Char) : Except ReadError Int :=
  match readInteger? base cs with
  | some n => .ok n
  | none => .error (.fault .badNumber)

/-- A number whose parts between colons count sixty times the parts after them. -/
def inSixties (parts : List Int) : Int := parts.foldl (fun n part => n * 60 + part) 0

def magnitude (cs : List Char) : Except ReadError Int :=
  match cs with
  | [] => .error (.fault .noDigits)
  | ['0'] => .ok 0
  | '0' :: 'b' :: rest => readWhole 2 rest
  | '0' :: 'x' :: rest => readWhole 16 rest
  | '0' :: _ => readWhole 8 cs
  | _ =>
    if cs.contains ':' then ((Text.pieces ':' cs).mapM (readWhole 10)).map inSixties
    else readWhole 10 cs

def int (text : String) : Except ReadError Value := do
  let (negative, cs) ← takeSign? (dropBars text.toList)
  let n ← magnitude cs
  return .int (if negative then -n else n)

def readReal (cs : List Char) : Except ReadError Float :=
  match readFloat? cs with
  | some x => .ok x
  | none => .error (.fault .badNumber)

/-- Adds up parts from the last one on, each of which counts sixty times the one after it. -/
def realInSixties (parts : List Float) : Float :=
  (parts.reverse.foldl (fun (sum, base) part => (sum + part * base, base * 60))
    ((0 : Float), (1 : Float))).1

def float (text : String) : Except ReadError Value := do
  let (negative, cs) ← takeSign? ((dropBars text.toList).map Char.toLower)
  let x ←
    if cs = ".inf".toList then .ok (1 / 0)
    else if cs = ".nan".toList then .ok (0 / 0)
    else if cs.contains ':' then ((Text.pieces ':' cs).mapM readReal).map realInSixties
    else readReal cs
  return .float (if negative then -x else x)

def bool (text : String) : Except ReadError Value :=
  let word := String.ofList (text.toList.map Char.toLower)
  if ["yes", "true", "on"].contains word then .ok (.bool true)
  else if ["no", "false", "off"].contains word then .ok (.bool false)
  else .error (.fault .badTruth)

def binary (text : String) : Except ReadError Value :=
  if text.toList.all (·.toNat < 128) then
    match Text.Base64.decode text.toList with
    | some bytes => .ok (.bytes bytes)
    | none => .error .malformed
  else .error .malformed

def number (digits : List Char) : Nat :=
  valueInBase 10 (digits.map fun c => c.toNat - '0'.toNat)

/-- The offset of a zone in minutes; it is less than a day. -/
def zoneOffset : Option (Char × List Char × List Char) → Except ReadError Int
  | none => .ok 0
  | some (sign, hours, minutes) =>
    let total := number hours * 60 + number minutes
    if total < 24 * 60 then .ok (if sign = '-' then -total else total)
    else .error (.fault .badScalar)

/-- The microseconds of a fraction, of which six digits count. -/
def microseconds (fraction : List Char) : Nat :=
  number (fraction.take 6 ++ List.replicate (6 - (fraction.take 6).length) '0')

def timestamp (text : String) : Except ReadError Value :=
  match WrittenMoment.read? text.toList with
  | none => .error (.fault .badDate)
  | some w => do
    let date : Date := ⟨number w.year, number w.month, number w.day⟩
    match w.time with
    | none => if date.IsValid then return .date date else throw (.fault .badScalar)
    | some (hour, minute, second) =>
      let offset ← w.zone.mapM zoneOffset
      let m : Moment :=
        ⟨date, number hour, number minute, number second, microseconds w.fraction, offset⟩
      if m.IsValid then return .moment m else throw (.fault .badScalar)

/-- The value of a scalar with a tag; other tags have none. -/
def ofTag (tag text : String) : Except ReadError Value :=
  if tag = Tag.str then .ok (.text text)
  else if tag = Tag.null then .ok .null
  else if tag = Tag.bool then bool text
  else if tag = Tag.int then int text
  else if tag = Tag.float then float text
  else if tag = Tag.binary then binary text
  else if tag = Tag.timestamp then timestamp text
  else .error .malformed

def tags : List String :=
  [Tag.str, Tag.null, Tag.bool, Tag.int, Tag.float, Tag.binary, Tag.timestamp]

end ScalarValue

end RouteCatalog.Yaml
