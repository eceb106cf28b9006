import RouteCatalog.Text.Printable
import RouteCatalog.Text.Quoted

/-! The form in which a text or a byte string stands inside a printed value: between single
quotes, or between double quotes if it holds single quotes and no double ones. Characters that
cannot be printed are written by their code point. -/

namespace RouteCatalog.Text

namespace Literal

def delimiter (cs : List Char) : Char :=
  if cs.contains '\'' && !cs.contains '"' then '"' else '\''

def byteEscape (n : Nat) : List Char := '\\' :: 'x' :: hexDigits 2 n

def codeEscape (n : Nat) : List Char :=
  if n ≤ 0xFF then byteEscape n
  else if n ≤ 0xFFFF then '\\' :: 'u' :: hexDigits 4 n
  else '\\' :: 'U' :: hexDigits 8 n

/-- The escape of a character that has one whatever it stands in. -/
def commonEscape? (quote c : Char) : Option (List Char) :=
  if c = quote ∨ c = '\\' then some ['\\', c]
  else if c = '\n' then some ['\\', 'n']
  else if c = '\r' then some ['\\', 'r']
  else if c = '\t' then some ['\\', 't']
  else none

def escapeChar (quote c : Char) : List Char :=
  match commonEscape? quote c with
  | some escape => escape
  | none => if isPrintable c then [c] else codeEscape c.toNat

def escapeByte (quote : Char) (b : UInt8) : List Char :=
  match commonEscape? quote (Char.ofNat b.toNat) with
  | some escape => escape
  | none => if 0x20 ≤ b ∧ b < 0x7F then [Char.ofNat b.toNat] else byteEscape b.toNat

end Literal

/-- A text as it stands inside a printed value. -/
def literal (s : String) : String :=
  let quote := Literal.delimiter s.toList
  String.ofList (quote :: (s.toList.flatMap (Literal.escapeChar quote) ++ [quote]))

/-- A byte string as it stands inside a printed value. -/
def byteLiteral (bytes : List UInt8) : String :=
  let quote := Literal.delimiter (bytes.map fun b => Char.ofNat b.toNat)
  String.ofList ('b' :: quote :: (bytes.flatMap (Literal.escapeByte quote) ++ [quote]))

end RouteCatalog.Text
