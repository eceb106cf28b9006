import RouteCatalog.Text.Letter
import RouteCatalog.Text.Quoted

/-! Property keys. A key that is an identifier is written as it is, any other is quoted. Canonical
expressions admit ASCII identifiers only; raw rendering admits letters and digits of every
script. -/

namespace RouteCatalog.TypeExpr

open Text

def isAsciiLetter (c : Char) : Bool := ('a' ≤ c && c ≤ 'z') || ('A' ≤ c && c ≤ 'Z')

def isIdentifierStart (c : Char) : Bool := isAsciiLetter c || c == '_' || c == '$'

def isIdentifierChar (c : Char) : Bool := isIdentifierStart c || ('0' ≤ c && c ≤ '9')

def isIdentifier : List Char → Bool
  | [] => false
  | c :: cs => isIdentifierStart c && cs.all isIdentifierChar

def formatKey (name : String) : String :=
  if isIdentifier name.toList then name else quoted name

/-- Whether a key is written without quotes when raw: it begins with a letter and goes on with
letters and digits, where the underscore and the dollar sign count as letters. -/
def isRawKey : List Char → Bool
  | [] => false
  | c :: cs =>
    (isLetter c || c == '_' || c == '$') &&
      (c :: cs).all fun d => isAlphanumeric d || d == '_' || d == '$'

def rawKey (name : String) : String :=
  if isRawKey name.toList then name else quoted name

end RouteCatalog.TypeExpr
