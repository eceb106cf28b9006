import RouteCatalog.Text.Blank
import RouteCatalog.Text.Letter
import RouteCatalog.Text.Pieces

/-! Signs that a rendering was expanded by its host: the members of an array written out one by
one, or a nullable repeated in one union. A text without them is clean. -/

namespace RouteCatalog.TypeExpr

open Text

def skipBlanks (cs : List Char) : List Char := cs.dropWhile isBlank

/-- The array methods that give an expansion away when they stand as keys. -/
def telltaleMethods : List (List Char) :=
  ["pop".toList, "push".toList, "shift".toList, "splice".toList, "concat".toList,
    "reverse".toList, "forEach".toList, "indexOf".toList]

/-- The symbols that give an expansion away when they stand as computed keys. -/
def telltaleSymbols : List (List Char) := ["unscopables".toList, "iterator".toList]

/-- Whether the text begins with a computed key such as `[Symbol.iterator]`. -/
def startsWithSymbolKey (cs : List Char) : Bool :=
  match cs with
  | '[' :: rest =>
    match after? "Symbol.".toList (skipBlanks rest) with
    | some rest => telltaleSymbols.any fun name =>
        match after? name (skipBlanks rest) with
        | some rest => (skipBlanks rest).head? == some ']'
        | none => false
    | none => false
  | _ => false

/-- Whether the text goes on as after a key: an optional mark and a colon. -/
def startsWithColon (cs : List Char) : Bool :=
  let rest := if cs.head? = some '?' then cs.drop 1 else cs
  (skipBlanks rest).head? == some ':'

/-- Whether the text begins with the end of a key that is a telltale method. -/
def startsWithMethodKey (cs : List Char) : Bool :=
  telltaleMethods.any fun name =>
    match after? name cs with
    | some rest => startsWithColon rest
    | none => false

def hasExpansionNoise (cs : List Char) : Bool :=
  anywhere (fun rest => startsWithSymbolKey rest || startsWithMethodKey rest) cs

/-- Whether a word ends here: the text does not go on with a word character. -/
def endsWord (cs : List Char) : Bool := !cs.head?.any isWordChar

/-- Whether a union sign followed by `word` comes before the next brace or semicolon. -/
def recursInUnion (word : List Char) : List Char → Bool
  | [] => false
  | c :: cs =>
    if c = ';' ∨ c = '{' ∨ c = '}' then false
    else
      (c == '|' && ((after? word (skipBlanks cs)).map endsWord).getD false) ||
        recursInUnion word cs

/-- Whether the text begins with `word` as a whole word that recurs in the same union. -/
def startsDuplicate (word cs : List Char) : Bool :=
  match after? word cs with
  | some rest => endsWord rest && recursInUnion word rest
  | none => false

def nullableWords : List (List Char) := ["undefined".toList, "null".toList]

/-- Looks for a duplicate nullable from each place where a word may begin; `previous` is the
character before the text. -/
def hasDuplicateNullableAfter (previous : Option Char) : List Char → Bool
  | [] => false
  | c :: cs =>
    (!previous.any isWordChar && nullableWords.any fun word => startsDuplicate word (c :: cs)) ||
      hasDuplicateNullableAfter (some c) cs

/-- Whether `null` or `undefined` stands twice in one union. -/
def hasDuplicateNullable (cs : List Char) : Bool := hasDuplicateNullableAfter none cs

/-- A clean rendering can be used as it is. -/
def isClean (cs : List Char) : Bool := !hasExpansionNoise cs && !hasDuplicateNullable cs

end RouteCatalog.TypeExpr
