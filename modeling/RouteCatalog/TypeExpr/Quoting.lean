/-! Quoted literals inside type expressions. A literal begins with one of three quote characters
and ends with the next unescaped occurrence of the same one. -/

namespace RouteCatalog.TypeExpr

def isQuote (c : Char) : Bool := c == '"' || c == '\'' || c == '\x60'

/-- Where a reader of a type expression stands with respect to literals. -/
inductive Quoting where
  | outside
  | inside (quote : Char) (escaped : Bool)
  deriving DecidableEq, Repr

def Quoting.next : Quoting → Char → Quoting
  | .outside, c => if isQuote c then .inside c false else .outside
  | .inside quote true, _ => .inside quote false
  | .inside quote false, c =>
    if c = '\\' then .inside quote true else if c = quote then .outside else .inside quote false

end RouteCatalog.TypeExpr
