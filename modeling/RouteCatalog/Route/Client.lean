import RouteCatalog.Route.Params
import RouteCatalog.TypeExpr.Key

/-! The call chain by which a client reaches a route: one link for every segment that is not
empty. -/

namespace RouteCatalog.Route

open TypeExpr

/-- The link of one segment: a parameter, a property or a quoted property. -/
def link : List Char → List Char
  | ':' :: name => "[params.".toList ++ name ++ [']']
  | segment =>
    if isIdentifier segment then '.' :: segment else "[\"".toList ++ segment ++ "\"]".toList

def clientChain (path : String) : String :=
  "client" ++ String.ofList (((segments path).filter (!·.isEmpty)).flatMap link)

end RouteCatalog.Route
