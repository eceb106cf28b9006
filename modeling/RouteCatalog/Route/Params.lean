import RouteCatalog.Text.Pieces

/-! Path parameters: the segments of a route path that begin with a colon. The first segment, up
to the first slash, is never one. -/

namespace RouteCatalog.Route

open Text

def segments (path : String) : List (List Char) := pieces '/' path.toList

def paramName? : List Char → Option String
  | ':' :: c :: cs => some (String.ofList (c :: cs))
  | _ => none

def paramNames (path : String) : List String := ((segments path).drop 1).filterMap paramName?

/-- An object type that maps every parameter of a path to text. -/
def paramsType (path : String) : String :=
  match paramNames path with
  | [] => "\x7b\x7d"
  | names => "\x7b" ++ ", ".intercalate (names.map (· ++ ": string")) ++ "\x7d"

/-- How a host prints a parameter type that it did not resolve. -/
def unresolvedMark : String := "_ResolvePath<"

/-- The path in the literal of an unresolved parameter type. -/
def unresolvedLiteral? (params : String) : Option String := do
  let body ← after? (unresolvedMark ++ "\"").toList params.toList
  let literal := body.takeWhile (· != '"')
  let _ ← after? "\">".toList (body.dropWhile (· != '"'))
  if literal.isEmpty then none else some (String.ofList literal)

/-- Repairs an unresolved parameter type from its literal, or else from the route's own path. A
resolved type needs no repair. -/
def repairedParams? (params path : String) : Option String :=
  if (after? unresolvedMark.toList params.toList).isNone then none
  else
    match unresolvedLiteral? params with
    | some literal =>
      some (paramsType (String.ofList ('/' :: literal.toList.dropWhile (· == '/'))))
    | none => some (paramsType path)

end RouteCatalog.Route
