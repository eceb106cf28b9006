import RouteCatalog.Config.Basic
import RouteCatalog.Route.Client
import RouteCatalog.Route.Endpoint
import RouteCatalog.Text.Blank

/-! Usage snippets: how a client calls an endpoint. The variables that the call uses are declared
above it. -/

namespace RouteCatalog.Markdown

open Text

/-- Drops every comma that only blanks separate from a closing brace. -/
def dropTrailingCommas : List Char → List Char
  | [] => []
  | c :: cs =>
    if c = ',' ∧ (cs.dropWhile isBlank).head? = some '}' then dropTrailingCommas cs
    else c :: dropTrailingCommas cs

/-- Gives every field of type string an example value. -/
def exampleValues (cs : List Char) : List Char :=
  match cs with
  | [] => []
  | c :: rest =>
    match after? ": string".toList (c :: rest) with
    | some _ => ": \"example-value\"".toList ++ exampleValues (rest.drop 7)
    | none => c :: exampleValues rest
termination_by cs.length

/-- An object literal with an example value for every parameter. -/
def exampleParams (params : String) : String :=
  let separated := params.toList.map fun c => if c = ';' then ',' else c
  String.ofList (exampleValues (dropTrailingCommas separated))

/-- A part counts if it is there and not empty. -/
def isPresent (part : Option String) : Bool := part.any (!·.isEmpty)

def callArguments (e : Endpoint) : String :=
  ", ".intercalate <|
    (if isPresent e.body then ["body"] else []) ++
      (if isPresent e.query then ["\x7b query \x7d"] else [])

def callLine (e : Endpoint) : String :=
  "const response = await " ++ Route.clientChain e.path ++ "." ++ e.method.name ++
    "(" ++ callArguments e ++ ");"

def declarations (e : Endpoint) : List String :=
  (if isPresent e.params then
    ["const params = " ++ exampleParams (e.params.getD "") ++ ";\n"] else []) ++
  (if isPresent e.body then
    ["// Define your request body\nconst body = \x7b\x7d; // Replace with actual body data\n"]
    else []) ++
  (if isPresent e.query then
    ["// Define your query parameters\nconst query = \x7b\x7d; // Replace with actual query data\n"]
    else [])

def snippetLines (e : Endpoint) (sdk : Sdk) : List String :=
  [sdk.importStatement ++ "\n",
    "const client = " ++ sdk.clientName ++ "(" ++ sdk.clientOptions ++ ");\n"] ++
    declarations e ++ [callLine e]

def fence : String := "\x60\x60\x60"

def snippet (e : Endpoint) (sdk : Sdk) : String :=
  "\n".intercalate ([fence ++ "typescript"] ++ snippetLines e sdk ++ [fence ++ "\n"])

end RouteCatalog.Markdown
