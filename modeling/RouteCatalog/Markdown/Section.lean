import RouteCatalog.Markdown.Snippet
import RouteCatalog.TypeExpr.Layout

/-! Sections of the document: one for every endpoint, under a heading for its service. -/

namespace RouteCatalog.Markdown

def typeBlock (label expr : String) : String :=
  "**" ++ label ++ ":**\n\n" ++ fence ++ "typescript\n" ++
    String.ofList (TypeExpr.layOut expr.toList) ++ "\n" ++ fence ++ "\n\n"

/-- The block of a part, if the part is there and not empty. -/
def partBlock (label : String) (part : Option String) : String :=
  if isPresent part then typeBlock label (part.getD "") else ""

def endpointSection (e : Endpoint) (sdk : Sdk) : String :=
  "### " ++ e.title ++ "\n\n<details>\n<summary>SDK Usage</summary>\n\n" ++ snippet e sdk ++
    partBlock "Body" e.body ++ partBlock "Params" e.params ++ partBlock "Query" e.query ++
    typeBlock "Response" e.response ++ "</details>\n\n---\n\n"

def serviceSection (title : String) (endpoints : List Endpoint) (sdk : Sdk) : String :=
  "## " ++ title ++ " API\n\n" ++ String.join (endpoints.map (endpointSection · sdk)) ++ "\n"

end RouteCatalog.Markdown
