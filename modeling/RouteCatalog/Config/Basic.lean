import RouteCatalog.Text.Uppercase
import RouteCatalog.Path

/-! What a documentation run is told: the services to document, the client library that their
snippets use, and where the files are. -/

namespace RouteCatalog

structure Sdk where
  importStatement : String := "import \x7b treaty \x7d from \"elysia\";"
  clientName : String := "treaty"
  clientOptions : String := ""
  deriving DecidableEq, Repr

structure Service where
  name : String
  entryFile : String
  sourceGlob : Option String := none
  aliasName : String := "App"
  sdk : Sdk := {}
  deriving DecidableEq, Repr

namespace Service

def title (s : Service) : String := Text.capitalize s.name

end Service

structure Options where
  services : List Service
  projectRoot : Path := .ofText "."
  typeGraph : Path := .ofText "types.yaml"
  outputPath : Path := .ofText "DOCS.md"
  title : String := "API Documentation"
  description : String := "This document contains API documentation for the configured elysia apps."
  deriving DecidableEq, Repr

namespace Options

/-- A relative path starts from the project's root. -/
def resolve (o : Options) (p : Path) : Path := o.projectRoot.join p

end Options

end RouteCatalog
