import RouteCatalog.Config.Basic
import RouteCatalog.Document.Checked

/-! Reading the options of a run from the entries of a mapping. Fields that are not known are
ignored. -/

namespace RouteCatalog

open Entries Value

def checkRecord {α : Type} (doc : Document) (name : String) (check : List Entry → Checked α)
    (v : Value) : Checked α :=
  match doc.entries? v with
  | some entries => check entries
  | none => .fail (.notRecord name)

def checkPath : Value → Checked Path
  | .text s => .valid (.ofText s)
  | _ => .fail .notPath

namespace Sdk

/-- The import statement has a short name and a long one; the short one is looked for first. -/
def checkImport (entries : List Entry) : Checked String :=
  let default := ({} : Sdk).importStatement
  if (get? entries "import").isSome then optional entries "import" default checkText
  else optional entries "import_statement" default checkText

def check (entries : List Entry) : Checked Sdk :=
  Sdk.mk <$> checkImport entries
    <*> optional entries "client_name" ({} : Sdk).clientName checkText
    <*> optional entries "client_options" ({} : Sdk).clientOptions checkText

end Sdk

namespace Service

def check (doc : Document) (entries : List Entry) : Checked Service :=
  Service.mk <$> required entries "name" checkText
    <*> required entries "entry_file" checkText
    <*> optional entries "source_files_glob" none checkOptionalText
    <*> optional entries "type_alias_name" "App" checkText
    <*> optional entries "sdk" {} (checkRecord doc "SdkConfig" Sdk.check)

/-- A list, tuple or set of services. -/
def checkAll (doc : Document) : Value → Checked (List Service)
  | .node id =>
    match doc.node id with
    | .list items | .tuple items | .set items =>
      Checked.items (checkRecord doc "ServiceConfig" (check doc)) 0 items
    | .mapping _ => .fail .notList
  | _ => .fail .notList

end Service

namespace Options

def check (doc : Document) (entries : List Entry) : Checked Options :=
  let default : Options := { services := [] }
  Options.mk <$> required entries "services" (Service.checkAll doc)
    <*> optional entries "project_root" default.projectRoot checkPath
    <*> optional entries "type_graph" default.typeGraph checkPath
    <*> optional entries "output_path" default.outputPath checkPath
    <*> optional entries "title" default.title checkText
    <*> optional entries "description" default.description checkText

end Options

end RouteCatalog
