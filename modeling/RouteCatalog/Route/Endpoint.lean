import RouteCatalog.Document.Checked
import RouteCatalog.Text.Uppercase

/-! Endpoints: one documented pair of a path and a method, with the type expressions of its
parts. -/

namespace RouteCatalog

inductive Method where
  | get
  | post
  | put
  | delete
  | patch
  deriving DecidableEq, Repr

namespace Method

def all : List Method := [get, post, put, delete, patch]

def name : Method → String
  | get => "get"
  | post => "post"
  | put => "put"
  | delete => "delete"
  | patch => "patch"

def ofName? (s : String) : Option Method := all.find? (·.name = s)

theorem ofName?_name (m : Method) : ofName? m.name = some m := by cases m <;> decide

theorem name_of_ofName? {s : String} {m : Method} (h : ofName? s = some m) : m.name = s := by
  simpa using List.find?_some h

def title : Method → String
  | get => "GET"
  | post => "POST"
  | put => "PUT"
  | delete => "DELETE"
  | patch => "PATCH"

def check : Value → Checked Method
  | .text s => (ofName? s).elim (.fail .notMethod) .valid
  | _ => .fail .notMethod

end Method

structure Endpoint where
  path : String
  method : Method
  body : Option String := none
  params : Option String := none
  query : Option String := none
  response : String := "\x7b\x7d"
  deriving DecidableEq, Repr

namespace Endpoint

def title (e : Endpoint) : String := e.method.title ++ " " ++ e.path

def check (entries : List Entry) : Checked Endpoint :=
  Endpoint.mk <$> Entries.required entries "path" Value.checkText
    <*> Entries.required entries "method" Method.check
    <*> Entries.optional entries "body" none Value.checkOptionalText
    <*> Entries.optional entries "params" none Value.checkOptionalText
    <*> Entries.optional entries "query" none Value.checkOptionalText
    <*> Entries.optional entries "response" "\x7b\x7d" Value.checkText

end Endpoint

end RouteCatalog
