import RouteCatalog.Document.Basic

/-! Reading records from the entries of a mapping. Every field is looked at, and the problems of
all of them are reported in the order of the fields, each with its location. -/

namespace RouteCatalog

inductive Problem where
  | missing
  | notText
  | notUnicode
  | notList
  | notPath
  | notMethod
  | notRecord (name : String)
  deriving DecidableEq, Repr

/-- A problem and the names and positions that lead to the place where it was met. -/
structure Finding where
  location : List String
  problem : Problem
  deriving DecidableEq, Repr

namespace Problem

def code : Problem → String
  | missing => "missing"
  | notText => "string_type"
  | notUnicode => "string_unicode"
  | notList => "list_type"
  | notPath => "path_type"
  | notMethod => "enum"
  | notRecord _ => "model_type"

def message : Problem → String
  | missing => "Field required"
  | notText => "Input should be a valid string"
  | notUnicode => "Input should be a valid string, unable to parse raw data as a unicode string"
  | notList => "Input should be a valid list"
  | notPath => "Input is not a valid path for <class 'pathlib.Path'>"
  | notMethod => "Input should be 'get', 'post', 'put', 'delete' or 'patch'"
  | notRecord name => "Input should be a valid dictionary or instance of " ++ name

end Problem

/-- A value that was read, or the findings that stand against it. -/
inductive Checked (α : Type) where
  | valid (a : α)
  | invalid (findings : List Finding)

namespace Checked

variable {α β : Type}

def findings : Checked α → List Finding
  | valid _ => []
  | invalid fs => fs

/-- Applies a checked function to a checked argument; the findings of both are kept in order. -/
def apply : Checked (α → β) → Checked α → Checked β
  | valid f, valid a => valid (f a)
  | f, a => invalid (f.findings ++ a.findings)

instance : Applicative Checked where
  pure := valid
  seq f a := f.apply (a ())

/-- Puts a name in front of the location of every finding. -/
def locate (name : String) : Checked α → Checked α
  | valid a => valid a
  | invalid fs => invalid (fs.map fun f => { f with location := name :: f.location })

def fail (p : Problem) : Checked α := invalid [⟨[], p⟩]

/-- Checks every item; a finding is located by the position of its item. -/
def items (check : Value → Checked α) (position : Nat) : List Value → Checked (List α)
  | [] => valid []
  | v :: vs =>
    (· :: ·) <$> (check v).locate (Decimal.natText position) <*> items check (position + 1) vs

end Checked

namespace Value

/-- A text, or a byte string that holds one. -/
def checkText : Value → Checked String
  | .text s => .valid s
  | .bytes bs =>
    match String.fromUTF8? ⟨bs.toArray⟩ with
    | some s => .valid s
    | none => .fail .notUnicode
  | _ => .fail .notText

def checkOptionalText : Value → Checked (Option String)
  | .null => .valid none
  | v => some <$> v.checkText

end Value

namespace Entries

variable {α : Type}

def required (entries : List Entry) (name : String) (check : Value → Checked α) : Checked α :=
  match get? entries name with
  | some v => (check v).locate name
  | none => (Checked.fail .missing).locate name

def optional (entries : List Entry) (name : String) (default : α) (check : Value → Checked α) :
    Checked α :=
  match get? entries name with
  | some v => (check v).locate name
  | none => .valid default

end Entries

end RouteCatalog
