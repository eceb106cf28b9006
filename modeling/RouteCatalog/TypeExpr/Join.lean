import RouteCatalog.TypeExpr.Scan

/-! Unions and intersections of type expressions. Equal members are kept once, at their first
place. An arrow binds less tightly than the operators, so a function that is a member of several
stands in parentheses. -/

namespace RouteCatalog.TypeExpr

def emptyObject : String := "\x7b\x7d"

def isNullish (part : String) : Bool := part == "null" || part == "undefined"

def operand (part : String) : String :=
  if isFunction part.toList then "(" ++ part ++ ")" else part

/-- Puts an operator between the members; a single member stands as it is. -/
def joinOperands (operator : String) : List String → String
  | [part] => part
  | parts => operator.intercalate (parts.map operand)

/-- If both truth values are members, the type of truth values takes their place, at the end. -/
def foldBoolean (parts : List String) : List String :=
  if "true" ∈ parts ∧ "false" ∈ parts then
    parts.filter (fun p => p != "true" && p != "false") ++ ["boolean"]
  else parts

/-- Moves `null` and `undefined` behind the other members. -/
def nullishLast (parts : List String) : List String :=
  parts.filter (!isNullish ·) ++ parts.filter isNullish

def unionMembers (parts : List String) : List String :=
  nullishLast (foldBoolean parts.eraseDups)

def canonicalUnion (parts : List String) : String :=
  joinOperands " | " (unionMembers parts)

/-- The members of an intersection that constrain it. -/
def intersectionMembers (parts : List String) : List String :=
  (parts.filter (· != emptyObject)).eraseDups

/-- Joins the members of an intersection; without any it is the empty object. -/
def joinIntersection (parts : List String) : String :=
  match intersectionMembers parts with
  | [] => emptyObject
  | members => joinOperands " & " members

variable {parts : List String} {p : String}

theorem mem_nullishLast : p ∈ nullishLast parts ↔ p ∈ parts := by
  unfold nullishLast
  rw [List.mem_append, List.mem_filter, List.mem_filter]
  cases isNullish p <;> simp

theorem mem_of_mem_foldBoolean (h : p ∈ foldBoolean parts) : p ∈ parts ∨ p = "boolean" := by
  unfold foldBoolean at h
  split at h
  · rcases List.mem_append.mp h with h | h
    · exact .inl (List.mem_filter.mp h).1
    · exact .inr (List.mem_singleton.mp h)
  · exact .inl h

theorem mem_of_mem_unionMembers (h : p ∈ unionMembers parts) : p ∈ parts ∨ p = "boolean" := by
  unfold unionMembers at h
  rw [mem_nullishLast] at h
  exact (mem_of_mem_foldBoolean h).imp_left List.mem_eraseDups.mp

theorem mem_of_mem_intersectionMembers (h : p ∈ intersectionMembers parts) : p ∈ parts :=
  (List.mem_filter.mp (List.mem_eraseDups.mp h)).1

end RouteCatalog.TypeExpr
