import RouteCatalog.Route.Walk

/-! Descents: the ways down from a route descriptor, one property at a time, and the endpoints at
their ends. Which names lead down and which path they make is stated here without the walk. -/

namespace RouteCatalog.Route

/-- A name leads further down unless it is a method, internal or private; of the private names only
that of nested routes does. -/
def LeadsDown (name : String) : Prop :=
  (∀ m : Method, name ≠ m.name) ∧ name ∉ internalNames ∧
    (name = nestedName ∨ (name.toList.head? ≠ some '~' ∧ name.toList.head? ≠ some '_'))

/-- The path that names lead to from a path. Nested routes leave no trace in it, and every other
name has a slash before it, except a parameter that comes while the path is empty. -/
def pathAlong (path : String) : List String → String
  | [] => path
  | name :: names =>
    if name = nestedName then pathAlong path names
    else if path = "" ∧ name.toList.head? = some ':' then pathAlong name names
    else pathAlong (path ++ "/" ++ name) names

/-- A property that a descent takes: its place among the properties of a descriptor, its name and
the descriptor that it leads to. -/
structure Step (H : Type) where
  position : Nat
  name : String
  handle : H

variable {H I : Type}

/-- `Descent sys h steps t` goes from `h` down to `t` by the steps. -/
inductive Descent (sys : HandleSystem H I) : H → List (Step H) → H → Prop where
  | here (h : H) : Descent sys h [] h
  | down {h t : H} {s : Step H} {steps : List (Step H)} {properties : List (String × H)} :
      sys.properties h = .ok properties →
      properties[s.position]? = some (s.name, s.handle) → LeadsDown s.name →
      Descent sys s.handle steps t → Descent sys h (s :: steps) t

/-- A method of a descriptor at the end of a descent. -/
structure Site (H : Type) where
  steps : List (Step H)
  /-- The place of the method among the properties of the last descriptor. -/
  position : Nat
  method : Method
  descriptor : H

namespace Site

def names (s : Site H) : List String := s.steps.map Step.name

def path (start : String) (s : Site H) : String := pathAlong start s.names

/-- The descriptors on the way from the root to the method. -/
def passed (root : H) (s : Site H) : List H := root :: s.steps.map Step.handle

def positions (s : Site H) : List Nat := s.steps.map Step.position ++ [s.position]

/-- The site as it is seen from one descriptor higher. -/
def under (first : Step H) (s : Site H) : Site H := { s with steps := first :: s.steps }

end Site

/-- The last descriptor of a site is reached by its steps and declares its method. -/
def Declares (sys : HandleSystem H I) (root : H) (s : Site H) : Prop :=
  ∃ last properties, Descent sys root s.steps last ∧ sys.properties last = .ok properties ∧
    properties[s.position]? = some (s.method.name, s.descriptor)

/-- The sites that are documented: no descriptor is passed twice, at most so many are passed, and
the path is not empty. -/
structure IsSite (sys : HandleSystem H I) (root : H) (start : String) (s : Site H) : Prop where
  declared : Declares sys root s
  distinct : ((s.passed root).filterMap sys.identity?).Nodup
  bounded : (s.passed root).length ≤ maxAncestors + 1
  placed : s.path start ≠ ""

/-- A method's descriptor whose properties can be read and whose parts are written as texts. -/
def IsReadable (sys : HandleSystem H I) (descriptor : H) : Prop :=
  ∃ properties, sys.properties descriptor = .ok properties ∧
    ∀ p ∈ properties, Parts.isPart p.1 → ∃ text, sys.express p.2 = .ok (.text text)

section Names

variable {path name : String}

theorem role_eq_endpoint_iff {m : Method} : role name = .endpoint m ↔ name = m.name := by
  constructor
  · intro h
    unfold role at h
    split at h
    · rename_i m' hm
      cases h
      exact (Method.name_of_ofName? hm).symm
    · split at h
      · cases h
      · split at h <;> cases h
  · rintro rfl
    simp [role, Method.ofName?_name]

theorem ofName?_eq_none_iff : Method.ofName? name = none ↔ ∀ m : Method, name ≠ m.name := by
  constructor
  · rintro h m rfl
    rw [Method.ofName?_name] at h
    cases h
  · intro h
    cases hm : Method.ofName? name with
    | none => rfl
    | some m => exact (h m (Method.name_of_ofName? hm).symm).elim

theorem role_eq_nested_iff : role name = .nested ↔ name = nestedName := by
  constructor
  · intro h
    unfold role at h
    split at h
    · cases h
    · split at h
      · assumption
      · split at h <;> cases h
  · rintro rfl
    decide

theorem isPrivate_eq_false_iff :
    isPrivate name = false ↔ name.toList.head? ≠ some '~' ∧ name.toList.head? ≠ some '_' := by
  unfold isPrivate
  cases name.toList with
  | nil => simp
  | cons c cs => simp

/-- Exactly the names of nested routes and of segments lead down. -/
theorem leadsDown_iff : LeadsDown name ↔ role name = .nested ∨ role name = .segment := by
  unfold LeadsDown
  rw [← ofName?_eq_none_iff, ← isPrivate_eq_false_iff]
  cases hm : Method.ofName? name with
  | some m => simp [role, hm]
  | none =>
    by_cases hn : name = nestedName
    · subst hn
      simp [role_eq_nested_iff, show nestedName ∉ internalNames by decide]
    · by_cases hi : name ∈ internalNames
      · simp [role, hm, hn, hi]
      · cases hp : isPrivate name <;> simp [role, hm, hn, hi, hp]

theorem pathAlong_nested (names : List String) :
    pathAlong path (nestedName :: names) = pathAlong path names := by
  simp [pathAlong]

theorem pathAlong_segment (h : role name = .segment) (names : List String) :
    pathAlong path (name :: names) = pathAlong (extend path name) names := by
  have hn : name ≠ nestedName := by
    intro heq
    rw [role_eq_nested_iff.mpr heq] at h
    cases h
  by_cases hp : path = "" ∧ name.toList.head? = some ':'
  · simp [pathAlong, extend, hn, hp.1, hp.2]
  · have he : (path.isEmpty && name.toList.head? == some ':') = false := by
      simpa using hp
    simp only [pathAlong, extend, hn, hp, he, if_false, Bool.false_eq_true]

end Names

end RouteCatalog.Route
