import RouteCatalog.Proofs.RecordOrigin

/-! Walks of one descriptor from two places. A path that is not empty decides neither which methods
are documented nor how a walk goes on, so that both walks come to the same sites. It reaches nothing
of a record but the parameter type that is repaired from the path of that record. -/

namespace RouteCatalog

section Outcomes

variable {α β γ δ ε ι : Type} {R : α → β → Prop} {S : γ → δ → Prop}

inductive SameOutcome (R : α → β → Prop) : Except ε α → Except ε β → Prop where
  | ok {a : α} {b : β} : R a b → SameOutcome R (.ok a) (.ok b)
  | error (e : ε) : SameOutcome R (.error e) (.error e)

namespace SameOutcome

variable {x : Except ε α} {y : Except ε β}

theorem imp {R' : α → β → Prop} (h : SameOutcome R x y)
    (hR : ∀ a b, x = .ok a → y = .ok b → R a b → R' a b) : SameOutcome R' x y := by
  cases h with
  | ok hab => exact .ok (hR _ _ rfl rfl hab)
  | error e => exact .error e

theorem exists_ok (h : SameOutcome R x y) (hx : ∃ a, x = .ok a) : ∃ b, y = .ok b := by
  cases h with
  | ok hab => exact ⟨_, rfl⟩
  | error e =>
    obtain ⟨a, ha⟩ := hx
    cases ha

theorem bind {f : α → Except ε γ} {g : β → Except ε δ} (h : SameOutcome R x y)
    (hf : ∀ a b, R a b → SameOutcome S (f a) (g b)) : SameOutcome S (x >>= f) (y >>= g) := by
  cases h with
  | ok hab => exact hf _ _ hab
  | error e => exact .error e

theorem bind_same {z : Except ε ι} {f : ι → Except ε γ} {g : ι → Except ε δ}
    (hf : ∀ i, z = .ok i → SameOutcome S (f i) (g i)) : SameOutcome S (z >>= f) (z >>= g) := by
  cases z with
  | ok i => exact hf i rfl
  | error e => exact .error e

theorem mapM {f : ι → Except ε α} {g : ι → Except ε β} {is : List ι}
    (h : ∀ i ∈ is, SameOutcome R (f i) (g i)) :
    SameOutcome (List.Forall₂ R) (is.mapM f) (is.mapM g) := by
  induction is with
  | nil => exact .ok .nil
  | cons i is ih =>
    rw [List.mapM_cons, List.mapM_cons]
    apply (h i List.mem_cons_self).bind
    intro a b hab
    apply (ih fun j hj => h j (List.mem_cons_of_mem i hj)).bind
    intro as bs hall
    exact .ok (.cons hab hall)

end SameOutcome

end Outcomes

namespace Route

variable {path name p q stated : String}

section Paths

/-- Behind a path that is not empty, names have the same end. -/
theorem exists_suffix_pathAlong (names : List String) :
    ∃ suffix, ∀ p, p ≠ "" → pathAlong p names = p ++ suffix := by
  induction names with
  | nil => exact ⟨"", fun p _ => String.append_empty.symm⟩
  | cons name names ih =>
    obtain ⟨suffix, hsuffix⟩ := ih
    by_cases hname : name = nestedName
    · refine ⟨suffix, ?_⟩
      intro p hp
      rw [hname, pathAlong_nested, hsuffix p hp]
    · refine ⟨"/" ++ name ++ suffix, ?_⟩
      intro p hp
      have hroot : ¬(p = "" ∧ name.toList.head? = some ':') := fun h => hp h.1
      have hlonger : p ++ "/" ++ name ≠ "" := by simp [hp]
      rw [pathAlong, if_neg hname, if_neg hroot, hsuffix _ hlonger]
      simp only [String.append_assoc]

end Paths

section Params

/-- A parameter type that was not resolved and holds no literal from which it could be repaired. -/
def IsUnread (stated : String) : Prop :=
  unresolvedMark.toList <+: stated.toList ∧ unresolvedLiteral? stated = none

def listedParams (path : String) : Option String :=
  if paramsType path = "\x7b\x7d" then none else some (paramsType path)

theorem recordedParams_of_isUnread (h : IsUnread stated) :
    recordedParams stated path = listedParams path :=
  recordedParams_of_unread h.1 h.2 path

/-- The path does not matter for a parameter type that is resolved or repaired from a literal. -/
theorem recordedParams_of_not_isUnread (h : ¬ IsUnread stated) :
    recordedParams stated p = recordedParams stated q := by
  have hrepaired : repairedParams? stated p = repairedParams? stated q := by
    unfold repairedParams?
    cases hmark : Text.after? unresolvedMark.toList stated.toList with
    | none => rfl
    | some rest =>
      cases hliteral : unresolvedLiteral? stated with
      | some literal => rfl
      | none => exact (h ⟨⟨rest, (Text.after?_eq_some_iff.mp hmark).symm⟩, hliteral⟩).elim
  rw [recordedParams, recordedParams, hrepaired]

end Params

end Route

namespace Parts

theorem check_relocated (parts : Parts) (m : Method) (path path' text text' : String) :
    SameOutcome (fun e e' : Endpoint => e' = { e with path := e'.path, params := e'.params })
      (Parts.check path m { parts with params := .text text }).toExcept
      (Parts.check path' m { parts with params := .text text' }).toExcept := by
  unfold check
  simp only [checkOptionalText_present]
  cases (present "unknown" parts.body).checkOptionalText <;>
    cases (present "unknown" parts.query).checkOptionalText <;>
    cases (value parts.response).checkText
  case valid.valid.valid => exact .ok rfl
  all_goals exact .error _

end Parts

namespace HandleSystem

open Route

variable {H I : Type} (sys : HandleSystem H I)

theorem endpoint_relocated (descriptor : H) (m : Method) (path path' : String) :
    SameOutcome (fun e e' : Endpoint => e' = { e with path := e'.path, params := e'.params })
      (sys.endpoint descriptor path m) (sys.endpoint descriptor path' m) := by
  unfold endpoint
  cases sys.properties descriptor with
  | error f => exact .error _
  | ok properties =>
    change SameOutcome _ (liftFault (sys.collectParts {} properties >>= Parts.repair path) >>= _)
      (liftFault (sys.collectParts {} properties >>= Parts.repair path') >>= _)
    cases sys.collectParts {} properties with
    | error f => exact .error _
    | ok parts =>
      change SameOutcome _ (liftFault (parts.repair path) >>= _)
        (liftFault (parts.repair path') >>= _)
      unfold Parts.repair
      split
      · exact Parts.check_relocated parts m path path' _ _
      · exact .error _
      · exact .error _

end HandleSystem

namespace Route

variable {H I : Type} {sys : HandleSystem H I} {p q : String}

theorem StatesParams.unique {descriptor : H} {text text' : String}
    (h : StatesParams sys descriptor text) (h' : StatesParams sys descriptor text') :
    text = text' := by
  obtain ⟨properties, hok, hlast⟩ := h
  obtain ⟨properties', hok', hlast'⟩ := h'
  rw [hok] at hok'
  cases hok'
  cases hfind : properties.reverse.find? (·.1 == "params") with
  | none =>
    rw [hfind] at hlast hlast'
    exact hlast.trans hlast'.symm
  | some found =>
    rw [hfind] at hlast hlast'
    exact Label.text.inj (Except.ok.inj (hlast.symm.trans hlast'))

/-- The records of one method in walks from two places. Only an unread parameter type makes a
difference behind the two places, as it is replaced by what each path shows. -/
structure IsRelocated (sys : HandleSystem H I) (descriptor : H) (p q : String)
    (r t : Endpoint) : Prop where
  path : ∃ suffix, r.path = p ++ suffix ∧ t.path = q ++ suffix
  method : r.method = t.method
  body : r.body = t.body
  query : r.query = t.query
  response : r.response = t.response
  params : ∃ stated, StatesParams sys descriptor stated ∧
    (¬ IsUnread stated → r.params = t.params) ∧
    (IsUnread stated → r.params = listedParams r.path ∧ t.params = listedParams t.path)

theorem endpoint_isRelocated (descriptor : H) (m : Method) (p q suffix : String) :
    SameOutcome (IsRelocated sys descriptor p q) (sys.endpoint descriptor (p ++ suffix) m)
      (sys.endpoint descriptor (q ++ suffix) m) := by
  apply (sys.endpoint_relocated descriptor m (p ++ suffix) (q ++ suffix)).imp
  intro r t hr ht hfields
  obtain ⟨hpath, -⟩ := HandleSystem.of_endpoint_eq_ok hr
  obtain ⟨hpath', -⟩ := HandleSystem.of_endpoint_eq_ok ht
  obtain ⟨stated, hstated, hparams⟩ := HandleSystem.params_endpoint hr
  obtain ⟨stated', hstated', hparams'⟩ := HandleSystem.params_endpoint ht
  rw [hstated'.unique hstated] at hparams'
  refine ⟨⟨suffix, hpath, hpath'⟩, ?_, ?_, ?_, ?_, stated, hstated, ?_, ?_⟩
  · rw [hfields]
  · rw [hfields]
  · rw [hfields]
  · rw [hfields]
  · intro hread
    rw [hparams, hparams', recordedParams_of_not_isUnread hread]
  · intro hunread
    rw [hpath, hpath', hparams, hparams', recordedParams_of_isUnread hunread,
      recordedParams_of_isUnread hunread]
    exact ⟨rfl, rfl⟩

theorem recordOf_relocated (hp : p ≠ "") (hq : q ≠ "") (s : Site H) :
    SameOutcome (IsRelocated sys s.descriptor p q) (recordOf sys p s) (recordOf sys q s) := by
  obtain ⟨suffix, hsuffix⟩ := exists_suffix_pathAlong s.names
  have hpath : s.path p = p ++ suffix := hsuffix p hp
  have hpath' : s.path q = q ++ suffix := hsuffix q hq
  rw [recordOf, recordOf, hpath, hpath']
  exact endpoint_isRelocated s.descriptor s.method p q suffix

theorem mapM_recordOf_relocated (hp : p ≠ "") (hq : q ≠ "") {root : H} {sites : List (Site H)}
    (hsites : ∀ s ∈ sites, IsSite sys root p s) :
    SameOutcome (List.Forall₂ fun r t => ∃ s, IsSite sys root p s ∧ recordOf sys p s = .ok r ∧
        recordOf sys q s = .ok t ∧ IsRelocated sys s.descriptor p q r t)
      (sites.mapM (recordOf sys p)) (sites.mapM (recordOf sys q)) := by
  apply SameOutcome.mapM
  intro s hs
  apply (recordOf_relocated hp hq s).imp
  intro r t hr ht hrelocated
  exact ⟨s, hsites s hs, hr, ht, hrelocated⟩

theorem extend_ne_empty (hp : p ≠ "") (name : String) : extend p name ≠ "" := by
  unfold extend
  split <;> simp_all

variable [DecidableEq I]

theorem sitesWithin_relocated (hp : p ≠ "") (hq : q ≠ "") (levels : Nat) (ancestors : List I)
    (h : H) : sitesWithin sys levels ancestors h p = sitesWithin sys levels ancestors h q := by
  induction levels generalizing ancestors h p q with
  | zero => rfl
  | succ levels ih =>
    unfold sitesWithin
    split_ifs with hseen
    · rfl
    · apply List.flatMap_congr
      rintro ⟨⟨name, below⟩, i⟩ -
      change sitesOf _ p i (name, below) = sitesOf _ q i (name, below)
      unfold sitesOf
      cases role name with
      | endpoint m => simp only [String.isEmpty_iff, hp, hq, if_false]
      | nested => rw [ih hp hq]
      | internal => rfl
      | segment => rw [ih (extend_ne_empty hp name) (extend_ne_empty hq name)]

/-- Two runs of a walk ask the same questions in the same order, and none of them is answered
otherwise for the sake of the path. -/
theorem walkWithin_relocated (hp : p ≠ "") (hq : q ≠ "") (levels : Nat) (ancestors : List I)
    (h : H) : SameOutcome (fun _ _ => True) (sys.walkWithin levels ancestors h p)
      (sys.walkWithin levels ancestors h q) := by
  induction levels generalizing ancestors h p q with
  | zero => exact .ok trivial
  | succ levels ih =>
    unfold HandleSystem.walkWithin
    split_ifs with hseen
    · exact .ok trivial
    · apply SameOutcome.bind_same
      intro properties _
      apply (SameOutcome.mapM (R := fun _ _ => True) ?_).bind
      · intro found found' _
        exact .ok trivial
      · rintro ⟨name, below⟩ -
        unfold HandleSystem.endpointsOf
        cases role name with
        | endpoint m =>
          simp only [String.isEmpty_iff, hp, hq, if_false]
          apply (sys.endpoint_relocated below m p q).bind
          intro e e' _
          exact .ok trivial
        | nested => exact ih hp hq _ _
        | internal => exact .ok trivial
        | segment => exact ih (extend_ne_empty hp name) (extend_ne_empty hq name) _ _

/-- Walks of one descriptor from two places that are not empty have the same records, place by
place: those of the same sites, with paths that end alike and with all else in common but the
parameters that are read off the two paths. If one of the walks fails, the other fails alike. -/
theorem walk_commutes_with_relocation (sys : HandleSystem H I) (root : H) (hp : p ≠ "")
    (hq : q ≠ "") :
    SameOutcome (List.Forall₂ fun r t => ∃ s, IsSite sys root p s ∧ recordOf sys p s = .ok r ∧
        recordOf sys q s = .ok t ∧ IsRelocated sys s.descriptor p q r t)
      (sys.walk root p) (sys.walk root q) ∧
    (IsOpen sys root → (∀ s, IsSite sys root p s → IsReadable sys s.descriptor) →
      (∃ records, sys.walk root p = .ok records) ∧ ∃ records, sys.walk root q = .ok records) := by
  have houtcome : SameOutcome (fun _ _ => True) (sys.walk root p) (sys.walk root q) :=
    walkWithin_relocated hp hq _ [] root
  have hsites : ∀ s, s ∈ sitesWithin sys (maxAncestors + 1) [] root p ↔ IsSite sys root p s := by
    intro s
    rw [mem_sitesWithin_iff, isSiteWithin_iff]
  constructor
  · apply houtcome.imp
    intro records records' hwalk hwalk' _
    have hrecords := mapM_recordOf_of_walkWithin _ _ root p hwalk
    have hrecords' := mapM_recordOf_of_walkWithin _ _ root q hwalk'
    rw [← sitesWithin_relocated hp hq] at hrecords'
    have hall := mapM_recordOf_relocated hp hq fun s hs => (hsites s).mp hs
    rw [hrecords, hrecords'] at hall
    cases hall with
    | ok h => exact h
  · intro hopen hreadable
    have hreturns : ∃ records, sys.walk root p = .ok records := by
      obtain ⟨records, hok⟩ := exists_mapM_eq_ok (f := recordOf sys p) fun s hs =>
        HandleSystem.exists_endpoint_eq_ok (hreadable s ((hsites s).mp hs)) (s.path p) s.method
      exact ⟨records, (walkWithin_eq_mapM _ [] root p hopen).trans hok⟩
    exact ⟨hreturns, houtcome.exists_ok hreturns⟩

/-- A descriptor that leads back to itself behind a parameter. Of the parameter types of its two
methods only the second one can be read. -/
def winding : HandleSystem Nat Nat where
  identity? := some
  properties
    | 0 => .ok [("get", 1), ("post", 2), (":id", 3)]
    | 1 => .ok [("params", 4)]
    | 2 => .ok [("params", 5), ("body", 6)]
    | 3 => .ok [("~Routes", 0), ("delete", 1)]
    | _ => .ok []
  express
    | 4 => .ok (.text "_ResolvePath<Path>")
    | 5 => .ok (.text "_ResolvePath<\"users/:id\">")
    | _ => .ok (.text "string")

theorem walk_winding :
    "/v1/:tenant" ≠ "" ∧ "/v2" ≠ "" ∧ IsOpen winding 0 ∧
      (∀ s, IsSite winding 0 "/v1/:tenant" s → IsReadable winding s.descriptor) ∧
      ∃ records records', winding.walk 0 "/v1/:tenant" = .ok records ∧
        winding.walk 0 "/v2" = .ok records' ∧
        records = [⟨"/v1/:tenant", .get, none, some "\x7btenant: string\x7d", none, "\x7b\x7d"⟩,
          ⟨"/v1/:tenant", .post, some "string", some "\x7bid: string\x7d", none, "\x7b\x7d"⟩,
          ⟨"/v1/:tenant/:id", .delete, none, some "\x7btenant: string, id: string\x7d", none,
            "\x7b\x7d"⟩] ∧
        records' = [⟨"/v2", .get, none, none, none, "\x7b\x7d"⟩,
          ⟨"/v2", .post, some "string", some "\x7bid: string\x7d", none, "\x7b\x7d"⟩,
          ⟨"/v2/:id", .delete, none, some "\x7bid: string\x7d", none, "\x7b\x7d"⟩] ∧
        List.Forall₂ (fun r t => ∃ s, IsSite winding 0 "/v1/:tenant" s ∧
          recordOf winding "/v1/:tenant" s = .ok r ∧ recordOf winding "/v2" s = .ok t ∧
          IsRelocated winding s.descriptor "/v1/:tenant" "/v2" r t) records records' := by
  have hp : "/v1/:tenant" ≠ "" := by decide
  have hq : "/v2" ≠ "" := by decide
  have hproperties : ∀ h, ∃ properties, winding.properties h = .ok properties := by
    intro h
    unfold winding
    dsimp only
    split <;> exact ⟨_, rfl⟩
  have hexpress : ∀ h, ∃ text, winding.express h = .ok (.text text) := by
    intro h
    unfold winding
    dsimp only
    split <;> exact ⟨_, rfl⟩
  have hopen : IsOpen winding 0 := fun _ last _ => hproperties last
  have hreadable : ∀ s, IsSite winding 0 "/v1/:tenant" s → IsReadable winding s.descriptor := by
    intro s _
    obtain ⟨properties, hok⟩ := hproperties s.descriptor
    exact ⟨properties, hok, fun found _ _ => hexpress found.2⟩
  obtain ⟨houtcome, hreturns⟩ := walk_commutes_with_relocation winding 0 hp hq
  obtain ⟨⟨records, hwalk⟩, records', hwalk'⟩ := hreturns hopen hreadable
  rw [hwalk, hwalk'] at houtcome
  cases houtcome with
  | ok hall =>
    refine ⟨hp, hq, hopen, hreadable, records, records', hwalk, hwalk', ?_, ?_, hall⟩
    · exact Except.ok.inj (hwalk.symm.trans rfl)
    · exact Except.ok.inj (hwalk'.symm.trans rfl)

end Route

end RouteCatalog
