import RouteCatalog.Proofs.Property
import RouteCatalog.Proofs.RouteEnumeration

/-! Where the records of a walk come from. Whenever a walk returns, each of its records is that of a
site, and the parameters in it are those that the site's descriptor states, after their repair. -/

namespace RouteCatalog

namespace Route

variable {H I : Type} {sys : HandleSystem H I}

section Records

variable {root h : H} {start path : String} {records found : List Endpoint} {e : Endpoint}

/-- A walk of a descriptor that is new on the way takes its properties one after the other. -/
theorem walkWithin_of_properties [DecidableEq I] {levels : Nat} {ancestors : List I}
    {properties : List (String × H)}
    (hnew : (sys.identity? h).any (ancestors.contains ·) = false)
    (hok : sys.properties h = .ok properties) :
    sys.walkWithin (levels + 1) ancestors h path =
      (properties.mapM (sys.endpointsOf (sys.walkWithin levels
        ((sys.identity? h).toList ++ ancestors)) path)).map List.flatten := by
  unfold HandleSystem.walkWithin
  rw [if_neg (Bool.eq_false_iff.mp hnew), hok]
  rfl

/-- What a property contributes to a walk are the records of its sites. -/
theorem mapM_recordOf_of_endpointsOf {deeper : H → String → Except Failure (List Endpoint)}
    {sites : H → String → List (Site H)} {i : Nat} {p : String × H}
    (hbelow : ∀ q found, deeper p.2 q = .ok found → (sites p.2 q).mapM (recordOf sys q) = .ok found)
    (hfound : sys.endpointsOf deeper path p = .ok found) :
    (sitesOf sites path i p).mapM (recordOf sys path) = .ok found := by
  unfold HandleSystem.endpointsOf at hfound
  unfold sitesOf
  cases hrole : role p.1 with
  | endpoint m =>
    rw [hrole] at hfound
    by_cases hpath : path.isEmpty = true
    · simp only [hpath, if_true] at hfound ⊢
      exact hfound
    · simp only [hpath, Bool.false_eq_true, if_false] at hfound ⊢
      obtain ⟨r, hr, rfl⟩ := map_eq_ok_iff.mp hfound
      exact mapM_eq_ok_iff.mpr (.cons hr .nil)
  | nested =>
    rw [hrole] at hfound
    rw [mapM_recordOf_under, pathAlong_of_role_eq_nested hrole]
    exact hbelow _ _ hfound
  | internal =>
    rw [hrole] at hfound
    exact hfound
  | segment =>
    rw [hrole] at hfound
    rw [mapM_recordOf_under, pathAlong_of_role_eq_segment hrole]
    exact hbelow _ _ hfound

variable [DecidableEq I]

theorem mapM_recordOf_of_walkWithin (levels : Nat) (ancestors : List I) (h : H) (path : String)
    (hwalk : sys.walkWithin levels ancestors h path = .ok records) :
    (sitesWithin sys levels ancestors h path).mapM (recordOf sys path) = .ok records := by
  induction levels generalizing ancestors h path records with
  | zero => exact hwalk
  | succ levels ih =>
    unfold HandleSystem.walkWithin at hwalk
    unfold sitesWithin
    split at hwalk
    · rename_i hseen
      rw [if_pos hseen]
      exact hwalk
    · rename_i hnew
      rw [if_neg hnew]
      obtain ⟨properties, hok, hwalk⟩ := bind_eq_ok_iff.mp hwalk
      obtain ⟨found, hfound, hrecords⟩ := bind_eq_ok_iff.mp hwalk
      cases hrecords
      have hproperties : propertiesOf sys h = properties := by
        simp [propertiesOf, liftFault_eq_ok_iff.mp hok]
      rw [hproperties, mapM_flatMap]
      refine bind_eq_ok_iff.mpr ⟨found, ?_, rfl⟩
      rw [mapM_eq_ok_iff, ← List.zipIdx_map_fst 0 properties, List.forall₂_map_left_iff] at hfound
      rw [mapM_eq_ok_iff]
      apply hfound.imp
      rintro ⟨p, i⟩ es hes
      exact mapM_recordOf_of_endpointsOf (fun q _ hq => ih _ p.2 q hq) hes

/-- The records of a walk are those of its sites, one after the other. -/
theorem exists_sites_of_walk (hwalk : sys.walk root start = .ok records) :
    ∃ sites : List (Site H), (∀ s, s ∈ sites ↔ IsSite sys root start s) ∧
      List.Forall₂ (fun s r => recordOf sys start s = .ok r) sites records := by
  refine ⟨sitesWithin sys (maxAncestors + 1) [] root start, fun s => ?_, ?_⟩
  · rw [mem_sitesWithin_iff, isSiteWithin_iff]
  · exact mapM_eq_ok_iff.mp (mapM_recordOf_of_walkWithin _ _ root start hwalk)

theorem exists_site_of_mem_walk (hwalk : sys.walk root start = .ok records) (he : e ∈ records) :
    ∃ s, IsSite sys root start s ∧ recordOf sys start s = .ok e := by
  obtain ⟨sites, hsites, hrecords⟩ := exists_sites_of_walk hwalk
  obtain ⟨s, hs, hrecord⟩ := exists_of_mem_mapM (mapM_eq_ok_iff.mpr hrecords) he
  exact ⟨s, (hsites s).mp hs, hrecord⟩

end Records

/-- The parameter type that a method's descriptor states: of several the last one, and without any
the type of an empty object. -/
def StatesParams (sys : HandleSystem H I) (descriptor : H) (text : String) : Prop :=
  ∃ properties, sys.properties descriptor = .ok properties ∧
    match properties.reverse.find? (·.1 == "params") with
    | none => text = "\x7b\x7d"
    | some p => sys.express p.2 = .ok (.text text)

/-- The parameters of a record: the type that is stated, after its repair, unless that is the type
of an empty object. -/
def recordedParams (stated path : String) : Option String :=
  let repaired := (repairedParams? stated path).getD stated
  if repaired = "\x7b\x7d" then none else some repaired

theorem recordedParams_of_unread {stated : String} (hmark : unresolvedMark.toList <+: stated.toList)
    (hliteral : unresolvedLiteral? stated = none) (path : String) :
    recordedParams stated path =
      if paramsType path = "\x7b\x7d" then none else some (paramsType path) := by
  obtain ⟨rest, hrest⟩ := hmark
  have hrepaired : repairedParams? stated path = some (paramsType path) := by
    rw [repairedParams?, Text.after?_eq_some_iff.mpr hrest.symm, hliteral]
    rfl
  rw [recordedParams, hrepaired]
  rfl

end Route

namespace Parts

variable {parts repaired : Parts} {path name : String} {m : Method} {e : Endpoint} {l : Label}

theorem params_set? (parts : Parts) (name : String) (l : Label) :
    ((parts.set? name l).getD parts).params = if name = "params" then l else parts.params := by
  unfold set?
  split <;> simp_all

theorem params_repair (h : parts.repair path = .ok repaired) :
    ∃ stated, parts.params = .text stated ∧
      repaired.params = .text ((Route.repairedParams? stated path).getD stated) := by
  unfold repair at h
  split at h
  · rename_i stated hstated
    cases h
    exact ⟨stated, hstated, rfl⟩
  · cases h
  · cases h

theorem params_check {text : String} (h : parts.check path m = .valid e)
    (hparams : parts.params = .text text) :
    e.params = if text = "\x7b\x7d" then none else some text := by
  unfold check at h
  rw [hparams, checkOptionalText_present] at h
  cases hb : (present "unknown" parts.body).checkOptionalText <;>
    cases hq : (present "unknown" parts.query).checkOptionalText <;>
    cases hr : (value parts.response).checkText <;>
    rw [hb, hq, hr] at h <;> cases h
  rfl

end Parts

namespace HandleSystem

variable {H I : Type} {sys : HandleSystem H I}

/-- Of the parameter types among the properties the last one counts. -/
theorem params_collectParts {parts collected : Parts} {properties : List (String × H)}
    (h : sys.collectParts parts properties = .ok collected) :
    match properties.reverse.find? (·.1 == "params") with
    | none => collected.params = parts.params
    | some p => sys.express p.2 = .ok collected.params := by
  induction properties generalizing parts with
  | nil =>
    cases h
    rfl
  | cons p rest ih =>
    rw [List.reverse_cons, List.find?_append]
    unfold collectParts at h
    split at h
    · obtain ⟨l, hl, h⟩ := bind_eq_ok_iff.mp h
      have hrest := ih h
      cases hlater : rest.reverse.find? (·.1 == "params") with
      | some q =>
        rw [hlater] at hrest
        exact hrest
      | none =>
        rw [hlater, Parts.params_set?] at hrest
        by_cases hname : p.1 = "params"
        · simp only [hname, if_true] at hrest
          simp [hname, hl, hrest]
        · simp only [hname, if_false] at hrest
          simp [hname, hrest]
    · rename_i hpart
      have hname : p.1 ≠ "params" := by
        rintro hname
        exact hpart (by rw [hname]; decide)
      have hrest := ih h
      cases hlater : rest.reverse.find? (·.1 == "params") with
      | some q =>
        rw [hlater] at hrest
        exact hrest
      | none =>
        rw [hlater] at hrest
        simp [hname, hrest]

theorem params_endpoint {descriptor : H} {path : String} {m : Method} {e : Endpoint}
    (h : sys.endpoint descriptor path m = .ok e) :
    ∃ stated, Route.StatesParams sys descriptor stated ∧
      e.params = Route.recordedParams stated path := by
  obtain ⟨repaired, hrepaired, h⟩ := bind_eq_ok_iff.mp h
  obtain ⟨properties, hok, hrepaired⟩ := bind_eq_ok_iff.mp (Route.liftFault_eq_ok_iff.mp hrepaired)
  obtain ⟨collected, hcollected, hrepaired⟩ := bind_eq_ok_iff.mp hrepaired
  obtain ⟨stated, hstated, htext⟩ := Parts.params_repair hrepaired
  refine ⟨stated, ⟨properties, hok, ?_⟩, ?_⟩
  · have hparams := params_collectParts hcollected
    cases hlast : properties.reverse.find? (·.1 == "params") with
    | none =>
      rw [hlast, hstated] at hparams
      exact Label.text.inj hparams
    | some p =>
      rw [hlast, hstated] at hparams
      exact hparams
  · cases hc : repaired.check path m with
    | invalid findings =>
      rw [hc] at h
      cases h
    | valid e' =>
      rw [hc] at h
      cases h
      exact Parts.params_check hc htext

end HandleSystem

namespace Graph

variable {g : Graph} {n : Normalizer} {h : Handle}

theorem properties_handles_of_object (ps : List Property) (hkind : g.kind? h = some .object)
    (hps : g.ownProperties h = .ok ps) :
    (g.handles n).properties h = .ok (ps.map fun p => (p.name, p.type)) := by
  have hproperties : g.properties h = .ok ps := (propertiesWithin_of_object hkind).trans hps
  exact map_eq_ok_iff.mpr ⟨ps, hproperties, rfl⟩

end Graph

end RouteCatalog
