import RouteCatalog.Proofs.MemberChain
import RouteCatalog.Proofs.RouteEnumeration

/-! Whether a walk returns. Descents that pass a descriptor twice or grow too long are cut off, so
that the walk itself always ends; it returns exactly if every descriptor that it asks for its
properties has some. In a graph of well-shaped types with acyclic aliases only an intersection that
contains itself has none. -/

namespace RouteCatalog

namespace Route

variable {H I : Type} {sys : HandleSystem H I} {S : H → Prop} {levels : Nat} {ancestors : List I}
  {h t : H} {path : String}

/-- The descriptors that a walk asks for their properties: those at the ends of simple descents, and
those of the methods that are documented. -/
inductive IsAsked (sys : HandleSystem H I) (root : H) (start : String) : H → Prop where
  | passed {steps : List (Step H)} {last : H} : Descent sys root steps last →
      ((root :: steps.map Step.handle).filterMap sys.identity?).Nodup →
      (root :: steps.map Step.handle).length ≤ maxAncestors + 1 → IsAsked sys root start last
  | method {s : Site H} : IsSite sys root start s → IsAsked sys root start s.descriptor

inductive IsAskedWithin (sys : HandleSystem H I) (levels : Nat) (ancestors : List I) (h : H)
    (path : String) : H → Prop where
  | passed {steps : List (Step H)} {last : H} : Descent sys h steps last →
      Fresh sys ancestors (h :: steps.map Step.handle) →
      (h :: steps.map Step.handle).length ≤ levels → IsAskedWithin sys levels ancestors h path last
  | method {s : Site H} : IsSiteWithin sys levels ancestors h path s →
      IsAskedWithin sys levels ancestors h path s.descriptor

section Asked

theorem isAskedWithin_iff :
    IsAskedWithin sys (maxAncestors + 1) [] h path t ↔ IsAsked sys h path t := by
  constructor
  · rintro (⟨hdescent, hfresh, hbounded⟩ | hs)
    · exact .passed hdescent hfresh.1 hbounded
    · exact .method (isSiteWithin_iff.mp hs)
  · rintro (⟨hdescent, hdistinct, hbounded⟩ | hs)
    · exact .passed hdescent ⟨hdistinct, by simp⟩ hbounded
    · exact .method (isSiteWithin_iff.mpr hs)

theorem not_isAskedWithin_zero : ¬ IsAskedWithin sys 0 ancestors h path t := by
  rintro (⟨-, -, hbounded⟩ | hs)
  · simp at hbounded
  · have hbounded := hs.bounded
    simp [Site.passed] at hbounded

/-- What is asked below a new descriptor: itself, its methods, and what is asked further down. -/
theorem isAskedWithin_succ_iff : IsAskedWithin sys (levels + 1) ancestors h path t ↔
    (∀ i ∈ sys.identity? h, i ∉ ancestors) ∧ (t = h ∨
      ∃ properties, sys.properties h = .ok properties ∧ ∃ p ∈ properties,
        (∃ m : Method, p.1 = m.name ∧ path ≠ "" ∧ t = p.2) ∨
        LeadsDown p.1 ∧ IsAskedWithin sys levels ((sys.identity? h).toList ++ ancestors) p.2
          (pathAlong path [p.1]) t) := by
  constructor
  · rintro (⟨hdescent, hfresh, hbounded⟩ | @⟨⟨steps, position, m, d⟩, hs⟩)
    · obtain ⟨hnew, hbelow⟩ := fresh_cons_iff.mp hfresh
      refine ⟨hnew, ?_⟩
      cases hdescent with
      | here => exact .inl rfl
      | @down _ _ s steps properties hok hget hname hrest =>
        have hle := Nat.le_of_succ_le_succ hbounded
        exact .inr ⟨properties, hok, (s.name, s.handle), List.mem_of_getElem? hget,
          .inr ⟨hname, .passed hrest hbelow hle⟩⟩
    · cases steps with
      | nil =>
        obtain ⟨hnew, hget, hpath⟩ := isSiteWithin_here_iff.mp hs
        obtain ⟨properties, hok, hget⟩ := getElem?_propertiesOf.mp hget
        exact ⟨hnew, .inr ⟨properties, hok, _, List.mem_of_getElem? hget, .inl ⟨m, rfl, hpath, rfl⟩⟩⟩
      | cons first steps =>
        obtain ⟨hnew, hget, hname, hbelow⟩ :=
          isSiteWithin_under_iff (s := ⟨steps, position, m, d⟩).mp hs
        obtain ⟨properties, hok, hget⟩ := getElem?_propertiesOf.mp hget
        exact ⟨hnew, .inr ⟨properties, hok, _, List.mem_of_getElem? hget,
          .inr ⟨hname, .method (s := ⟨steps, position, m, d⟩) hbelow⟩⟩⟩
  · rintro ⟨hnew, rfl | ⟨properties, hok, p, hp, hbelow⟩⟩
    · exact .passed (.here t) (fresh_cons_iff.mpr ⟨hnew, by simp [Fresh]⟩) (by simp)
    · obtain ⟨i, hget⟩ := List.mem_iff_getElem?.mp hp
      have hget' := getElem?_propertiesOf.mpr ⟨properties, hok, hget⟩
      rcases hbelow with ⟨m, hm, hpath, rfl⟩ | ⟨hname, hbelow⟩
      · refine .method (s := ⟨[], i, m, p.2⟩) (isSiteWithin_here_iff.mpr ⟨hnew, ?_, hpath⟩)
        rw [hget', ← hm]
      · rcases hbelow with ⟨hdescent, hfresh, hbounded⟩ | @⟨s, hs⟩
        · exact .passed (.down (s := ⟨i, p.1, p.2⟩) hok hget hname hdescent)
            (fresh_cons_iff.mpr ⟨hnew, hfresh⟩) (Nat.succ_le_succ hbounded)
        · exact .method (s := s.under ⟨i, p.1, p.2⟩)
            (isSiteWithin_under_iff.mpr ⟨hnew, hget', hname, hs⟩)

end Asked

/-- A property of descriptors that is handed on to what their properties lead to, and with which a
descriptor is written as a text and lacks properties only where these never end. -/
structure Carries (sys : HandleSystem H I) (S : H → Prop) : Prop where
  properties : ∀ h properties, S h → sys.properties h = .ok properties → ∀ p ∈ properties, S p.2
  fails : ∀ h, S h → FailsOnly (sys.properties h) (· = .endless)
  express : ∀ h, S h → ∃ text, sys.express h = .ok (.text text)

section Returns

variable {p : String × H} {deeper : H → String → Except Failure (List Endpoint)}

theorem Carries.isReadable (hS : Carries sys S) (hh : S h) {properties : List (String × H)}
    (hok : sys.properties h = .ok properties) : IsReadable sys h :=
  ⟨properties, hok, fun p hp _ => hS.express p.2 (hS.properties h properties hh hok p hp)⟩

theorem Carries.exists_endpoint_iff (hS : Carries sys S) (hh : S h) (path : String) (m : Method) :
    (∃ e, sys.endpoint h path m = .ok e) ↔ ∃ properties, sys.properties h = .ok properties := by
  constructor
  · rintro ⟨e, he⟩
    cases hproperties : sys.properties h with
    | ok properties => exact ⟨properties, rfl⟩
    | error f => simp [HandleSystem.endpoint, hproperties, bind, Except.bind, liftFault] at he
  · rintro ⟨properties, hok⟩
    exact HandleSystem.exists_endpoint_eq_ok (hS.isReadable hh hok) path m

theorem Carries.failsOnly_endpoint (hS : Carries sys S) (hh : S h) (m : Method) :
    FailsOnly (sys.endpoint h path m) (· = .fault .endless) := by
  intro e he
  cases hproperties : sys.properties h with
  | ok properties =>
    obtain ⟨r, hr⟩ := (hS.exists_endpoint_iff hh path m).mpr ⟨properties, hproperties⟩
    rw [hr] at he
    cases he
  | error f =>
    rw [hS.fails h hh f hproperties] at hproperties
    simp only [HandleSystem.endpoint, hproperties, bind, Except.bind, liftFault] at he
    cases he
    rfl

/-- A property contributes to a walk if its method can be asked, or if the walk goes on below it. -/
theorem Carries.exists_endpointsOf_iff (hS : Carries sys S) (hp : S p.2) :
    (∃ found, sys.endpointsOf deeper path p = .ok found) ↔
      (∀ m : Method, p.1 = m.name → path ≠ "" → ∃ properties, sys.properties p.2 = .ok properties) ∧
        (LeadsDown p.1 → ∃ found, deeper p.2 (pathAlong path [p.1]) = .ok found) := by
  rw [leadsDown_iff]
  unfold HandleSystem.endpointsOf
  cases hrole : role p.1 with
  | endpoint m =>
    have hname := role_eq_endpoint_iff.mp hrole
    have hmethod : (∃ found, (sys.endpoint p.2 path m).map ([·]) = .ok found) ↔
        ∃ properties, sys.properties p.2 = .ok properties := by
      rw [← hS.exists_endpoint_iff hp path m]
      cases sys.endpoint p.2 path m <;> simp [Except.map]
    by_cases hpath : path = ""
    · simp [hpath]
    · have hother : ∀ m' : Method, p.1 = m'.name → m' = m := by
        intro m' hm'
        have heq := role_eq_endpoint_iff.mpr hm'
        rw [hrole] at heq
        cases heq
        rfl
      simp only [String.isEmpty_iff, hpath, if_false, hmethod]
      refine ⟨fun hok => ⟨fun _ _ _ => hok, by simp⟩, fun hok => hok.1 m hname hpath⟩
  | nested =>
    have hno : ∀ m : Method, p.1 ≠ m.name := ne_methodName (by simp [hrole])
    simp [hno, pathAlong_of_role_eq_nested hrole]
  | internal =>
    have hno : ∀ m : Method, p.1 ≠ m.name := ne_methodName (by simp [hrole])
    simp [hno]
  | segment =>
    have hno : ∀ m : Method, p.1 ≠ m.name := ne_methodName (by simp [hrole])
    simp [hno, pathAlong_of_role_eq_segment hrole]

theorem Carries.of_isAskedWithin (hS : Carries sys S) (hh : S h)
    (ht : IsAskedWithin sys levels ancestors h path t) : S t := by
  induction levels generalizing ancestors h path with
  | zero => exact (not_isAskedWithin_zero ht).elim
  | succ levels ih =>
    obtain ⟨-, rfl | ⟨properties, hok, p, hp, ⟨m, -, -, rfl⟩ | ⟨-, ht⟩⟩⟩ :=
      isAskedWithin_succ_iff.mp ht
    · exact hh
    · exact hS.properties h properties hh hok p hp
    · exact ih (hS.properties h properties hh hok p hp) ht

variable [DecidableEq I]

/-- A walk returns exactly if all that it asks for properties has some. -/
theorem Carries.exists_walkWithin_iff (hS : Carries sys S) (hh : S h) :
    (∃ records, sys.walkWithin levels ancestors h path = .ok records) ↔
      ∀ t, IsAskedWithin sys levels ancestors h path t →
        ∃ properties, sys.properties t = .ok properties := by
  induction levels generalizing ancestors h path with
  | zero => exact ⟨fun _ t ht => (not_isAskedWithin_zero ht).elim, fun _ => ⟨[], rfl⟩⟩
  | succ levels ih =>
    simp only [isAskedWithin_succ_iff]
    unfold HandleSystem.walkWithin
    cases hseen : (sys.identity? h).any (ancestors.contains ·) with
    | true =>
      have hold : ¬ ∀ i ∈ sys.identity? h, i ∉ ancestors := by
        rw [← any_contains_eq_false_iff, hseen]
        exact Bool.noConfusion
      exact ⟨fun _ t ht => (hold ht.1).elim, fun _ => ⟨[], rfl⟩⟩
    | false =>
      have hnew := any_contains_eq_false_iff.mp hseen
      constructor
      · rintro ⟨records, hwalk⟩
        obtain ⟨properties, hok, hwalk⟩ := bind_eq_ok_iff.mp hwalk
        obtain ⟨found, hfound, -⟩ := bind_eq_ok_iff.mp hwalk
        rw [liftFault_eq_ok_iff] at hok
        rintro t ⟨-, rfl | ⟨properties', hok', p, hp, ht⟩⟩
        · exact ⟨properties, hok⟩
        · rw [hok] at hok'
          cases hok'
          have hp' := hS.properties h properties hh hok p hp
          obtain ⟨hmethod, hbelow⟩ :=
            (hS.exists_endpointsOf_iff hp').mp (exists_mapM_eq_ok_iff.mp ⟨found, hfound⟩ p hp)
          rcases ht with ⟨m, hm, hpath, rfl⟩ | ⟨hname, ht⟩
          · exact hmethod m hm hpath
          · exact (ih hp').mp (hbelow hname) t ht
      · intro hasked
        obtain ⟨properties, hok⟩ := hasked h ⟨hnew, .inl rfl⟩
        have hbelow : ∃ found, properties.mapM (sys.endpointsOf (sys.walkWithin levels
            ((sys.identity? h).toList ++ ancestors)) path) = .ok found := by
          refine exists_mapM_eq_ok fun p hp => ?_
          have hp' := hS.properties h properties hh hok p hp
          refine (hS.exists_endpointsOf_iff hp').mpr ⟨fun m hm hpath => ?_, fun hname => ?_⟩
          · exact hasked p.2 ⟨hnew, .inr ⟨properties, hok, p, hp, .inl ⟨m, hm, hpath, rfl⟩⟩⟩
          · exact (ih hp').mpr fun t ht =>
              hasked t ⟨hnew, .inr ⟨properties, hok, p, hp, .inr ⟨hname, ht⟩⟩⟩
        obtain ⟨found, hfound⟩ := hbelow
        exact ⟨found.flatten, bind_eq_ok_iff.mpr ⟨properties, liftFault_eq_ok_iff.mpr hok,
          bind_eq_ok_iff.mpr ⟨found, hfound, rfl⟩⟩⟩

theorem Carries.failsOnly_walkWithin (hS : Carries sys S) (hh : S h) :
    FailsOnly (sys.walkWithin levels ancestors h path) (· = .fault .endless) := by
  induction levels generalizing ancestors h path with
  | zero => exact .ok []
  | succ levels ih =>
    unfold HandleSystem.walkWithin
    split
    · exact .ok []
    · refine FailsOnly.bind ?_ fun properties hok => ?_
      · cases hproperties : sys.properties h with
        | ok properties => exact .ok properties
        | error f => exact .error (congrArg Failure.fault (hS.fails h hh f hproperties))
      · refine FailsOnly.bind (FailsOnly.mapM fun p hp => ?_) fun found _ => .ok _
        have hp' := hS.properties h properties hh (liftFault_eq_ok_iff.mp hok) p hp
        unfold HandleSystem.endpointsOf
        split
        · split
          · exact .ok []
          · exact (hS.failsOnly_endpoint hp' _).map _
        · exact ih hp'
        · exact .ok []
        · exact ih hp'

end Returns

end Route

namespace Graph

open Route

variable {g : Graph} {h : Handle}

theorem WellShapedFrom.of_hasMember {m : Handle} (hs : g.WellShapedFrom h) (hm : g.HasMember h m) :
    g.WellShapedFrom m := by
  obtain ⟨-, ms, hms, hmem⟩ := hm
  exact hs.part (.member hms hmem)

theorem carries_wellShapedFrom (hacyclic : g.HasAcyclicAliases) (n : Normalizer) :
    Carries (g.handles n) g.WellShapedFrom where
  properties h properties hs hok p hp := by
    obtain ⟨ps, hps, rfl⟩ := map_eq_ok_iff.mp hok
    obtain ⟨q, hq, rfl⟩ := List.mem_map.mp hp
    exact hs.of_properties hps q hq
  fails h hs := by
    refine FailsOnly.map ?_ _
    exact (failsOnly_propertiesWithin (fun _ hs => hs.self.isAskable hacyclic)
      (fun _ _ hs hm => hs.of_hasMember hm) _ h hs).mono fun _ he => he.1
  express h hs := by
    obtain ⟨l, hl, s, rfl⟩ := yields_normalizeWithin hacyclic n.detector (n.levels 0) h hs
    exact ⟨s, hl⟩

/-- In a graph of well-shaped types with acyclic aliases a walk returns unless it asks for the
properties of an intersection that contains itself; then it never ends. No other cycle of types
keeps it from returning. -/
theorem walk_returns_iff_members_end (hacyclic : g.HasAcyclicAliases) (hs : g.WellShapedFrom h)
    (n : Normalizer) (path : String) :
    ((∃ records, g.walk n h path = .ok records) ∨ g.walk n h path = .error (.fault .endless)) ∧
      ((∃ records, g.walk n h path = .ok records) ↔
        ∀ t, IsAsked (g.handles n) h path t → ¬ g.NeverEnds t) := by
  have hcarries := carries_wellShapedFrom hacyclic n
  have hasked : ∀ t, IsAsked (g.handles n) h path t →
      ((∃ properties, (g.handles n).properties t = .ok properties) ↔ ¬ g.NeverEnds t) := by
    intro t ht
    have hs' := hcarries.of_isAskedWithin hs (isAskedWithin_iff.mpr ht)
    rw [← exists_properties_iff (fun _ hs => hs.self.isAskable hacyclic)
      (fun _ _ hs hm => hs.of_hasMember hm) hs']
    change (∃ properties, (g.properties t).map _ = .ok properties) ↔ _
    cases g.properties t <;> simp [Except.map]
  constructor
  · cases hwalk : g.walk n h path with
    | ok records => exact .inl ⟨records, rfl⟩
    | error e => exact .inr (congrArg Except.error (hcarries.failsOnly_walkWithin hs e hwalk))
  · refine (hcarries.exists_walkWithin_iff hs).trans ?_
    simp only [isAskedWithin_iff]
    exact forall₂_congr hasked

/-- An object that leads back to itself and has a method that is an intersection which contains
itself. -/
def tangled : Graph where
  doc := ⟨#[
    .mapping [(.text "kind", .text "object"), (.text "properties", .node 1)],
    .mapping [(.text "again", .node 0), (.text "get", .node 2)],
    .mapping [(.text "kind", .text "intersection"), (.text "members", .node 3)],
    .list [.node 2, .node 0]]⟩
  source := "<memory>"
  files := []
  declarations := []

theorem tangled_never_ends :
    tangled.HasAcyclicAliases ∧ tangled.WellShapedFrom (.anonymous 0) ∧
      IsAsked (tangled.handles {}) (.anonymous 0) "/users" (.anonymous 2) ∧
      tangled.NeverEnds (.anonymous 2) ∧
      tangled.walk {} (.anonymous 0) "/users" = .error (.fault .endless) := by
  have hacyclic := hasAcyclicAliases_of_no_declarations (g := tangled) rfl
  have hs : tangled.WellShapedFrom (.anonymous 0) := by
    refine wellShapedFrom_of_closed [.anonymous 0, .anonymous 2] (by simp) ?_ ?_
    · simp only [List.forall_mem_cons]
      decide
    · have h0 : tangled.partsOf (.anonymous 0) = [.anonymous 0, .anonymous 2] := rfl
      have h2 : tangled.partsOf (.anonymous 2) = [.anonymous 2, .anonymous 0] := rfl
      simp [h0, h2]
  have hasked : IsAsked (tangled.handles {}) (.anonymous 0) "/users" (.anonymous 2) := by
    refine .method (s := ⟨[], 1, .get, Handle.anonymous 2⟩) ⟨?_, ?_, ?_, ?_⟩
    · have hproperties : tangled.properties (.anonymous 0) =
          .ok [⟨"again", .anonymous 0, false⟩, ⟨"get", .anonymous 2, false⟩] :=
        (propertiesWithin_of_object (by decide)).trans rfl
      exact ⟨_, _, .here _, map_eq_ok_iff.mpr ⟨_, hproperties, rfl⟩, rfl⟩
    · decide
    · decide
    · decide
  have hnever : tangled.NeverEnds (.anonymous 2) := by
    refine ⟨.anonymous 2, 2, .refl, rfl, .anonymous 2, .single ⟨?_, ?_⟩, rfl⟩
    · decide
    · exact ⟨_, rfl, List.mem_cons_self⟩
  obtain ⟨hreturns, hiff⟩ := walk_returns_iff_members_end hacyclic hs {} "/users"
  have herror := hreturns.resolve_left fun hok => hiff.mp hok _ hasked hnever
  exact ⟨hacyclic, hs, hasked, hnever, herror⟩

end Graph

end RouteCatalog
