import RouteCatalog.Proofs.EndpointRecord

/-! A walk documents exactly the simple descents: one record for every method at the end of a
descent that passes no descriptor twice and is not too long, in the order of declaration. The sites
are listed by the recursion of the walk, and the list is compared with the descents. -/

namespace RouteCatalog.Route

variable {H I : Type} (sys : HandleSystem H I)

/-- None of the handles is an ancestor, and none comes twice. -/
def Fresh (ancestors : List I) (hs : List H) : Prop :=
  (hs.filterMap sys.identity?).Nodup ∧ ∀ i ∈ hs.filterMap sys.identity?, i ∉ ancestors

def propertiesOf (h : H) : List (String × H) :=
  match sys.properties h with
  | .ok properties => properties
  | .error _ => []

def sitesOf (deeper : H → String → List (Site H)) (path : String) (i : Nat) (p : String × H) :
    List (Site H) :=
  match role p.1 with
  | .endpoint m => if path.isEmpty then [] else [⟨[], i, m, p.2⟩]
  | .nested => (deeper p.2 path).map (Site.under ⟨i, p.1, p.2⟩)
  | .internal => []
  | .segment => (deeper p.2 (extend path p.1)).map (Site.under ⟨i, p.1, p.2⟩)

/-- The sites below a descriptor in the order in which a walk comes to them. -/
def sitesWithin [DecidableEq I] : Nat → List I → H → String → List (Site H)
  | 0, _, _, _ => []
  | levels + 1, ancestors, h, path =>
    if (sys.identity? h).any (ancestors.contains ·) then []
    else
      (propertiesOf sys h).zipIdx.flatMap fun (p, i) =>
        sitesOf (sitesWithin levels ((sys.identity? h).toList ++ ancestors)) path i p

/-- What the walk documents below a descriptor with these ancestors. -/
structure IsSiteWithin (levels : Nat) (ancestors : List I) (h : H) (path : String)
    (s : Site H) : Prop where
  declared : Declares sys h s
  fresh : Fresh sys ancestors (s.passed h)
  bounded : (s.passed h).length ≤ levels
  placed : s.path path ≠ ""

variable {sys}

section Sites

variable {h t : H} {s : Site H} {first : Step H} {path name : String} {i : Nat}

theorem fresh_cons_iff {ancestors : List I} {hs : List H} :
    Fresh sys ancestors (h :: hs) ↔
      (∀ i ∈ sys.identity? h, i ∉ ancestors) ∧
        Fresh sys ((sys.identity? h).toList ++ ancestors) hs := by
  unfold Fresh
  cases hi : sys.identity? h with
  | none => simp [hi]
  | some i =>
    simp only [List.filterMap_cons, hi, List.nodup_cons, List.mem_cons, Option.mem_def,
      Option.some.injEq, Option.toList_some, List.singleton_append, not_or, forall_eq_or_imp,
      forall_eq']
    constructor
    · rintro ⟨⟨hnot, hnodup⟩, hanc, hall⟩
      refine ⟨hanc, hnodup, fun j hj => ⟨?_, hall j hj⟩⟩
      rintro rfl
      exact hnot hj
    · rintro ⟨hanc, hnodup, hall⟩
      exact ⟨⟨fun hmem => (hall i hmem).1 rfl, hnodup⟩, hanc, fun j hj => (hall j hj).2⟩

theorem getElem?_propertiesOf {p : String × H} :
    (propertiesOf sys h)[i]? = some p ↔
      ∃ properties, sys.properties h = .ok properties ∧ properties[i]? = some p := by
  unfold propertiesOf
  cases sys.properties h with
  | error e => simp
  | ok properties => simp

theorem declares_here_iff {m : Method} :
    Declares sys h ⟨[], i, m, t⟩ ↔ (propertiesOf sys h)[i]? = some (m.name, t) := by
  rw [getElem?_propertiesOf]
  constructor
  · rintro ⟨last, properties, hdescent, hok, hget⟩
    cases hdescent
    exact ⟨properties, hok, hget⟩
  · rintro ⟨properties, hok, hget⟩
    exact ⟨h, properties, .here h, hok, hget⟩

theorem declares_under_iff :
    Declares sys h (s.under first) ↔
      (propertiesOf sys h)[first.position]? = some (first.name, first.handle) ∧
        LeadsDown first.name ∧ Declares sys first.handle s := by
  rw [getElem?_propertiesOf]
  constructor
  · rintro ⟨last, properties, hdescent, hok, hget⟩
    cases hdescent with
    | down hok' hget' hname hrest =>
      exact ⟨⟨_, hok', hget'⟩, hname, last, properties, hrest, hok, hget⟩
  · rintro ⟨⟨properties', hok', hget'⟩, hname, last, properties, hrest, hok, hget⟩
    exact ⟨last, properties, .down hok' hget' hname hrest, hok, hget⟩

theorem pathAlong_cons (names : List String) :
    pathAlong path (name :: names) = pathAlong (pathAlong path [name]) names := by
  by_cases hn : name = nestedName
  · simp [pathAlong, hn]
  · by_cases hp : path = "" ∧ name.toList.head? = some ':' <;> simp [pathAlong, hn, hp]

theorem path_under : (s.under first).path path = s.path (pathAlong path [first.name]) :=
  pathAlong_cons _

theorem pathAlong_of_role_eq_nested (h : role name = .nested) : pathAlong path [name] = path := by
  rw [role_eq_nested_iff.mp h, pathAlong_nested]
  rfl

theorem pathAlong_of_role_eq_segment (h : role name = .segment) :
    pathAlong path [name] = extend path name := by
  rw [pathAlong_segment h]
  rfl

theorem ne_methodName (h : ∀ m, role name ≠ .endpoint m) (m : Method) : name ≠ m.name :=
  fun hm => h m (role_eq_endpoint_iff.mpr hm)

/-- A property contributes a method of its own, or what lies below it. -/
theorem mem_sitesOf_iff {deeper : H → String → List (Site H)} {p : String × H} :
    s ∈ sitesOf deeper path i p ↔
      (∃ m : Method, p.1 = m.name ∧ path ≠ "" ∧ s = ⟨[], i, m, p.2⟩) ∨
        (LeadsDown p.1 ∧ ∃ below ∈ deeper p.2 (pathAlong path [p.1]),
          s = below.under ⟨i, p.1, p.2⟩) := by
  rw [leadsDown_iff]
  unfold sitesOf
  split
  · rename_i m hm
    have hname := role_eq_endpoint_iff.mp hm
    simp only [hm, reduceCtorEq, or_self, false_and, or_false]
    constructor
    · intro hs
      split at hs
      · cases hs
      · rename_i hpath
        exact ⟨m, hname, by simpa using hpath, List.mem_singleton.mp hs⟩
    · rintro ⟨m', hm', hpath, rfl⟩
      have heq := role_eq_endpoint_iff.mpr hm'
      rw [hm] at heq
      cases heq
      simp [hpath]
  · rename_i hrole
    have hno : ∀ m : Method, p.1 ≠ m.name := ne_methodName (by simp [hrole])
    simp [hno, hrole, pathAlong_of_role_eq_nested hrole, eq_comm]
  · rename_i hrole
    have hno : ∀ m : Method, p.1 ≠ m.name := ne_methodName (by simp [hrole])
    simp [hno, hrole]
  · rename_i hrole
    have hno : ∀ m : Method, p.1 ≠ m.name := ne_methodName (by simp [hrole])
    simp [hno, hrole, pathAlong_of_role_eq_segment hrole, eq_comm]

end Sites

section Members

variable {levels : Nat} {ancestors : List I} {h t : H} {path : String}

theorem isSiteWithin_here_iff {i : Nat} {m : Method} :
    IsSiteWithin sys (levels + 1) ancestors h path ⟨[], i, m, t⟩ ↔
      (∀ i ∈ sys.identity? h, i ∉ ancestors) ∧
        (propertiesOf sys h)[i]? = some (m.name, t) ∧ path ≠ "" := by
  constructor
  · intro hs
    exact ⟨(fresh_cons_iff.mp hs.fresh).1, declares_here_iff.mp hs.declared, hs.placed⟩
  · rintro ⟨hfresh, hget, hpath⟩
    refine ⟨declares_here_iff.mpr hget, fresh_cons_iff.mpr ⟨hfresh, ?_⟩, ?_, hpath⟩
    · simp [Fresh]
    · simp [Site.passed]

theorem isSiteWithin_under_iff {first : Step H} {s : Site H} :
    IsSiteWithin sys (levels + 1) ancestors h path (s.under first) ↔
      (∀ i ∈ sys.identity? h, i ∉ ancestors) ∧
        (propertiesOf sys h)[first.position]? = some (first.name, first.handle) ∧
        LeadsDown first.name ∧
        IsSiteWithin sys levels ((sys.identity? h).toList ++ ancestors) first.handle
          (pathAlong path [first.name]) s := by
  have hpassed : (s.under first).passed h = h :: s.passed first.handle := rfl
  constructor
  · intro hs
    obtain ⟨hget, hname, hdeclared⟩ := declares_under_iff.mp hs.declared
    obtain ⟨hfresh, hbelow⟩ := fresh_cons_iff.mp (hpassed ▸ hs.fresh)
    refine ⟨hfresh, hget, hname, hdeclared, hbelow, ?_, path_under ▸ hs.placed⟩
    have hbounded := hs.bounded
    rw [hpassed] at hbounded
    exact Nat.le_of_succ_le_succ hbounded
  · rintro ⟨hfresh, hget, hname, hs⟩
    refine ⟨declares_under_iff.mpr ⟨hget, hname, hs.declared⟩, ?_, ?_, path_under ▸ hs.placed⟩
    · exact hpassed ▸ fresh_cons_iff.mpr ⟨hfresh, hs.fresh⟩
    · rw [hpassed]
      exact Nat.succ_le_succ hs.bounded

theorem isSiteWithin_iff {s : Site H} :
    IsSiteWithin sys (maxAncestors + 1) [] h path s ↔ IsSite sys h path s := by
  constructor
  · intro h
    exact ⟨h.declared, h.fresh.1, h.bounded, h.placed⟩
  · intro h
    exact ⟨h.declared, ⟨h.distinct, by simp⟩, h.bounded, h.placed⟩

variable [DecidableEq I]

theorem any_contains_eq_false_iff : (sys.identity? h).any (ancestors.contains ·) = false ↔
    ∀ i ∈ sys.identity? h, i ∉ ancestors := by
  cases sys.identity? h <;> simp

theorem mem_sitesWithin_iff {s : Site H} :
    s ∈ sitesWithin sys levels ancestors h path ↔
      IsSiteWithin sys levels ancestors h path s := by
  induction levels generalizing ancestors h path s with
  | zero =>
    simp only [sitesWithin, List.not_mem_nil, false_iff]
    intro hs
    exact absurd hs.bounded (by simp [Site.passed])
  | succ levels ih =>
    have hsplit : s ∈ sitesWithin sys (levels + 1) ancestors h path ↔
        (∀ i ∈ sys.identity? h, i ∉ ancestors) ∧ ∃ p i, (propertiesOf sys h)[i]? = some p ∧
          s ∈ sitesOf (sitesWithin sys levels ((sys.identity? h).toList ++ ancestors)) path i p := by
      unfold sitesWithin
      rw [← any_contains_eq_false_iff]
      split
      · rename_i hany
        simp only [hany, List.not_mem_nil, Bool.true_eq_false, false_and]
      · rename_i hany
        simp only [hany, true_and, List.mem_flatMap, Prod.exists,
          List.mk_mem_zipIdx_iff_getElem?]
    rw [hsplit]
    obtain ⟨steps, position, m, d⟩ := s
    -- A site with no step is a method of the descriptor, any other lies below its first step.
    cases steps with
    | nil =>
      rw [isSiteWithin_here_iff]
      refine and_congr_right fun _ => ?_
      constructor
      · rintro ⟨p, i, hget, hs⟩
        rcases mem_sitesOf_iff.mp hs with ⟨m', hm', hpath, heq⟩ | ⟨_, below, _, heq⟩
        · cases heq
          exact ⟨by rw [hget, ← hm'], hpath⟩
        · cases heq
      · rintro ⟨hget, hpath⟩
        exact ⟨(m.name, d), position, hget, mem_sitesOf_iff.mpr (.inl ⟨m, rfl, hpath, rfl⟩)⟩
    | cons first steps =>
      change _ ↔ IsSiteWithin sys (levels + 1) ancestors h path
        (Site.under first ⟨steps, position, m, d⟩)
      rw [isSiteWithin_under_iff]
      refine and_congr_right fun _ => ?_
      constructor
      · rintro ⟨p, i, hget, hs⟩
        rcases mem_sitesOf_iff.mp hs with ⟨m', _, _, heq⟩ | ⟨hname, below, hbelow, heq⟩
        · cases heq
        · cases heq
          exact ⟨hget, hname, ih.mp hbelow⟩
      · rintro ⟨hget, hname, hs⟩
        exact ⟨_, _, hget, mem_sitesOf_iff.mpr (.inr ⟨hname, _, ih.mpr hs, rfl⟩)⟩

end Members

section Order

variable [DecidableEq I]

theorem head?_positions_of_mem_sitesOf {deeper : H → String → List (Site H)} {path : String}
    {i : Nat} {p : String × H} {s : Site H} (hs : s ∈ sitesOf deeper path i p) :
    ∃ rest, s.positions = i :: rest := by
  rcases mem_sitesOf_iff.mp hs with ⟨m, _, _, rfl⟩ | ⟨_, below, _, rfl⟩
  · exact ⟨[], rfl⟩
  · exact ⟨below.positions, rfl⟩

theorem sitesOf_sorted {deeper : H → String → List (Site H)} (path : String) (i : Nat)
    (p : String × H) (hdeeper : ∀ t q, (deeper t q).Pairwise (·.positions < ·.positions)) :
    (sitesOf deeper path i p).Pairwise (·.positions < ·.positions) := by
  have hunder (first : Step H) (t : H) (q : String) :
      ((deeper t q).map (Site.under first)).Pairwise (·.positions < ·.positions) := by
    rw [List.pairwise_map]
    exact (hdeeper t q).imp fun hlt => List.cons_lt_cons_iff.mpr (.inr ⟨rfl, hlt⟩)
  unfold sitesOf
  cases role p.1 with
  | endpoint m =>
    by_cases hpath : path.isEmpty = true
    · simp only [hpath, if_true]
      exact .nil
    · simp only [hpath]
      exact List.pairwise_singleton _ _
  | nested => exact hunder _ _ _
  | internal => exact .nil
  | segment => exact hunder _ _ _

theorem sitesWithin_sorted (levels : Nat) (ancestors : List I) (h : H) (path : String) :
    (sitesWithin sys levels ancestors h path).Pairwise (·.positions < ·.positions) := by
  induction levels generalizing ancestors h path with
  | zero => exact .nil
  | succ levels ih =>
    unfold sitesWithin
    split
    · exact .nil
    · rw [List.pairwise_flatMap]
      refine ⟨fun (p, i) _ => sitesOf_sorted path i p (ih _), ?_⟩
      have hlt : (propertiesOf sys h).zipIdx.Pairwise (·.2 < ·.2) := by
        rw [← List.pairwise_map, List.zipIdx_map_snd]
        exact List.pairwise_lt_range'
      refine hlt.imp fun {a b} hab x hx y hy => ?_
      obtain ⟨r, hr⟩ := head?_positions_of_mem_sitesOf hx
      obtain ⟨r', hr'⟩ := head?_positions_of_mem_sitesOf hy
      rw [hr, hr']
      exact List.cons_lt_cons_iff.mpr (.inl hab)

end Order

section Walk

theorem liftFault_eq_ok_iff {α : Type} {x : Except Fault α} {a : α} :
    liftFault x = .ok a ↔ x = .ok a := by
  cases x <;> simp [liftFault]

variable {root : H} {start : String}

/-- Every descriptor that a descent leads to can be asked for its properties. -/
def IsOpen (sys : HandleSystem H I) (root : H) : Prop :=
  ∀ steps last, Descent sys root steps last → ∃ properties, sys.properties last = .ok properties

theorem IsOpen.of_step {h : H} {s : Step H} {properties : List (String × H)} (hopen : IsOpen sys h)
    (hok : sys.properties h = .ok properties)
    (hget : properties[s.position]? = some (s.name, s.handle)) (hname : LeadsDown s.name) :
    IsOpen sys s.handle :=
  fun steps last hd => hopen (s :: steps) last (.down hok hget hname hd)

def recordOf (sys : HandleSystem H I) (start : String) (s : Site H) : Except Failure Endpoint :=
  sys.endpoint s.descriptor (s.path start) s.method

theorem mapM_recordOf_under (deeper : List (Site H)) (first : Step H) (path : String) :
    (deeper.map (Site.under first)).mapM (recordOf sys path) =
      deeper.mapM (recordOf sys (pathAlong path [first.name])) := by
  rw [List.mapM_map]
  refine mapM_congr fun s _ => ?_
  change sys.endpoint s.descriptor ((s.under first).path path) s.method = _
  rw [path_under]
  rfl

/-- A property gives the records of its sites if the descriptor that it leads to does. -/
theorem endpointsOf_eq_mapM {records : H → String → Except Failure (List Endpoint)}
    {sites : H → String → List (Site H)} {path : String} {i : Nat} {p : String × H}
    (hbelow : LeadsDown p.1 → ∀ q, records p.2 q = (sites p.2 q).mapM (recordOf sys q)) :
    sys.endpointsOf records path p = (sitesOf sites path i p).mapM (recordOf sys path) := by
  unfold HandleSystem.endpointsOf sitesOf
  cases hrole : role p.1 with
  | endpoint m =>
    by_cases hpath : path.isEmpty = true
    · simp only [hpath, if_true]
      rfl
    · simp only [hpath, Bool.false_eq_true, if_false, List.mapM_cons, List.mapM_nil]
      change (sys.endpoint p.2 path m).map _ = sys.endpoint p.2 path m >>= fun r => .ok [r]
      cases sys.endpoint p.2 path m <;> rfl
  | nested =>
    rw [mapM_recordOf_under, pathAlong_of_role_eq_nested hrole]
    exact hbelow (leadsDown_iff.mpr (.inl hrole)) _
  | internal => rfl
  | segment =>
    rw [mapM_recordOf_under, pathAlong_of_role_eq_segment hrole]
    exact hbelow (leadsDown_iff.mpr (.inr hrole)) _

variable [DecidableEq I]

/-- A walk makes the records of its sites one after the other. -/
theorem walkWithin_eq_mapM (levels : Nat) (ancestors : List I) (h : H) (path : String)
    (hopen : IsOpen sys h) :
    sys.walkWithin levels ancestors h path =
      (sitesWithin sys levels ancestors h path).mapM (recordOf sys path) := by
  induction levels generalizing ancestors h path with
  | zero => rfl
  | succ levels ih =>
    obtain ⟨properties, hok⟩ := hopen [] h (.here h)
    have hproperties : propertiesOf sys h = properties := by simp [propertiesOf, hok]
    unfold HandleSystem.walkWithin sitesWithin
    split
    · rfl
    · rw [hok, hproperties, mapM_flatMap]
      change (properties.mapM _ >>= fun found => Except.ok found.flatten) = _
      rw [← List.zipIdx_map_fst 0 properties, List.mapM_map, List.zipIdx_map_fst]
      congr 1
      refine mapM_congr fun (p, i) hp => endpointsOf_eq_mapM fun hname q => ?_
      have hget := List.mk_mem_zipIdx_iff_getElem?.mp hp
      exact ih _ _ _ (hopen.of_step (s := ⟨i, p.1, p.2⟩) hok hget hname)

/-- A walk makes one record for every site and no other, in the order of declaration. If the
methods' descriptors can be read, it returns all of them. -/
theorem walk_enumerates_simple_descents (sys : HandleSystem H I) (root : H) (start : String)
    (hopen : IsOpen sys root) :
    ∃ sites : List (Site H),
      (∀ s, s ∈ sites ↔ IsSite sys root start s) ∧
      sites.Pairwise (·.positions < ·.positions) ∧
      sys.walk root start = sites.mapM (recordOf sys start) ∧
      ((∀ s ∈ sites, IsReadable sys s.descriptor) →
        ∃ records, sys.walk root start = .ok records ∧
          List.Forall₂ (fun s r => recordOf sys start s = .ok r ∧ r.path = s.path start ∧
            r.method = s.method) sites records) := by
  have hwalk := walkWithin_eq_mapM (maxAncestors + 1) [] root start hopen
  refine ⟨sitesWithin sys (maxAncestors + 1) [] root start, ?_, ?_, hwalk, ?_⟩
  · intro s
    rw [mem_sitesWithin_iff, isSiteWithin_iff]
  · exact sitesWithin_sorted _ _ _ _
  · intro hreadable
    obtain ⟨records, hrecords⟩ := exists_mapM_eq_ok (f := recordOf sys start) fun s hs =>
      HandleSystem.exists_endpoint_eq_ok (hreadable s hs) (s.path start) s.method
    refine ⟨records, hwalk.trans hrecords, ?_⟩
    exact (mapM_eq_ok_iff.mp hrecords).imp fun s r hr =>
      ⟨hr, HandleSystem.of_endpoint_eq_ok hr⟩

/-- Two descriptors that lead to each other and to themselves. -/
def entangled : HandleSystem Bool Bool where
  identity? := some
  properties
    | false => .ok [("users", true), ("~Routes", false), ("_private", true)]
    | true => .ok [("get", false), ("again", false), (":id", true)]
  express _ := .ok (.text "string")

theorem walk_entangled :
    IsOpen entangled false ∧ ∃ sites : List (Site Bool),
      (∀ s, s ∈ sites ↔ IsSite entangled false "" s) ∧
        sites.mapM (recordOf entangled "") = .ok [⟨"/users", .get, none, none, none, "\x7b\x7d"⟩] := by
  have hopen : IsOpen entangled false := fun _ last _ => by cases last <;> exact ⟨_, rfl⟩
  obtain ⟨sites, hmem, _, hwalk, _⟩ :=
    walk_enumerates_simple_descents entangled false "" hopen
  refine ⟨hopen, sites, hmem, hwalk ▸ ?_⟩
  rfl

end Walk

end RouteCatalog.Route
