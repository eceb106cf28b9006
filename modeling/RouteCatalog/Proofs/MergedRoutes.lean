import RouteCatalog.Proofs.RouteTree

/-! Intersections of route trees. What several members declare under one name is merged again on
every level, so a chain of names leads in the intersection to what it leads to in the members, put
together. The records of the intersection are therefore those of all members, one for each chain. -/

namespace RouteCatalog.Graph

open Route

variable {g : Graph} {n : Normalizer} {h : Handle} {ms ts : List Handle} {name : String}

theorem typeUnder?_of_properties {ps : List Property} (hps : g.properties h = .ok ps) :
    typeUnder? (g.handles n) h name = Property.typeAt? ps name := by
  rw [typeUnder?, propertiesOf_handles hps, List.find?_map, Option.map_map]
  rfl

theorem typeUnder?_of_intersection (hkind : g.kind? h = some .intersection)
    (hms : g.members h = .ok ms) (htrees : ∀ m ∈ ms, g.IsRouteTree m) :
    typeUnder? (g.handles n) h name =
      Handle.join (ms.filterMap (typeUnder? (g.handles n) · name)) := by
  obtain ⟨all, hall, hnodup⟩ : Yields (ms.mapM g.properties)
      fun all => ∀ ps ∈ all, (ps.map Property.name).Nodup :=
    Yields.mapM fun m hm => (yields_properties (htrees m hm)).mono fun _ hps => hps.1
  have hproperties : g.properties h = .ok (Property.merge all.flatten) := by
    rw [properties_of_intersection hkind hms htrees, hall]
    rfl
  rw [typeUnder?_of_properties hproperties, Property.typeAt?_merge_flatten hnodup]
  have hmembers := mapM_eq_ok_iff.mp hall
  clear hall hnodup hproperties hms htrees
  congr 1
  induction hmembers with
  | nil => rfl
  | cons hps _ ih => rw [List.filterMap_cons, List.filterMap_cons, ih, typeUnder?_of_properties hps]

theorem typeUnder?_join (hts : ∀ t ∈ ts, g.IsRouteTree t) :
    (Handle.join ts).bind (typeUnder? (g.handles n) · name) =
      Handle.join (ts.filterMap (typeUnder? (g.handles n) · name)) := by
  match ts with
  | [] => rfl
  | [t] =>
    rw [List.filterMap_cons, List.filterMap_nil]
    change typeUnder? (g.handles n) t name = _
    cases typeUnder? (g.handles n) t name <;> rfl
  | t :: u :: ts => exact typeUnder?_of_intersection kind?_merged rfl hts

/-- Where a name leads down, what a tree declares under it is a tree again. -/
theorem isRouteTree_of_typeUnder? {t : Handle} (ht : g.IsRouteTree h) (hname : LeadsDown name)
    (htype : typeUnder? (g.handles n) h name = some t) : g.IsRouteTree t := by
  obtain ⟨i, hget⟩ := exists_getElem?_of_typeUnder? htype
  obtain ⟨properties, hok, hget⟩ := getElem?_propertiesOf.mp hget
  obtain ⟨ps, hps, p, hp, rfl, rfl⟩ := exists_property_of_getElem? hok hget
  exact ((ht.of_properties hps).2 p hp).1 hname

/-- A chain of names leads from merged types to what it leads to from each of them, merged. The
last name may be a method. -/
theorem reach?_join {names : List String} (hnames : ∀ name ∈ names.dropLast, LeadsDown name)
    (hts : names ≠ [] → ∀ t ∈ ts, g.IsRouteTree t) :
    (Handle.join ts).bind (reach? (g.handles n) · names) =
      Handle.join (ts.filterMap (reach? (g.handles n) · names)) := by
  -- After the first name the types are those that each of them gives it, so `ts` has to vary.
  induction names generalizing ts with
  | nil =>
    simp only [reach?, List.filterMap_some]
    cases Handle.join ts <;> rfl
  | cons name names ih =>
    have hts' := hts (by simp)
    have hrest : ∀ name ∈ names.dropLast, LeadsDown name := by
      intro name' hname'
      cases names with
      | nil => cases hname'
      | cons next names => exact hnames name' (List.mem_cons_of_mem name hname')
    have htrees : names ≠ [] →
        ∀ t ∈ ts.filterMap (typeUnder? (g.handles n) · name), g.IsRouteTree t := by
      intro hne t ht
      obtain ⟨u, hu, htype⟩ := List.mem_filterMap.mp ht
      refine isRouteTree_of_typeUnder? (hts' u hu) (hnames name ?_) htype
      cases names with
      | nil => exact (hne rfl).elim
      | cons next names => exact List.mem_cons_self
    calc (Handle.join ts).bind (reach? (g.handles n) · (name :: names))
        = ((Handle.join ts).bind (typeUnder? (g.handles n) · name)).bind
            (reach? (g.handles n) · names) := (Option.bind_assoc ..).symm
      _ = (Handle.join (ts.filterMap (typeUnder? (g.handles n) · name))).bind
            (reach? (g.handles n) · names) := by rw [typeUnder?_join hts']
      _ = Handle.join ((ts.filterMap (typeUnder? (g.handles n) · name)).filterMap
            (reach? (g.handles n) · names)) := ih hrest htrees
      _ = Handle.join (ts.filterMap (reach? (g.handles n) · (name :: names))) := by
        rw [List.filterMap_filterMap]
        rfl

theorem isSome_join_iff : (Handle.join ts).isSome ↔ ts ≠ [] := by
  match ts with
  | [] => simp [Handle.join]
  | [_] => simp [Handle.join]
  | _ :: _ :: _ => simp [Handle.join]

theorem IsRouteTree.of_members (ht : g.IsRouteTree h) (hkind : g.kind? h = some .intersection)
    (hms : g.members h = .ok ms) : ∀ m ∈ ms, g.IsRouteTree m := by
  cases ht with
  | object hobject _ _ _ _ =>
    rw [hkind] at hobject
    cases hobject
  | intersection _ hms' htrees =>
    rw [hms] at hms'
    cases hms'
    exact htrees
  | other _ hintersection => exact (hintersection hkind).elim

section Intersection

variable (hkind : g.kind? h = some .intersection) (hms : g.members h = .ok ms)
  (htrees : ∀ m ∈ ms, g.IsRouteTree m)
include hkind hms htrees

theorem reach?_of_intersection {names : List String} (hne : names ≠ [])
    (hnames : ∀ name ∈ names.dropLast, LeadsDown name) :
    reach? (g.handles n) h names = Handle.join (ms.filterMap (reach? (g.handles n) · names)) := by
  cases names with
  | nil => exact (hne rfl).elim
  | cons name names =>
    rw [← reach?_join hnames fun _ => htrees]
    change (typeUnder? (g.handles n) h name).bind (reach? (g.handles n) · names) = _
    rw [typeUnder?_of_intersection hkind hms htrees, ← typeUnder?_join htrees, Option.bind_assoc]
    rfl

theorem isSome_reach?_iff {names : List String} (hne : names ≠ [])
    (hnames : ∀ name ∈ names.dropLast, LeadsDown name) :
    (reach? (g.handles n) h names).isSome ↔
      ∃ m ∈ ms, (reach? (g.handles n) m names).isSome := by
  rw [reach?_of_intersection hkind hms htrees hne hnames, isSome_join_iff]
  constructor
  · intro hnot
    obtain ⟨t, ht⟩ := List.exists_mem_of_ne_nil _ hnot
    obtain ⟨m, hm, hreach⟩ := List.mem_filterMap.mp ht
    exact ⟨m, hm, by rw [hreach]; rfl⟩
  · rintro ⟨m, hm, hsome⟩
    obtain ⟨t, hreach⟩ := Option.isSome_iff_exists.mp hsome
    exact List.ne_nil_of_mem (List.mem_filterMap.mpr ⟨m, hm, hreach⟩)

/-- A chain that only one member knows leads to the same type in the intersection. -/
theorem reach?_of_only_member {names : List String} {before after : List Handle} {m : Handle}
    (hne : names ≠ []) (hnames : ∀ name ∈ names.dropLast, LeadsDown name)
    (hsplit : ms = before ++ m :: after)
    (honly : ∀ u ∈ before ++ after, reach? (g.handles n) u names = none) :
    reach? (g.handles n) h names = reach? (g.handles n) m names := by
  have hnone {us : List Handle} (hus : ∀ u ∈ us, reach? (g.handles n) u names = none) :
      us.filterMap (reach? (g.handles n) · names) = [] := List.filterMap_eq_nil_iff.mpr hus
  rw [reach?_of_intersection hkind hms htrees hne hnames, hsplit, List.filterMap_append,
    List.filterMap_cons, hnone fun u hu => honly u (List.mem_append_left _ hu),
    hnone fun u hu => honly u (List.mem_append_right _ hu)]
  cases reach? (g.handles n) m names <;> rfl

variable (hh : g.IsHandle h)
include hh

omit hkind in
theorem hasDistinctNames_of_mem : ∀ m ∈ ms, HasDistinctNames (g.handles n) m :=
  fun m hm => hasDistinctNames_of_isRouteTree (htrees m hm) (hh.of_members hms m hm) n

theorem isShallow_of_mem (hshallow : IsShallow (g.handles n) h) :
    ∀ m ∈ ms, IsShallow (g.handles n) m := by
  intro m hm steps last hd
  obtain ⟨hreach, hnames⟩ := reach?_of_descent hd (hasDistinctNames_of_mem hms htrees hh m hm)
  -- The names of the descent lead down in the intersection too, and a descent there is short.
  cases steps with
  | nil => simp
  | cons first steps =>
    have hsome : (reach? (g.handles n) h ((first :: steps).map Step.name)).isSome := by
      refine (isSome_reach?_iff hkind hms htrees (by simp) fun name hname => ?_).mpr
        ⟨m, hm, by rw [hreach]; rfl⟩
      exact hnames name (List.mem_of_mem_dropLast hname)
    obtain ⟨last', hreach'⟩ := Option.isSome_iff_exists.mp hsome
    obtain ⟨steps', hd', hsteps⟩ := exists_descent_of_reach? hnames hreach'
    have hlength := hshallow steps' last' hd'
    rw [← List.length_map (f := Step.name), hsteps, List.length_map] at hlength
    exact hlength

theorem exists_declares_iff_member (ht : g.IsRouteTree h) {chain : List String × Method} :
    (∃ s, Declares (g.handles n) h s ∧ s.chain = chain) ↔
      ∃ m ∈ ms, ∃ s, Declares (g.handles n) m s ∧ s.chain = chain := by
  obtain ⟨names, method⟩ := chain
  have hmember : ∀ m ∈ ms, HasDistinctNames (g.handles n) m :=
    hasDistinctNames_of_mem hms htrees hh
  rw [exists_declares_iff (hasDistinctNames_of_isRouteTree ht hh n)]
  constructor
  · rintro ⟨hnames, hsome⟩
    obtain ⟨m, hm, hsome⟩ := (isSome_reach?_iff hkind hms htrees (by simp) (by simpa)).mp hsome
    exact ⟨m, hm, (exists_declares_iff (hmember m hm)).mpr ⟨hnames, hsome⟩⟩
  · rintro ⟨m, hm, hs⟩
    obtain ⟨hnames, hsome⟩ := (exists_declares_iff (hmember m hm)).mp hs
    exact ⟨hnames, (isSome_reach?_iff hkind hms htrees (by simp) (by simpa)).mpr ⟨m, hm, hsome⟩⟩

/-- A site of one member that no other member declares is a site of the intersection, with the same
descriptor. -/
theorem exists_declares_of_only_member {before after : List Handle} {m : Handle} {s : Site Handle}
    (hs : Declares (g.handles n) m s) (hsplit : ms = before ++ m :: after)
    (honly : ∀ u ∈ before ++ after, ∀ t, Declares (g.handles n) u t → t.chain ≠ s.chain) :
    ∃ t, Declares (g.handles n) h t ∧ t.chain = s.chain ∧ t.descriptor = s.descriptor := by
  have hdistinct : ∀ u ∈ ms, HasDistinctNames (g.handles n) u :=
    hasDistinctNames_of_mem hms htrees hh
  have hm : m ∈ ms := hsplit ▸ List.mem_append_right _ List.mem_cons_self
  obtain ⟨hreach, hnames⟩ := reach?_of_declares hs (hdistinct m hm)
  have hnone : ∀ u ∈ before ++ after, reach? (g.handles n) u s.trail = none := by
    intro u hu
    have hmem : u ∈ ms := by
      rw [hsplit]
      rcases List.mem_append.mp hu with hu | hu
      · exact List.mem_append_left _ hu
      · exact List.mem_append_right _ (List.mem_cons_of_mem m hu)
    refine Option.not_isSome_iff_eq_none.mp fun hsome => ?_
    obtain ⟨t, ht, hchain⟩ := (exists_declares_iff (hdistinct u hmem)).mpr ⟨hnames, hsome⟩
    exact honly u hu t ht hchain
  have hsame : reach? (g.handles n) h s.trail = some s.descriptor :=
    (reach?_of_only_member hkind hms htrees (by simp [Site.trail])
      (by simpa [Site.trail] using hnames) hsplit hnone).trans hreach
  obtain ⟨t, ht, htnames, hmethod, hdescriptor⟩ := exists_declares_of_reach? hnames hsame
  exact ⟨t, ht, Prod.ext htnames hmethod, hdescriptor⟩

end Intersection

theorem exists_isCatalogue_of_isRouteTree (hacyclic : g.HasAcyclicAliases)
    (hshape : g.WellShapedFrom h) (hh : g.IsHandle h) (ht : g.IsRouteTree h)
    (hshallow : IsShallow (g.handles n) h) (start : String) :
    ∃ entries, IsCatalogue (g.handles n) h start entries := by
  refine exists_isCatalogue (isOpen_of_isRouteTree ht hh n)
    (hasDistinctNames_of_isRouteTree ht hh n) (fun s hs hpath => ?_) fun s hs =>
      isReadable_of_declares ht hh hacyclic hshape hs
  obtain ⟨last, properties, hd, hrest⟩ := hs
  exact isSite_of_declares ht hh ⟨last, properties, hd, hrest⟩ (hshallow _ _ hd) hpath

/-- The walk of an intersection of route trees documents the union of what the walks of its members
document. A chain of names has one record however many members declare it, and if only one does, it
is the record of that member. -/
theorem walk_intersection_documents_union (hacyclic : g.HasAcyclicAliases)
    (hshape : g.WellShapedFrom h) (hh : g.IsHandle h) (ht : g.IsRouteTree h)
    (hshallow : IsShallow (g.handles n) h) (hkind : g.kind? h = some .intersection)
    (hms : g.members h = .ok ms) (start : String) :
    (∀ t ∈ h :: ms, ∃ entries, IsCatalogue (g.handles n) t start entries) ∧
    (∃ records, g.walk n h start = .ok records ∧ ∀ path method,
      (∃ r ∈ records, r.path = path ∧ r.method = method) ↔
        ∃ m ∈ ms, ∃ own, g.walk n m start = .ok own ∧
          ∃ r ∈ own, r.path = path ∧ r.method = method) ∧
    ∀ entries, IsCatalogue (g.handles n) h start entries →
      (∀ m ∈ ms, ∀ s, Declares (g.handles n) m s → s.path start ≠ "" →
        ∃! r, (s.chain, r) ∈ entries) ∧
      ∀ before m after own, ms = before ++ m :: after →
        IsCatalogue (g.handles n) m start own → ∀ e ∈ own,
          (∀ u ∈ before ++ after, ∀ s, Declares (g.handles n) u s → s.chain ≠ e.1) →
          e ∈ entries := by
  have htrees := ht.of_members hkind hms
  have hcatalogue : ∀ t ∈ h :: ms, ∃ entries, IsCatalogue (g.handles n) t start entries := by
    refine List.forall_mem_cons.mpr
      ⟨exists_isCatalogue_of_isRouteTree hacyclic hshape hh ht hshallow start, fun m hm => ?_⟩
    exact exists_isCatalogue_of_isRouteTree hacyclic (hshape.part (.member hms hm))
      (hh.of_members hms m hm) (htrees m hm) (isShallow_of_mem hkind hms htrees hh hshallow m hm)
      start
  refine ⟨hcatalogue, ?_, fun entries hentries => ⟨?_, ?_⟩⟩
  · obtain ⟨entries, hentries⟩ := hcatalogue h List.mem_cons_self
    refine ⟨_, hentries.walked, fun path method => ?_⟩
    rw [hentries.exists_record_iff]
    constructor
    · rintro ⟨chain, hs, hrest⟩
      obtain ⟨m, hm, hs⟩ := (exists_declares_iff_member hkind hms htrees hh ht).mp hs
      obtain ⟨own, hown⟩ := hcatalogue m (List.mem_cons_of_mem h hm)
      exact ⟨m, hm, _, hown.walked, hown.exists_record_iff.mpr ⟨chain, hs, hrest⟩⟩
    · rintro ⟨m, hm, records, hrecords, hr⟩
      obtain ⟨own, hown⟩ := hcatalogue m (List.mem_cons_of_mem h hm)
      have hwalked := hown.walked
      change g.walk n m start = _ at hwalked
      rw [hrecords] at hwalked
      cases hwalked
      obtain ⟨chain, hs, hrest⟩ := hown.exists_record_iff.mp hr
      exact ⟨chain, (exists_declares_iff_member hkind hms htrees hh ht).mpr ⟨m, hm, hs⟩, hrest⟩
  · intro m hm s hs hpath
    obtain ⟨t, ht', hchain⟩ :=
      (exists_declares_iff_member hkind hms htrees hh ht).mpr ⟨m, hm, s, hs, rfl⟩
    rw [← hchain]
    exact hentries.existsUnique_record ht' (path_congr hchain ▸ hpath)
  · rintro before m after own hsplit hown ⟨chain, r⟩ he honly
    obtain ⟨s, hs, rfl, hpath, hrecord⟩ := (hown.mem_iff chain r).mp he
    obtain ⟨t, ht', hchain, hdescriptor⟩ :=
      exists_declares_of_only_member hkind hms htrees hh hs hsplit honly
    refine (hentries.mem_iff s.chain r).mpr ⟨t, ht', hchain, ?_, ?_⟩
    · rw [path_congr hchain]
      exact hpath
    · rw [recordOf_congr hchain hdescriptor]
      exact hrecord

/-- Two objects that share a segment, one of whose methods both declare. -/
def crossed : Graph where
  doc := ⟨#[
    .mapping [(.text "kind", .text "intersection"), (.text "members", .node 1)],
    .list [.node 2, .node 3],
    .mapping [(.text "kind", .text "object"), (.text "properties", .node 4)],
    .mapping [(.text "kind", .text "object"), (.text "properties", .node 5)],
    .mapping [(.text "users", .node 6)],
    .mapping [(.text "users", .node 7)],
    .mapping [(.text "kind", .text "object"), (.text "properties", .node 8)],
    .mapping [(.text "kind", .text "object"), (.text "properties", .node 9)],
    .mapping [(.text "get", .text "string")],
    .mapping [(.text "get", .text "string"), (.text "post", .text "string")]]⟩
  source := "<memory>"
  files := []
  declarations := []

theorem crossed_documents_union :
    crossed.HasAcyclicAliases ∧ crossed.WellShapedFrom (.anonymous 0) ∧
      crossed.IsHandle (.anonymous 0) ∧ crossed.IsRouteTree (.anonymous 0) ∧
      IsShallow (crossed.handles {}) (.anonymous 0) ∧
      crossed.members (.anonymous 0) = .ok [.anonymous 2, .anonymous 3] ∧
      ∃ records, crossed.walk {} (.anonymous 0) "" = .ok records ∧ ∀ path method,
        (∃ r ∈ records, r.path = path ∧ r.method = method) ↔
          ∃ m ∈ [Handle.anonymous 2, .anonymous 3], ∃ own, crossed.walk {} m "" = .ok own ∧
            ∃ r ∈ own, r.path = path ∧ r.method = method := by
  have hacyclic : crossed.HasAcyclicAliases := hasAcyclicAliases_of_no_declarations rfl
  have hshape : crossed.WellShapedFrom (.anonymous 0) := by
    refine wellShapedFrom_of_closed
      [.anonymous 0, .anonymous 2, .anonymous 3, .anonymous 6, .anonymous 7, .leaf "string"]
      (by simp) ?_ ?_
    · simp only [List.forall_mem_cons]
      decide
    · have h0 : crossed.partsOf (.anonymous 0) = [.anonymous 2, .anonymous 3] := by cbv
      have h2 : crossed.partsOf (.anonymous 2) = [.anonymous 6] := by cbv
      have h3 : crossed.partsOf (.anonymous 3) = [.anonymous 7] := by cbv
      have h6 : crossed.partsOf (.anonymous 6) = [.leaf "string"] := by cbv
      have h7 : crossed.partsOf (.anonymous 7) = [.leaf "string", .leaf "string"] := by cbv
      have hleaf : crossed.partsOf (.leaf "string") = [] := by cbv
      simp [h0, h2, h3, h6, h7, hleaf]
  have hleaf : crossed.properties (.leaf "string") = .ok [] := by cbv
  have hmethods {h : Handle} {ps : List Property} (hkind : crossed.kind? h = some .object)
      (hps : crossed.ownProperties h = .ok ps) (hnodup : (ps.map Property.name).Nodup)
      (hall : ∀ p ∈ ps, (∃ m : Method, p.name = m.name) ∧ p.type = .leaf "string") :
      crossed.IsRouteTree h := by
    refine .object hkind hps hnodup (fun p hp hname => ?_) fun p hp m _ => ?_
    · obtain ⟨⟨m, hm⟩, -⟩ := hall p hp
      exact (hname.1 m hm).elim
    · rw [(hall p hp).2]
      exact ⟨[], hleaf⟩
  have hsegment {h t : Handle} (hkind : crossed.kind? h = some .object)
      (hps : crossed.ownProperties h = .ok [⟨"users", t, false⟩]) (ht : crossed.IsRouteTree t) :
      crossed.IsRouteTree h := by
    refine .object hkind hps (List.nodup_singleton _) (fun p hp _ => ?_) fun p hp m hm => ?_
    · obtain rfl := List.mem_singleton.mp hp
      exact ht
    · obtain rfl := List.mem_singleton.mp hp
      have hne : ∀ m : Method, "users" ≠ m.name := by
        intro m
        cases m <;> decide
      exact (hne m hm).elim
  have hget : crossed.ownProperties (.anonymous 6) = .ok [⟨"get", .leaf "string", false⟩] := by
    cbv
  have hboth : crossed.ownProperties (.anonymous 7) =
      .ok [⟨"get", .leaf "string", false⟩, ⟨"post", .leaf "string", false⟩] := by cbv
  have husers : crossed.ownProperties (.anonymous 2) = .ok [⟨"users", .anonymous 6, false⟩] := by
    cbv
  have husers' : crossed.ownProperties (.anonymous 3) = .ok [⟨"users", .anonymous 7, false⟩] := by
    cbv
  have h6 : crossed.IsRouteTree (.anonymous 6) := by
    refine hmethods rfl hget (by decide) fun p hp => ?_
    obtain rfl := List.mem_singleton.mp hp
    exact ⟨⟨.get, rfl⟩, rfl⟩
  have h7 : crossed.IsRouteTree (.anonymous 7) := by
    have hnodup := nodup_names_of_text_keys rfl hboth (by decide) (by decide)
    refine hmethods rfl hboth hnodup fun p hp => ?_
    simp only [List.mem_cons, List.not_mem_nil, or_false] at hp
    rcases hp with rfl | rfl
    · exact ⟨⟨.get, rfl⟩, rfl⟩
    · exact ⟨⟨.post, rfl⟩, rfl⟩
  have hms : crossed.members (.anonymous 0) = .ok [.anonymous 2, .anonymous 3] := by cbv
  have htree : crossed.IsRouteTree (.anonymous 0) := by
    refine .intersection rfl hms ?_
    simp only [List.forall_mem_cons]
    exact ⟨hsegment rfl husers h6, hsegment rfl husers' h7, by simp⟩
  have hroot : crossed.properties (.anonymous 0) =
      .ok [⟨"users", .merged [.anonymous 6, .anonymous 7], false⟩] := by
    rw [properties_of_intersection rfl hms (htree.of_members rfl hms), List.mapM_cons,
      List.mapM_cons, properties, properties, propertiesWithin_of_object rfl,
      propertiesWithin_of_object rfl, husers, husers']
    rfl
  have hmerged : crossed.properties (.merged [.anonymous 6, .anonymous 7]) =
      .ok [⟨"get", .merged [.leaf "string", .leaf "string"], false⟩,
        ⟨"post", .leaf "string", false⟩] := by
    rw [properties_merged, List.mapM_cons, List.mapM_cons, properties, properties,
      propertiesWithin_of_object rfl, propertiesWithin_of_object rfl, hget, hboth]
    rfl
  have hshallow : IsShallow (crossed.handles {}) (.anonymous 0) := by
    intro steps last hd
    have hlength : steps.length ≤ 0 + 1 + 1 := by
      refine hd.length_le_succ (properties_handles_iff.mpr ⟨_, hroot, rfl⟩)
        fun p hp _ steps last hd => ?_
      obtain rfl := List.mem_singleton.mp hp
      refine hd.length_le_succ (properties_handles_iff.mpr ⟨_, hmerged, rfl⟩) fun p hp hname => ?_
      rcases List.mem_cons.mp hp with rfl | hp
      · exact (hname.1 .get rfl).elim
      · obtain rfl := List.mem_singleton.mp hp
        exact (hname.1 .post rfl).elim
    exact hlength.trans (by decide)
  have hspec : crossed.handle (.node 0) = .ok (.anonymous 0) := rfl
  have hhandle : crossed.IsHandle (.anonymous 0) := .given hspec
  obtain ⟨-, hunion, -⟩ := walk_intersection_documents_union hacyclic hshape hhandle htree hshallow
    rfl hms ""
  exact ⟨hacyclic, hshape, hhandle, htree, hshallow, hms, hunion⟩

end RouteCatalog.Graph
