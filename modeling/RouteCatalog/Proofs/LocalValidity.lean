import RouteCatalog.Proofs.NestedMappings

/-! Looking at one mapping: what is wrong with it by itself, what keeps a look from an answer, and
which mappings it leads to. A look ends in the complaint about the mapping, in a fault, or in what
its specifications hold, in the order of its fields. -/

namespace RouteCatalog.Document

variable {doc : Document} {place : String} {v : Value} {id : NodeId} {f : Fault}
  {found : List Pending}

/-- A mapping holds a specification that leads to another mapping. -/
def LeadsTo (doc : Document) (a b : NodeId) : Prop :=
  ∃ v ∈ doc.specsOf (doc.entriesAt a), doc.Leads v b

/-- What is pending are exactly the mappings that satisfy a property, and no fault. -/
structure Covers (P : NodeId → Prop) (pending : List Pending) : Prop where
  sound : Only P pending
  complete : ∀ id, P id → ∃ place, .node id place ∈ pending

section Complaints

def complaint? (doc : Document) (place : String) (id : NodeId) : Option Malformation :=
  match Entries.get? (doc.entriesAt id) "kind" with
  | none =>
    if (Entries.get? (doc.entriesAt id) "type").isSome then none else some (.noKind place)
  | some stated =>
    match Kind.ofValue? stated with
    | none => some (.unknownKind place (doc.literal stated))
    | some kind =>
      if kind = .reference ∧ Entries.get? (doc.entriesAt id) "name" = none then some (.noName place)
      else none

theorem complaint?_eq_none_iff : doc.complaint? place id = none ↔ doc.IsLocallyValid id := by
  unfold complaint? IsLocallyValid
  cases hkind : Entries.get? (doc.entriesAt id) "kind" with
  | none =>
    simp only
    split_ifs with htype <;> simp [htype]
  | some stated =>
    cases hof : Kind.ofValue? stated with
    | none => simp [hof]
    | some kind =>
      simp only [hof]
      split_ifs with hname
      · simp [hname]
      · simp only [true_iff]
        refine ⟨kind, rfl, fun hreference => ?_⟩
        exact Option.isSome_iff_ne_none.mpr fun hnone => hname ⟨hreference, hnone⟩

end Complaints

section Properties

theorem entries_of_entriesOrNone {entries : List Entry} (h : doc.entriesOrNone v = .ok entries) :
    entries = (doc.entries? v).getD [] := by
  unfold entriesOrNone at h
  split at h
  · cases he : doc.entries? v with
    | none => simp [he] at h
    | some es => simpa [he] using h.symm
  · rename_i htruthy
    cases h
    cases v with
    | node n =>
      cases hn : doc.node n <;> simp [entries?, hn]
      simpa [isTruthy, hn] using htruthy
    | _ => rfl

theorem entriesOrNone_eq_error_iff :
    doc.entriesOrNone v = .error f ↔
      f = .notMapping ∧ doc.isTruthy v = true ∧ doc.entries? v = none := by
  unfold entriesOrNone
  cases doc.isTruthy v with
  | false => simp
  | true => cases doc.entries? v <;> simp [eq_comm]

theorem propertyEntries_of_entriesOrNone {stated : Option Value} {entries : List Entry}
    (h : doc.entriesOrNone (stated.getD .null) = .ok entries) :
    (stated.bind doc.entries?).getD [] = entries := by
  rw [entries_of_entriesOrNone h]
  cases stated <;> rfl

end Properties

section Obstacles

/-- What keeps a look at a mapping from an answer, or the look at what it holds: a kind that cannot
be looked for, properties that are no mapping, and a list without an end. -/
inductive Obstructs (doc : Document) (id : NodeId) : Fault → Prop where
  | kind {stated : Value} : Entries.get? (doc.entriesAt id) "kind" = some stated →
      doc.canBeSought stated = false → Obstructs doc id .notKey
  | properties {stated v : Value} : Entries.get? (doc.entriesAt id) "kind" = some stated →
      Entries.get? (doc.entriesAt id) "properties" = some v → doc.isTruthy v = true →
      doc.entries? v = none → Obstructs doc id .notMapping
  | list {v : Value} : v ∈ doc.specsOf (doc.entriesAt id) → ¬ doc.ListsEnd v →
      Obstructs doc id .endless

/-- A mapping has the shape that a look at it expects: its kind may be a key, its properties are a
mapping or count as none, and its lists end. -/
structure IsVisitable (doc : Document) (id : NodeId) : Prop where
  kind : ∀ stated, Entries.get? (doc.entriesAt id) "kind" = some stated → doc.isKey stated = true
  properties : (Entries.get? (doc.entriesAt id) "kind").isSome → ∃ entries, doc.entriesOrNone
    ((Entries.get? (doc.entriesAt id) "properties").getD .null) = .ok entries
  lists : ∀ v ∈ doc.specsOf (doc.entriesAt id), doc.ListsEnd v

theorem obstructs_of_entriesOrNone (hkind : (Entries.get? (doc.entriesAt id) "kind").isSome)
    (h : doc.entriesOrNone ((Entries.get? (doc.entriesAt id) "properties").getD .null) = .error f) :
    doc.Obstructs id f := by
  obtain ⟨rfl, htruthy, hentries⟩ := entriesOrNone_eq_error_iff.mp h
  obtain ⟨stated, hkind⟩ := Option.isSome_iff_exists.mp hkind
  cases hproperties : Entries.get? (doc.entriesAt id) "properties" with
  | none =>
    rw [hproperties] at htruthy
    cases htruthy
  | some v =>
    simp only [hproperties, Option.getD_some] at htruthy hentries
    exact .properties hkind hproperties htruthy hentries

theorem exists_entriesOrNone_of_not_obstructs (h : ∀ f, ¬ doc.Obstructs id f)
    (hkind : (Entries.get? (doc.entriesAt id) "kind").isSome) : ∃ entries, doc.entriesOrNone
      ((Entries.get? (doc.entriesAt id) "properties").getD .null) = .ok entries := by
  cases hproperties : doc.entriesOrNone
      ((Entries.get? (doc.entriesAt id) "properties").getD .null) with
  | ok entries => exact ⟨entries, rfl⟩
  | error f => exact (h f (obstructs_of_entriesOrNone hkind hproperties)).elim

theorem IsVisitable.not_obstructs (h : doc.IsVisitable id) (f : Fault) : ¬ doc.Obstructs id f := by
  rintro (⟨hkind, hsought⟩ | ⟨hkind, hproperties, htruthy, hentries⟩ | ⟨hv, hlists⟩)
  · rw [canBeSought_of_isKey (h.kind _ hkind)] at hsought
    cases hsought
  · obtain ⟨entries, hok⟩ := h.properties (by simp [hkind])
    simp [hproperties, entriesOrNone, htruthy, hentries] at hok
  · exact hlists (h.lists _ hv)

end Obstacles

section Visit

/-- A look at a mapping has succeeded: it is valid, and nothing obstructs the way on. -/
structure IsInspected (doc : Document) (id : NodeId) : Prop where
  valid : doc.IsLocallyValid id
  clear : ∀ f, ¬ doc.Obstructs id f

theorem IsInspected.properties (h : doc.IsInspected id)
    (hkind : (Entries.get? (doc.entriesAt id) "kind").isSome) : ∃ entries, doc.entriesOrNone
      ((Entries.get? (doc.entriesAt id) "properties").getD .null) = .ok entries :=
  exists_entriesOrNone_of_not_obstructs h.clear hkind

/-- What a look at a mapping leaves to be visited: the mappings that it leads to, and faults if
something is in the way. -/
structure IsFound (doc : Document) (id : NodeId) (found : List Pending) : Prop where
  sound : ∀ p ∈ found, (∃ b place, p = .node b place ∧ doc.LeadsTo id b) ∨
    ∃ f, p = .fault f ∧ doc.Obstructs id f
  complete : (∀ f, .fault f ∉ found) → doc.IsInspected id ∧
    ∀ b, doc.LeadsTo id b → ∃ place, .node b place ∈ found

/-- A specification of a mapping leaves what the mapping leads to, or obstructs the way. -/
theorem mem_mappings_cases {p : Pending} (hv : v ∈ doc.specsOf (doc.entriesAt id))
    (hp : p ∈ doc.mappings place v) : (∃ b place, p = .node b place ∧ doc.LeadsTo id b) ∨
      ∃ f, p = .fault f ∧ doc.Obstructs id f := by
  rcases mappingsWithin_cases _ _ _ hp with ⟨b, place', rfl, hlead⟩ | rfl
  · exact .inl ⟨b, place', rfl, v, hv, hlead⟩
  · exact .inr ⟨_, rfl, .list hv (fault_mem_mappings_iff.mp hp).2⟩

/-- It is enough to know where each specification is found. -/
theorem isFound_of_specs (hvalid : doc.IsLocallyValid id)
    (hsound : ∀ p ∈ found, (∃ b place, p = .node b place ∧ doc.LeadsTo id b) ∨
      ∃ f, p = .fault f ∧ doc.Obstructs id f)
    (hproperties : ∀ f, doc.Obstructs id f → f = .notMapping → .fault f ∈ found)
    (hspecs : ∀ v ∈ doc.specsOf (doc.entriesAt id), ∃ place, ∀ p ∈ doc.mappings place v, p ∈ found) :
    doc.IsFound id found := by
  refine ⟨hsound, fun hfault => ⟨⟨hvalid, fun f hf => ?_⟩, ?_⟩⟩
  · cases hf with
    | kind hkind hsought =>
      simp only [IsLocallyValid, hkind] at hvalid
      obtain ⟨k, hk, -⟩ := hvalid
      cases hstated : ‹Value› <;> simp_all [Kind.ofValue?, canBeSought, isKey]
    | properties hkind hproperties' htruthy hentries =>
      exact hfault _ (hproperties _ (.properties hkind hproperties' htruthy hentries) rfl)
    | list hv hlists =>
      obtain ⟨place, hsub⟩ := hspecs _ hv
      exact hfault _ (hsub _ (fault_mem_mappings_iff.mpr ⟨rfl, hlists⟩))
  · rintro b ⟨v, hv, hlead⟩
    obtain ⟨place, hsub⟩ := hspecs v hv
    exact hlead.mem_pending place hsub hfault

def nodeSpecs (doc : Document) (place : String) (id : NodeId) : List Pending :=
  (specFields.flatMap fun field =>
    match Entries.get? (doc.entriesAt id) field with
    | some spec => doc.mappings (place ++ "." ++ field) spec
    | none => []) ++
  pendingOr ((doc.entriesOrNone
    ((Entries.get? (doc.entriesAt id) "properties").getD .null)).map
      (doc.entryMappings (place ++ ".")))

theorem isFound_nodeSpecs {stated : Value}
    (hkind : Entries.get? (doc.entriesAt id) "kind" = some stated)
    (hvalid : doc.IsLocallyValid id) : doc.IsFound id (doc.nodeSpecs place id) := by
  have hspecs : ∀ {w}, (w ∈ specFields.filterMap (Entries.get? (doc.entriesAt id)) ∨
      w ∈ (((Entries.get? (doc.entriesAt id) "properties").bind doc.entries?).getD []).map
        Prod.snd) → w ∈ doc.specsOf (doc.entriesAt id) := by
    intro w hw
    simpa only [specsOf, hkind, List.mem_append] using hw
  refine isFound_of_specs hvalid (fun p hp => ?_) ?_ fun v hv => ?_
  · rcases List.mem_append.mp hp with hp | hp
    · obtain ⟨field, hfield, hp⟩ := List.mem_flatMap.mp hp
      cases hspec : Entries.get? (doc.entriesAt id) field with
      | none => simp [hspec] at hp
      | some spec =>
        simp only [hspec] at hp
        have hmem := hspecs (.inl (List.mem_filterMap.mpr ⟨field, hfield, hspec⟩))
        exact mem_mappings_cases hmem hp
    · cases hproperties : doc.entriesOrNone
          ((Entries.get? (doc.entriesAt id) "properties").getD .null) with
      | error f =>
        simp only [hproperties, Except.map, pendingOr, List.mem_singleton] at hp
        exact .inr ⟨f, hp, obstructs_of_entriesOrNone (by simp [hkind]) hproperties⟩
      | ok entries =>
        simp only [hproperties, Except.map, pendingOr] at hp
        obtain ⟨e, he, hp⟩ := List.mem_flatMap.mp hp
        refine mem_mappings_cases (hspecs (.inr ?_)) hp
        rw [propertyEntries_of_entriesOrNone hproperties]
        exact List.mem_map_of_mem he
  · rintro f (_ | ⟨-, hproperties, htruthy, hentries⟩ | _) hf
    · cases hf
    · refine List.mem_append_right _ ?_
      simp [hproperties, entriesOrNone, htruthy, hentries, Except.map, pendingOr]
    · cases hf
  · simp only [specsOf, hkind, List.mem_append] at hv
    rcases hv with hv | hv
    · obtain ⟨field, hfield, hv⟩ := List.mem_filterMap.mp hv
      refine ⟨place ++ "." ++ field, fun p hp => List.mem_append_left _ ?_⟩
      exact List.mem_flatMap.mpr ⟨field, hfield, by simpa only [hv] using hp⟩
    · obtain ⟨e, he, rfl⟩ := List.mem_map.mp hv
      refine ⟨place ++ "." ++ doc.display e.1, fun p hp => List.mem_append_right _ ?_⟩
      cases hproperties : doc.entriesOrNone
          ((Entries.get? (doc.entriesAt id) "properties").getD .null) with
      | error f =>
        obtain ⟨-, -, hentries⟩ := entriesOrNone_eq_error_iff.mp hproperties
        cases hstated : Entries.get? (doc.entriesAt id) "properties" <;> simp_all
      | ok entries =>
        rw [propertyEntries_of_entriesOrNone hproperties] at he
        exact mem_entryMappings he hp

/-- A look ends in the complaint about the mapping, in a fault, or in what the mapping leads to. -/
theorem visit_cases (doc : Document) (place : String) (id : NodeId) :
    (∃ m, doc.complaint? place id = some m ∧
        doc.visit place (doc.entriesAt id) = .error (.malformed m)) ∨
      doc.Obstructs id .notKey ∧ doc.visit place (doc.entriesAt id) = .error (.fault .notKey) ∨
      doc.IsLocallyValid id ∧ ∃ found, doc.visit place (doc.entriesAt id) = .ok found ∧
        doc.IsFound id found := by
  unfold complaint? visit
  cases hkind : Entries.get? (doc.entriesAt id) "kind" with
  | none =>
    cases htype : Entries.get? (doc.entriesAt id) "type" with
    | none => exact .inl ⟨.noKind place, rfl, rfl⟩
    | some type =>
      have hvalid : doc.IsLocallyValid id := by simp [IsLocallyValid, hkind, htype]
      have hspecs : doc.specsOf (doc.entriesAt id) = [type] := by simp [specsOf, hkind, htype]
      refine .inr (.inr ⟨hvalid, doc.mappings place type, rfl, ?_⟩)
      refine isFound_of_specs hvalid (fun p hp => mem_mappings_cases (by simp [hspecs]) hp) ?_ ?_
      · rintro f (_ | ⟨hkind', -, -, -⟩ | _) hf
        · cases hf
        · simp [hkind] at hkind'
        · cases hf
      · intro v hv
        rw [hspecs, List.mem_singleton] at hv
        exact ⟨place, fun p hp => hv ▸ hp⟩
  | some stated =>
    cases hsought : doc.canBeSought stated with
    | false =>
      refine .inr (.inl ⟨.kind hkind hsought, ?_⟩)
      simp only [checkKind, hsought]
      rfl
    | true =>
      cases hof : Kind.ofValue? stated with
      | none =>
        refine .inl ⟨.unknownKind place (doc.literal stated), by simp only [hof], ?_⟩
        simp only [checkKind, hsought, hof, if_true]
        rfl
      | some kind =>
        by_cases hname : kind = .reference ∧ Entries.get? (doc.entriesAt id) "name" = none
        · refine .inl ⟨.noName place, by simp only [hof, if_pos hname], ?_⟩
          simp only [checkKind, hsought, hof, if_true]
          exact if_pos hname
        · have hnone : doc.complaint? place id = none := by
            simp only [complaint?, hkind, hof, if_neg hname]
          have hvalid := complaint?_eq_none_iff.mp hnone
          refine .inr (.inr ⟨hvalid, doc.nodeSpecs place id, ?_, isFound_nodeSpecs hkind hvalid⟩)
          simp only [checkKind, hsought, hof, if_true]
          exact if_neg hname

theorem IsFound.covers (h : doc.IsFound id found) (hclear : ∀ f, ¬ doc.Obstructs id f) :
    Covers (doc.LeadsTo id) found := by
  have hsound : Only (doc.LeadsTo id) found := fun p hp => by
    rcases h.sound p hp with ⟨b, place, rfl, hb⟩ | ⟨f, -, hf⟩
    · exact ⟨b, place, rfl, hb⟩
    · exact (hclear f hf).elim
  exact ⟨hsound, (h.complete hsound.not_fault).2⟩

theorem visit_cases_of_not_obstructs (hclear : ∀ f, ¬ doc.Obstructs id f) (place : String) :
    (∃ m, doc.complaint? place id = some m ∧
        doc.visit place (doc.entriesAt id) = .error (.malformed m)) ∨
      doc.IsLocallyValid id ∧ ∃ found, doc.visit place (doc.entriesAt id) = .ok found ∧
        Covers (doc.LeadsTo id) found := by
  rcases doc.visit_cases place id with hm | ⟨hf, -⟩ | ⟨hvalid, found, hok, hfound⟩
  · exact .inl hm
  · exact (hclear _ hf).elim
  · exact .inr ⟨hvalid, found, hok, hfound.covers hclear⟩

theorem visit_of_isLocallyValid (hclear : ∀ f, ¬ doc.Obstructs id f)
    (hvalid : doc.IsLocallyValid id) (place : String) :
    ∃ found, doc.visit place (doc.entriesAt id) = .ok found ∧ Covers (doc.LeadsTo id) found := by
  rcases visit_cases_of_not_obstructs hclear place with ⟨m, hm, -⟩ | ⟨-, hfound⟩
  · simp [complaint?_eq_none_iff.mpr hvalid] at hm
  · exact hfound

theorem isFound_of_visit (hvisit : doc.visit place (doc.entriesAt id) = .ok found) :
    doc.IsFound id found := by
  rcases doc.visit_cases place id with ⟨m, -, herror⟩ | ⟨-, herror⟩ | ⟨-, found', hok, hfound⟩
  · simp [herror] at hvisit
  · simp [herror] at hvisit
  · rw [hok] at hvisit
    cases hvisit
    exact hfound

/-- A look that finds no fault finds everything that a mapping leads to. -/
theorem isInspected_of_visit (hvisit : doc.visit place (doc.entriesAt id) = .ok found)
    (hfault : ∀ f, .fault f ∉ found) :
    doc.IsInspected id ∧ ∀ b, doc.LeadsTo id b → ∃ at', .node b at' ∈ found :=
  (isFound_of_visit hvisit).complete hfault

end Visit

end RouteCatalog.Document
