import RouteCatalog.Graph.Loading
import RouteCatalog.Proofs.Acceptance
import RouteCatalog.Proofs.JsonNesting

/-! How a document is refused as a type graph. A mapping that is not valid is complained about. What
has not even the shape that validation asks about stands in its way: no graph is made, and there is
nothing to complain about either. -/

namespace RouteCatalog.Graph

open Document

variable {g : Graph} {doc : Document} {v : Value} {source : String} {f : Fault} {t : FileTree}
  {path : Path} {text : String}

/-- What stands in the way of validation: aliases that are no mapping, lists without an end, and
what obstructs a mapping that is reached. -/
inductive IsObstructed (g : Graph) : Fault → Prop where
  | aliases {file : String × Value} {f : Fault} :
      file ∈ g.files → aliasesOf g.doc file.2 = .error f → IsObstructed g f
  | root {spec : Value} : g.IsRoot spec → ¬ g.doc.ListsEnd spec → IsObstructed g .endless
  | mapping {id : NodeId} {f : Fault} :
      g.IsReached id → g.doc.Obstructs id f → IsObstructed g f

section Validate

theorem mem_mappings_cases_of_isRoot {spec : Value} {place : String} {p : Pending}
    (hspec : g.IsRoot spec) (hp : p ∈ g.doc.mappings place spec) :
    (∃ id at', p = .node id at' ∧ g.IsReached id) ∨ ∃ f, p = .fault f ∧ g.IsObstructed f := by
  rcases mappingsWithin_cases _ _ _ hp with ⟨id, at', rfl, hlead⟩ | rfl
  · exact .inl ⟨id, at', rfl, spec, id, hspec, hlead, .refl id⟩
  · exact .inr ⟨_, rfl, .root hspec (fault_mem_mappings_iff.mp hp).2⟩

/-- Validation begins with mappings that are reached and with what stands in its way. -/
theorem mem_roots_cases {p : Pending} (hp : p ∈ g.roots) :
    (∃ id at', p = .node id at' ∧ g.IsReached id) ∨ ∃ f, p = .fault f ∧ g.IsObstructed f := by
  rcases List.mem_append.mp hp with hp | hp
  · obtain ⟨e, he, hp⟩ := List.mem_flatMap.mp hp
    exact mem_mappings_cases_of_isRoot (.declared he) hp
  · obtain ⟨file, hfile, hp⟩ := List.mem_flatMap.mp hp
    cases haliases : aliasesOf g.doc file.2 with
    | error f =>
      simp only [haliases] at hp
      exact .inr ⟨f, List.mem_singleton.mp hp, .aliases hfile haliases⟩
    | ok aliases =>
      simp only [haliases] at hp
      obtain ⟨e, he, hp⟩ := List.mem_flatMap.mp hp
      exact mem_mappings_cases_of_isRoot (.exported hfile haliases he) hp

/-- Nothing stands in the way of a validation that succeeds. -/
theorem not_isObstructed_of_validate (hok : g.validate = .ok ()) (f : Fault) :
    ¬ g.IsObstructed f := by
  rintro (⟨hfile, hfault⟩ | ⟨hspec, hlists⟩ | ⟨hid, hobstructs⟩)
  · obtain ⟨aliases, haliases⟩ := exists_aliases_of_validate hok hfile
    simp [hfault] at haliases
  · obtain ⟨place, hplace⟩ := hspec.exists_place
    have hfault := hplace _ (fault_mem_mappings_iff.mpr ⟨rfl, hlists⟩)
    exact not_fault_of_checkPending hok _ hfault
  · exact (isInspected_of_validate hok hid).clear f hobstructs

theorem cause_of_validate {e : Rejection} (herror : g.validate = .error e) :
    (∃ id place m, g.IsReached id ∧ g.doc.complaint? place id = some m ∧ e = .malformed m) ∨
      ∃ f, g.IsObstructed f ∧ e = .fault f :=
  cause_of_error (fun _ hp => mem_roots_cases hp) (fun _ _ ha hab => ha.leadsTo hab)
    (fun _ _ hid hf => .mapping hid hf) herror

theorem validate_eq_ok_iff : g.validate = .ok () ↔
    (∀ f, ¬ g.IsObstructed f) ∧ ∀ id, g.IsReached id → g.doc.IsLocallyValid id := by
  constructor
  · exact fun hok => ⟨not_isObstructed_of_validate hok,
      fun id hid => (isInspected_of_validate hok hid).valid⟩
  · rintro ⟨hclear, hvalid⟩
    cases hvalidate : g.validate with
    | ok _ => rfl
    | error e =>
      rcases cause_of_validate hvalidate with ⟨id, place, m, hid, hm, -⟩ | ⟨f, hf, -⟩
      · simp [complaint?_eq_none_iff.mpr (hvalid id hid)] at hm
      · exact (hclear f hf).elim

end Validate

section Reading

/-- What keeps a document from being judged: sections that hold no entries, and what stands in the
way of the graph that the document states. -/
inductive IsBlocked (doc : Document) (v : Value) (source : String) : Fault → Prop where
  | files {fields : List Entry} {f : Fault} : doc.entries? v = some fields →
      doc.entriesOrNone ((Entries.get? fields "files").getD .null) = .error f →
      IsBlocked doc v source f
  | types {fields : List Entry} {f : Fault} : doc.entries? v = some fields →
      doc.toEntries ((Entries.get? fields "types").getD .null) = .error f →
      IsBlocked doc v source f
  | graph {g : Graph} {f : Fault} :
      g.IsStatedBy doc v source → g.IsObstructed f → IsBlocked doc v source f

theorem ofValue_cases (doc : Document) (v : Value) (source : String) :
    (doc.entries? v = none ∧ ofValue doc v source = .error (.malformed .notMapping)) ∨
      (∃ f, IsBlocked doc v source f ∧ ofValue doc v source = .error (.fault f)) ∨
      ∃ g : Graph, g.IsStatedBy doc v source ∧ ofValue doc v source = g.validate.map fun _ => g := by
  cases hfields : doc.entries? v with
  | none => exact .inl ⟨rfl, by simp only [ofValue, hfields]⟩
  | some fields =>
    cases hfiles : doc.entriesOrNone ((Entries.get? fields "files").getD .null) with
    | error f =>
      exact .inr (.inl ⟨f, .files hfields hfiles, by simp only [ofValue, hfields, hfiles]⟩)
    | ok files =>
      cases htypes : doc.toEntries ((Entries.get? fields "types").getD .null) with
      | error f =>
        exact .inr (.inl ⟨f, .types hfields htypes, by simp only [ofValue, hfields, hfiles, htypes]⟩)
      | ok declarations =>
        have hstated : IsStatedBy ⟨doc, source, collectFiles doc files, declarations⟩ doc v source :=
          ⟨rfl, rfl, fields, files, hfields, hfiles, htypes, rfl⟩
        exact .inr (.inr ⟨_, hstated, hstated.ofValue_eq⟩)

theorem IsStatedBy.unique {g' : Graph} (h : g.IsStatedBy doc v source)
    (h' : g'.IsStatedBy doc v source) : g = g' := by
  obtain ⟨hdoc, hsource, fields, files, hfields, hfiles, htypes, hcollected⟩ := h
  obtain ⟨hdoc', hsource', fields', files', hfields', hfiles', htypes', hcollected'⟩ := h'
  rw [hfields] at hfields'
  cases hfields'
  rw [hfiles] at hfiles'
  cases hfiles'
  rw [htypes] at htypes'
  cases g
  cases g'
  simp_all

theorem IsStatedBy.isBlocked_iff (h : g.IsStatedBy doc v source) :
    IsBlocked doc v source f ↔ g.IsObstructed f := by
  refine ⟨fun hblocked => ?_, .graph h⟩
  have hstated := h
  obtain ⟨-, -, fields, files, hfields, hfiles, htypes, -⟩ := h
  cases hblocked with
  | files hfields' hfault =>
    rw [hfields] at hfields'
    cases hfields'
    simp [hfiles] at hfault
  | types hfields' hfault =>
    rw [hfields] at hfields'
    cases hfields'
    simp [htypes] at hfault
  | graph hstated' hobstructed => exact hstated.unique hstated' ▸ hobstructed

theorem ofValue_eq_ok_iff : ofValue doc v source = .ok g ↔ g.IsStatedBy doc v source ∧
    (∀ f, ¬ IsBlocked doc v source f) ∧ ∀ id, g.IsReached id → doc.IsLocallyValid id := by
  have hstates : g.IsStatedBy doc v source → (ofValue doc v source = .ok g ↔
      (∀ f, ¬ IsBlocked doc v source f) ∧ ∀ id, g.IsReached id → doc.IsLocallyValid id) := by
    intro hstated
    have hvalidate := g.validate_eq_ok_iff
    rw [hstated.doc_eq] at hvalidate
    simp only [hstated.isBlocked_iff, ← hvalidate, hstated.ofValue_eq]
    cases g.validate <;> simp [Except.map]
  constructor
  · intro hok
    have hstated : g.IsStatedBy doc v source := by
      rcases ofValue_cases doc v source with ⟨-, h⟩ | ⟨f, -, h⟩ | ⟨g', hstated, h⟩
      · simp [hok] at h
      · simp [hok] at h
      · cases hvalidate : g'.validate <;> simp [hok, hvalidate, Except.map] at h
        exact h ▸ hstated
    exact ⟨hstated, (hstates hstated).mp hok⟩
  · exact fun ⟨hstated, hclear⟩ => (hstates hstated).mpr hclear

/-- What is refused is no mapping, or holds a mapping that is complained about, or is blocked. -/
theorem cause_of_ofValue {e : Rejection} (herror : ofValue doc v source = .error e) :
    (doc.entries? v = none ∧ e = .malformed .notMapping) ∨
      (∃ (g : Graph) (id : NodeId) (place : String) (m : Malformation),
        g.IsStatedBy doc v source ∧ g.IsReached id ∧ doc.complaint? place id = some m ∧
          e = .malformed m) ∨
      ∃ f, IsBlocked doc v source f ∧ e = .fault f := by
  rcases ofValue_cases doc v source with ⟨hnone, h⟩ | ⟨f, hf, h⟩ | ⟨g, hstated, h⟩
  · cases herror.symm.trans h
    exact .inl ⟨hnone, rfl⟩
  · cases herror.symm.trans h
    exact .inr (.inr ⟨f, hf, rfl⟩)
  · cases hvalidate : g.validate with
    | ok _ => simp [herror, hvalidate, Except.map] at h
    | error e' =>
      rw [herror, hvalidate] at h
      cases h
      rcases cause_of_validate hvalidate with ⟨id, place, m, hid, hm, rfl⟩ | ⟨f, hf, rfl⟩
      · exact .inr (.inl ⟨g, id, place, m, hstated, hid, hstated.doc_eq ▸ hm, rfl⟩)
      · exact .inr (.inr ⟨f, .graph hstated hf, rfl⟩)

end Reading

section Loading

theorem load_fst : (load t path).1 = liftFault (t.readText path) >>= fun text? =>
    match text? with
    | none => .error (.graph (.unreadable path.text .inaccessible))
    | some text => ofText {} path text := by
  unfold load
  simp only
  split <;> exact Eq.symm ‹_›

theorem readText_eq_error_iff : t.readText path = .error f ↔ (path.holdsNull ∧ f = .badPath) ∨
    ¬ path.holdsNull ∧ f = .notUnicode ∧
      ∃ bytes, t.look path = .file bytes ∧ String.fromUTF8? ⟨bytes.toArray⟩ = none := by
  unfold FileTree.readText
  by_cases hnull : path.holdsNull
  · simp [hnull, eq_comm]
  · cases hlook : t.look path with
    | file bytes => cases htext : String.fromUTF8? ⟨bytes.toArray⟩ <;> simp [hnull, htext, eq_comm]
    | _ => simp [hnull]

theorem ofText_eq_fault_iff : ofText {} path text = .error (.fault f) ↔
    readValue {} path text = .error (.fault f) ∨ ∃ v doc, readValue {} path text = .ok (v, doc) ∧
      ofValue doc v path.text = .error (.fault f) := by
  unfold ofText
  cases hread : readValue {} path text with
  | error e => simp [bind, Except.bind]
  | ok r =>
    obtain ⟨v, doc⟩ := r
    simp only [bind, Except.bind]
    cases hvalue : ofValue doc v path.text with
    | ok g => simp [pure, Except.pure, hvalue]
    | error e => cases e <;> simp [throw, throwThe, MonadExceptOf.throw, Failure.ofRejection, hvalue]

/-- Loading fails otherwise than with a complaint exactly if the bytes, the text or the document
cannot be read. -/
theorem load_eq_fault_iff : (load t path).1 = .error (.fault f) ↔
    t.readText path = .error f ∨ ∃ text, t.readText path = .ok (some text) ∧
      (readValue {} path text = .error (.fault f) ∨ ∃ v doc,
        readValue {} path text = .ok (v, doc) ∧ ofValue doc v path.text = .error (.fault f)) := by
  rw [load_fst]
  cases htext : t.readText path with
  | error f' => simp [liftFault, bind, Except.bind]
  | ok text? =>
    cases text? with
    | none => simp [liftFault, bind, Except.bind]
    | some text => simp [liftFault, bind, Except.bind, ofText_eq_fault_iff]

theorem cause_of_load {e : Failure} (herror : (load t path).1 = .error e) :
    (∃ complaint, e = .graph complaint) ∨ ∃ f, e = .fault f := by
  have hcause : FailsOnly (load t path).1
      fun e => (∃ complaint, e = .graph complaint) ∨ ∃ f, e = .fault f := by
    rw [load_fst]
    refine FailsOnly.bind ?_ fun text? _ => ?_
    · cases t.readText path with
      | ok text? => exact .ok text?
      | error f => exact .error (.inr ⟨f, rfl⟩)
    · cases text? with
      | none => exact .error (.inl ⟨_, rfl⟩)
      | some text =>
        refine FailsOnly.bind (fun e he => ?_) fun r _ => ?_
        · unfold readValue at he
          split at he <;> split at he <;> cases he
          all_goals first | exact .inl ⟨_, rfl⟩ | exact .inr ⟨_, rfl⟩
        · obtain ⟨v, doc⟩ := r
          cases hvalue : ofValue doc v path.text with
          | ok g => simpa only [hvalue] using .ok g
          | error rejection =>
            simp only [hvalue]
            cases rejection with
            | malformed m => exact .error (.inl ⟨_, rfl⟩)
            | fault f => exact .error (.inr ⟨_, rfl⟩)
  exact hcause e herror

/-- Of a text that is JSON nothing stays unread but numbers that are too long, and what is read
refers backward. -/
theorem readValue_json (text : String) (hsuffix : path.suffix = ".json") :
    (∀ f, readValue {} path text = .error (.fault f) → f = .badNumber) ∧
      ∀ v doc, readValue {} path text = .ok (v, doc) → doc.RefersBackward := by
  unfold readValue
  rw [if_pos hsuffix]
  cases hread : Json.read {} text with
  | ok r =>
    refine ⟨by simp, fun v doc h => ?_⟩
    cases h
    exact (Json.refersBackward_of_read hread).1
  | error e => cases e <;> simp

end Loading

section Endless

theorem ne_endless_of_entriesOrNone (h : doc.entriesOrNone v = .error f) : f ≠ .endless := by
  obtain ⟨rfl, -, -⟩ := entriesOrNone_eq_error_iff.mp h
  simp

theorem ne_endless_of_aliasesOf (h : aliasesOf doc v = .error f) : f ≠ .endless := by
  have haliases : FailsOnly (aliasesOf doc v) (· ≠ .endless) :=
    FailsOnly.bind (fun _ => ne_endless_of_entriesOrNone) fun fields _ _ =>
      ne_endless_of_entriesOrNone
  exact haliases f h

theorem ne_endless_of_toEntries (h : doc.toEntries v = .error f) : f ≠ .endless := by
  have hparts : ∀ w, FailsOnly (doc.parts w) (· ≠ .endless) := by
    intro w
    unfold parts
    cases doc.items? w with
    | none => exact .error (by simp)
    | some items => exact .ok items
  have hentry : ∀ w, FailsOnly (doc.toEntry w) (· ≠ .endless) := by
    intro w
    refine (hparts w).bind fun items _ => ?_
    split
    · split
      · exact .ok _
      · exact .error (by simp)
    · exact .error (by simp)
  have hentries : FailsOnly (doc.toEntries v) (· ≠ .endless) := by
    unfold toEntries
    split
    · split
      · exact .ok _
      · refine (hparts v).bind fun items _ => ?_
        exact (FailsOnly.mapM fun w _ => hentry w).bind fun pairs _ => .ok _
    · exact .ok _
  exact hentries f h

/-- What is taken from a mapping of a document that refers backward is one of its first nodes, too. -/
theorem isBefore_of_get? {entries : List Entry} {name : String} {w : Value}
    (hentries : ∀ e ∈ entries, e.2.IsBefore doc.nodes.size)
    (hw : Entries.get? entries name = some w) : w.IsBefore doc.nodes.size := by
  obtain ⟨e, he, rfl⟩ := Option.map_eq_some_iff.mp hw
  exact hentries e (List.mem_of_find?_eq_some he)

theorem isBefore_of_mem_entries (v? : Option Value) (hback : doc.RefersBackward) :
    ∀ e ∈ (v?.bind doc.entries?).getD [], e.2.IsBefore doc.nodes.size := by
  intro e he
  cases hentries : v?.bind doc.entries? with
  | none => simp [hentries] at he
  | some entries =>
    obtain ⟨v, -, hv⟩ := Option.bind_eq_some_iff.mp hentries
    exact (hback.isBefore_of_entries? hv (by simpa [hentries] using he)).2

theorem isBefore_of_entriesOrNone {entries : List Entry} {e : Entry} (hback : doc.RefersBackward)
    (h : doc.entriesOrNone v = .ok entries) (he : e ∈ entries) : e.2.IsBefore doc.nodes.size :=
  isBefore_of_mem_entries (some v) hback e (entries_of_entriesOrNone h ▸ he)

theorem isBefore_of_toEntry {item : Value} {e : Entry} (hback : doc.RefersBackward)
    (h : doc.toEntry item = .ok e) : e.2.IsBefore doc.nodes.size := by
  obtain ⟨items, hitems, h⟩ := bind_eq_ok_iff.mp h
  have hparts : doc.items? item = some items := by
    unfold parts at hitems
    split at hitems <;> cases hitems
    assumption
  split at h
  · split_ifs at h
    cases h
    exact hback.isBefore_of_items? hparts (by simp)
  · cases h

theorem isBefore_of_toEntries {entries : List Entry} {e : Entry} (hback : doc.RefersBackward)
    (h : doc.toEntries v = .ok entries) (he : e ∈ entries) : e.2.IsBefore doc.nodes.size := by
  unfold toEntries at h
  split_ifs at h
  · cases hentries : doc.entries? v with
    | some _ =>
      simp only [hentries, Except.ok.injEq] at h
      exact (hback.isBefore_of_entries? hentries (h ▸ he)).2
    | none =>
      simp only [hentries] at h
      obtain ⟨items, hitems, h⟩ := bind_eq_ok_iff.mp h
      obtain ⟨pairs, hpairs, h⟩ := bind_eq_ok_iff.mp h
      cases h
      refine (Entries.forall_mem_ofPairs (P := fun _ => True)
        (Q := Value.IsBefore doc.nodes.size) (fun pair hpair => ⟨trivial, ?_⟩) e he).2
      obtain ⟨item, -, hitem⟩ := exists_of_mem_mapM hpairs hpair
      exact isBefore_of_toEntry hback hitem
  · cases h
    cases he

theorem isBefore_of_specsOf {id : NodeId} {w : Value} (hback : doc.RefersBackward)
    (hw : w ∈ doc.specsOf (doc.entriesAt id)) : w.IsBefore doc.nodes.size := by
  have hentries : ∀ e ∈ doc.entriesAt id, e.2.IsBefore doc.nodes.size :=
    isBefore_of_mem_entries (some (.node id)) hback
  unfold specsOf at hw
  split at hw
  · exact isBefore_of_get? hentries (Option.mem_toList.mp hw)
  · rcases List.mem_append.mp hw with hw | hw
    · obtain ⟨field, -, hw⟩ := List.mem_filterMap.mp hw
      exact isBefore_of_get? hentries hw
    · obtain ⟨e, he, rfl⟩ := List.mem_map.mp hw
      exact isBefore_of_mem_entries _ hback e he

/-- In a document that refers backward all lists end, and so does its validation. -/
theorem not_isBlocked_endless (hback : doc.RefersBackward) : ¬ IsBlocked doc v source .endless := by
  rintro (⟨-, hfault⟩ | ⟨-, hfault⟩ | ⟨hstated, hobstructed⟩)
  · exact ne_endless_of_entriesOrNone hfault rfl
  · exact ne_endless_of_toEntries hfault rfl
  · obtain ⟨rfl, -, fields, files, -, -, htypes, -⟩ := hstated
    cases hobstructed with
    | aliases hfile hfault => exact ne_endless_of_aliasesOf hfault rfl
    | root hspec hlists =>
      refine hlists (hback.listsEnd ?_)
      cases hspec with
      | declared he => exact isBefore_of_toEntries hback htypes he
      | exported hfile haliases he =>
        obtain ⟨fields, -, haliases⟩ := bind_eq_ok_iff.mp haliases
        exact isBefore_of_entriesOrNone hback haliases he
    | mapping hid hobstructs =>
      cases hobstructs with
      | list hv hlists => exact hlists (hback.listsEnd (isBefore_of_specsOf hback hv))

end Endless

/-- A document that nothing stands in the way of is made a graph or complained about. What does
stand in the way keeps a graph from being made, and where there is nothing to complain about, no
complaint comes out either. A file adds what keeps its bytes from being a text and its text from
being a document. What a file of JSON holds is finite, so that going over it ends; that it may be
nested too deep for the stack is left out. -/
theorem refused_with_complaint_unless_blocked (doc : Document) (v : Value) (source : String)
    (t : FileTree) (path : Path) :
    (∀ g, ofValue doc v source = .ok g ↔ g.IsStatedBy doc v source ∧
      (∀ f, ¬ IsBlocked doc v source f) ∧ ∀ id, g.IsReached id → doc.IsLocallyValid id) ∧
    (∀ m, ofValue doc v source = .error (.malformed m) → doc.entries? v = none ∧ m = .notMapping ∨
      ∃ (g : Graph) (id : NodeId) (place : String),
        g.IsStatedBy doc v source ∧ g.IsReached id ∧ doc.complaint? place id = some m) ∧
    (∀ f, ofValue doc v source = .error (.fault f) → IsBlocked doc v source f) ∧
    ((∃ f, IsBlocked doc v source f) →
      (∀ (g : Graph) (id : NodeId), g.IsStatedBy doc v source → g.IsReached id →
        doc.IsLocallyValid id) →
      ∃ f, ofValue doc v source = .error (.fault f)) ∧
    (∀ f, (load t path).1 = .error (.fault f) ↔
      (path.holdsNull ∧ f = .badPath) ∨
      (¬ path.holdsNull ∧ f = .notUnicode ∧
        ∃ bytes, t.look path = .file bytes ∧ String.fromUTF8? ⟨bytes.toArray⟩ = none) ∨
      ∃ text, t.readText path = .ok (some text) ∧ (readValue {} path text = .error (.fault f) ∨
        ∃ v doc, readValue {} path text = .ok (v, doc) ∧
          ofValue doc v path.text = .error (.fault f))) ∧
    (∀ e, (load t path).1 = .error e → (∃ complaint, e = .graph complaint) ∨ ∃ f, e = .fault f) ∧
    (path.suffix = ".json" → (load t path).1 ≠ .error (.fault .endless)) := by
  have hfault : ∀ {doc v source f}, ofValue doc v source = .error (.fault f) →
      IsBlocked doc v source f := by
    intro doc v source f h
    rcases cause_of_ofValue h with ⟨-, heq⟩ | ⟨g, id, place, m, -, -, -, heq⟩ | ⟨f', hf, heq⟩
    · cases heq
    · cases heq
    · cases heq
      exact hf
  refine ⟨fun g => ofValue_eq_ok_iff, fun m h => ?_, fun f => hfault, ?_, fun f => ?_,
    fun e => cause_of_load, fun hjson h => ?_⟩
  · rcases cause_of_ofValue h with ⟨hnone, heq⟩ | ⟨g, id, place, m', hstated, hid, hm, heq⟩ | hf
    · cases heq
      exact .inl ⟨hnone, rfl⟩
    · cases heq
      exact .inr ⟨g, id, place, hstated, hid, hm⟩
    · obtain ⟨f, -, heq⟩ := hf
      cases heq
  · rintro ⟨f, hf⟩ hvalid
    have hsome : doc.entries? v ≠ none := by
      rcases hf with ⟨hfields, -⟩ | ⟨hfields, -⟩ | ⟨⟨-, -, fields, files, hfields, -⟩, -⟩
      all_goals simp [hfields]
    cases hvalue : ofValue doc v source with
    | ok g => exact ((ofValue_eq_ok_iff.mp hvalue).2.1 f hf).elim
    | error e =>
      rcases cause_of_ofValue hvalue with ⟨hnone, -⟩ | ⟨g, id, place, m, hg, hid, hm, -⟩ | ⟨f', -, rfl⟩
      · exact (hsome hnone).elim
      · simp [complaint?_eq_none_iff.mpr (hvalid g id hg hid)] at hm
      · exact ⟨f', rfl⟩
  · rw [load_eq_fault_iff, readText_eq_error_iff, or_assoc]
  · rcases load_eq_fault_iff.mp h with htext | ⟨text, -, hvalue⟩
    · simp [readText_eq_error_iff] at htext
    · obtain ⟨hnumber, hback⟩ := readValue_json text hjson
      rcases hvalue with hread | ⟨v, doc, hread, hvalue⟩
      · cases hnumber _ hread
      · exact not_isBlocked_endless (hback v doc hread) (hfault hvalue)

def listedKind : Document := ⟨#[
  .mapping [(.text "types", .node 1)],
  .mapping [(.text "A", .node 2)],
  .mapping [(.text "kind", .node 3)],
  .list [.text "x"]]⟩

theorem listedKind_is_blocked :
    ofValue listedKind (.node 0) "<memory>" = .error (.fault .notKey) ∧
      IsBlocked listedKind (.node 0) "<memory>" .notKey := by
  have hfault : ofValue listedKind (.node 0) "<memory>" = .error (.fault .notKey) := by cbv
  obtain ⟨-, -, hblocked, -⟩ := refused_with_complaint_unless_blocked listedKind (.node 0)
    "<memory>" ⟨[], []⟩ (Path.ofText "graph.yaml")
  exact ⟨hfault, hblocked _ hfault⟩

end RouteCatalog.Graph
