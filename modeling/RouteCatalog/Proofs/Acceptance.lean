import RouteCatalog.Proofs.Validation

/-! Which documents are accepted as type graphs: those in which every mapping that a declaration or
an alias leads to is valid by itself. -/

namespace RouteCatalog

namespace Document

variable {doc : Document} {v w : Value} {a b id : NodeId}

/-- No list is an item of a list. -/
def IsFlat (doc : Document) : Prop :=
  ∀ id ∈ doc.nodeIds, ∀ items ∈ doc.list? (.node id), ∀ w ∈ items, doc.list? w = none

/-- A value is one of the nodes of a document, or no list. -/
def IsInside (doc : Document) (v : Value) : Prop := v ∈ doc.nodeIds.map .node ∨ doc.list? v = none

theorem not_nests (h : doc.list? v = none) : ¬ doc.Nests v id := by
  intro hid
  cases hid with
  | self hlist => simp [h] at hlist
  | item hlist => simp [h] at hlist

theorem IsFlat.listsEnd (hflat : doc.IsFlat) (hv : doc.IsInside v) : doc.ListsEnd v := by
  intro id hid
  rcases hv with hv | hv
  · obtain ⟨n, hn, rfl⟩ := List.mem_map.mp hv
    have hitem : ∀ b, ¬ doc.HasListItem n b := by
      rintro b ⟨items, hitems, hb, hsome⟩
      simp [hflat n hn items hitems _ hb] at hsome
    cases hid with
    | self =>
      refine ⟨hn, fun hcycle => ?_⟩
      obtain ⟨b, hb, -⟩ := Relation.TransGen.head'_iff.mp hcycle
      exact hitem b hb
    | item hlist hw hnests => exact (not_nests (hflat n hn _ hlist _ hw) hnests).elim
  · exact (not_nests hv hid).elim

/-- Mappings that lead forward only, in the order of the table, lead to no cycle. -/
theorem isAcyclic_of_forward (h : ∀ a b, doc.LeadsTo a b → a < b) : doc.IsAcyclic := by
  intro id hcycle
  have hforward : ∀ b, Relation.TransGen doc.LeadsTo id b → id < b := by
    intro b hb
    induction hb with
    | single hb => exact h _ _ hb
    | tail _ hb ih => exact ih.trans (h _ _ hb)
  exact Nat.lt_irrefl id (hforward id hcycle)

end Document

namespace Graph

open Document

variable {g : Graph} {doc : Document} {v spec : Value} {source : String} {a b id : NodeId}

/-- What a declaration or an alias of a file stands for. -/
inductive IsRoot (g : Graph) : Value → Prop where
  | declared {e : Entry} : e ∈ g.declarations → IsRoot g e.2
  | exported {path : String} {file : Value} {aliases : List Entry} {e : Entry} :
      (path, file) ∈ g.files → aliasesOf g.doc file = .ok aliases → e ∈ aliases → IsRoot g e.2

/-- A declaration or an alias leads to a mapping, directly or through others. -/
def IsReached (g : Graph) (id : NodeId) : Prop :=
  ∃ spec a, g.IsRoot spec ∧ g.doc.Leads spec a ∧ g.doc.Reaches a id

/-- The parts of a graph have the shapes that validation expects: files and their aliases are
mappings or count as none, and lists end. -/
structure IsCheckable (g : Graph) : Prop where
  aliases : ∀ file ∈ g.files, ∃ aliases, aliasesOf g.doc file.2 = .ok aliases
  roots : ∀ spec, g.IsRoot spec → g.doc.ListsEnd spec
  reached : ∀ id, g.IsReached id → g.doc.IsVisitable id

structure IsStatedBy (g : Graph) (doc : Document) (v : Value) (source : String) : Prop where
  doc_eq : g.doc = doc
  source_eq : g.source = source
  sections : ∃ fields files, doc.entries? v = some fields ∧
    doc.entriesOrNone ((Entries.get? fields "files").getD .null) = .ok files ∧
    doc.toEntries ((Entries.get? fields "types").getD .null) = .ok g.declarations ∧
    g.files = collectFiles doc files

theorem IsStatedBy.ofValue_eq (h : g.IsStatedBy doc v source) :
    ofValue doc v source = g.validate.map fun _ => g := by
  obtain ⟨rfl, rfl, fields, files, hfields, hfiles, htypes, hcollected⟩ := h
  unfold ofValue
  simp only [hfields, hfiles, htypes, ← hcollected]
  cases g.validate <;> rfl

section Roots

theorem IsReached.leadsTo (ha : g.IsReached a) (hab : g.doc.LeadsTo a b) : g.IsReached b := by
  obtain ⟨spec, root, hspec, hlead, hreach⟩ := ha
  obtain ⟨w, hw, hleadw⟩ := hab
  exact ⟨spec, root, hspec, hlead, hreach.trans (.cons hw hleadw (.refl b))⟩

theorem IsReached.mem_nodeIds (h : g.IsReached id) : id ∈ g.doc.nodeIds := by
  obtain ⟨spec, root, -, hlead, hreach⟩ := h
  exact hreach.mem_nodeIds hlead.mem_nodeIds

theorem IsRoot.exists_place (hspec : g.IsRoot spec) :
    ∃ place, ∀ p ∈ g.doc.mappings place spec, p ∈ g.roots := by
  cases hspec with
  | @declared e he =>
    refine ⟨"types." ++ g.doc.display e.1, fun p hp => ?_⟩
    exact List.mem_append_left _ (mem_entryMappings he hp)
  | @exported path file aliases e hfile haliases he =>
    refine ⟨"files." ++ path ++ ".aliases." ++ g.doc.display e.1, fun p hp => ?_⟩
    refine List.mem_append_right _ (List.mem_flatMap.mpr ⟨(path, file), hfile, ?_⟩)
    simp only [haliases]
    exact mem_entryMappings he hp

/-- Where no fault is met, validation begins with everything that the roots lead to. -/
theorem IsRoot.exists_pending (hspec : g.IsRoot spec) (hfault : ∀ f, .fault f ∉ g.roots)
    (hlead : g.doc.Leads spec id) : ∃ place, .node id place ∈ g.roots := by
  obtain ⟨place, hplace⟩ := hspec.exists_place
  exact hlead.mem_pending place hplace hfault

theorem IsCheckable.only_roots (h : g.IsCheckable) : Only g.IsReached g.roots := by
  have hreached : ∀ {spec id}, g.IsRoot spec → g.doc.Leads spec id → g.IsReached id :=
    fun hspec hlead => ⟨_, _, hspec, hlead, .refl _⟩
  apply Only.append
  · refine (only_entryMappings _ fun e he => h.roots e.2 (.declared he)).mono ?_
    rintro id ⟨e, he, hlead⟩
    exact hreached (.declared he) hlead
  · apply only_flatMap
    intro file hfile
    obtain ⟨aliases, haliases⟩ := h.aliases file hfile
    simp only [haliases]
    refine (only_entryMappings _ fun e he => h.roots e.2 (.exported hfile haliases he)).mono ?_
    rintro id ⟨e, he, hlead⟩
    exact hreached (.exported hfile haliases he) hlead

theorem IsCheckable.explores (h : g.IsCheckable) : g.doc.Explores g.IsReached g.roots :=
  ⟨h.only_roots, h.reached, fun _ _ ha hab => ha.leadsTo hab⟩

end Roots

/-- Nothing is accepted without a look at everything that is reached. -/
theorem isInspected_of_validate (hok : g.validate = .ok ()) (hid : g.IsReached id) :
    g.doc.IsInspected id := by
  obtain ⟨spec, root, hspec, hlead, hreach⟩ := hid
  obtain ⟨place, hpending⟩ := hspec.exists_pending (not_fault_of_checkPending hok) hlead
  apply isInspected_of_checkPending nodup_nodeIds isClosedUnderVisits_nodeIds hok ?_ hreach
  exact ⟨hlead.mem_nodeIds, .inr ⟨place, hpending⟩⟩

theorem exists_aliases_of_validate (hok : g.validate = .ok ()) {file : String × Value}
    (hfile : file ∈ g.files) : ∃ aliases, aliasesOf g.doc file.2 = .ok aliases := by
  cases haliases : aliasesOf g.doc file.2 with
  | ok aliases => exact ⟨aliases, rfl⟩
  | error f =>
    refine (not_fault_of_checkPending hok f ?_).elim
    refine List.mem_append_right _ (List.mem_flatMap.mpr ⟨file, hfile, ?_⟩)
    simp only [haliases]
    exact List.mem_singleton_self _

theorem validate_of_ofValue (hok : ofValue doc v source = .ok g) : g.validate = .ok () := by
  unfold ofValue at hok
  split at hok
  · cases hok
  · simp only at hok
    split at hok
    · cases hok
    · cases hok
    · split at hok
      · rename_i hvalidate
        cases hok
        exact hvalidate
      · cases hok

theorem IsCheckable.validate_eq_ok_iff (h : g.IsCheckable) :
    g.validate = .ok () ↔ ∀ id, g.IsReached id → g.doc.IsLocallyValid id := by
  constructor
  · exact fun hok id hid => (isInspected_of_validate hok hid).valid
  · exact fun hvalid => checkPending_of_valid h.explores hvalid

/-- Without cycles, validation ends as the traversal does that visits a mapping as often as it
meets it. -/
theorem IsCheckable.traversal_iff (h : g.IsCheckable) (hacyclic : g.doc.IsAcyclic)
    (r : Option Malformation) : g.doc.Traversal g.roots r ↔ g.validate = verdict r := by
  obtain ⟨r', htraversal, hverdict⟩ := exists_traversal hacyclic h.explores
    (fun id hid => hid.mem_nodeIds) fun _ hnode hnot => (hnot hnode).elim
  constructor
  · intro hr
    rw [hr.unique htraversal]
    exact hverdict
  · intro hr
    rw [← verdict_injective (hverdict.symm.trans hr)]
    exact htraversal

/-- A document is accepted exactly if every mapping that is reached in it is valid by itself. If
one is not, the complaint is about such a mapping, and without cycles it is the first one that a
traversal meets which knows nothing of what it has visited. -/
theorem acceptance_is_exact_reachability (hstated : g.IsStatedBy doc v source)
    (hshape : g.IsCheckable) :
    (ofValue doc v source = .ok g ↔ ∀ id, g.IsReached id → doc.IsLocallyValid id) ∧
    ((∃ id, g.IsReached id ∧ ¬ doc.IsLocallyValid id) →
      ∃ id place m, g.IsReached id ∧ doc.complaint? place id = some m ∧
        ofValue doc v source = .error (.malformed m)) ∧
    (doc.IsAcyclic → ∀ r, doc.Traversal g.roots r ↔
      ofValue doc v source = (verdict r).map fun _ => g) := by
  rw [hstated.ofValue_eq]
  obtain rfl := hstated.doc_eq
  have hmap : ∀ x : Except Rejection Unit, (x.map fun _ => g) = .ok g ↔ x = .ok () := by
    intro x
    cases x <;> simp [Except.map]
  refine ⟨(hmap _).trans hshape.validate_eq_ok_iff, ?_, ?_⟩
  · rintro ⟨id, hid, hinvalid⟩
    cases hvalidate : g.validate with
    | ok _ => exact (hinvalid (isInspected_of_validate hvalidate hid).valid).elim
    | error e =>
      obtain ⟨b, place, m, hb, hm, rfl⟩ := exists_complaint_of_error hshape.explores hvalidate
      exact ⟨b, place, m, hb, hm, rfl⟩
  · intro hacyclic r
    rw [hshape.traversal_iff hacyclic r]
    cases g.validate <;> cases r <;> simp [verdict, Except.map]

/-- A document that meets one type node in four places, and a mapping without a kind behind the
last of them. -/
def sharing : Document := ⟨#[
  .mapping [(.text "files", .node 1), (.text "types", .node 4)],
  .mapping [(.text "./src/app.ts", .node 2)],
  .mapping [(.text "aliases", .node 3)],
  .mapping [(.text "App", .node 5)],
  .mapping [(.text "Shared", .node 9)],
  .mapping [(.text "kind", .text "object"), (.text "properties", .node 6)],
  .mapping [(.text "first", .node 9), (.text "second", .node 7), (.text "bad", .node 8)],
  .mapping [(.text "type", .node 9), (.text "optional", .bool true)],
  .mapping [(.text "kind", .text "union"), (.text "members", .node 10)],
  .mapping [(.text "kind", .text "object")],
  .list [.node 9, .node 11],
  .mapping [(.text "foo", .int 1)]]⟩

def sharingGraph : Graph where
  doc := sharing
  source := "<memory>"
  files := [("src/app.ts", .node 2)]
  declarations := [(.text "Shared", .node 9)]

theorem sharing_is_rejected :
    sharingGraph.IsStatedBy sharing (.node 0) "<memory>" ∧ sharingGraph.IsCheckable ∧
      (∃ id place m, sharingGraph.IsReached id ∧ sharing.complaint? place id = some m ∧
        ofValue sharing (.node 0) "<memory>" = .error (.malformed m)) ∧
      sharing.IsAcyclic ∧ sharing.Traversal sharingGraph.roots
        (some (.noKind "files.src/app.ts.aliases.App.bad.members[1]")) := by
  have hstated : sharingGraph.IsStatedBy sharing (.node 0) "<memory>" :=
    ⟨rfl, rfl, _, _, rfl, rfl, rfl, rfl⟩
  have hflat : sharing.IsFlat := by
    unfold IsFlat
    decide
  have hlists : ∀ a ∈ sharing.nodeIds, ∀ v ∈ sharing.specsOf (sharing.entriesAt a),
      sharing.ListsEnd v := by
    have hinside : ∀ a ∈ sharing.nodeIds, ∀ v ∈ sharing.specsOf (sharing.entriesAt a),
        sharing.IsInside v := by
      unfold IsInside
      decide
    exact fun a ha v hv => hflat.listsEnd (hinside a ha v hv)
  have hshape : sharingGraph.IsCheckable := by
    have hkind : ∀ a ∈ sharing.nodeIds, ∀ stated ∈ Entries.get? (sharing.entriesAt a) "kind",
        sharing.isKey stated = true := by decide
    have hproperties : ∀ a ∈ sharing.nodeIds, (sharing.entriesOrNone
        ((Entries.get? (sharing.entriesAt a) "properties").getD .null)).isOk = true := by decide
    constructor
    · intro file hfile
      rw [List.mem_singleton.mp hfile]
      exact ⟨_, rfl⟩
    · intro spec hspec
      apply hflat.listsEnd
      cases hspec with
      | declared he =>
        rw [List.mem_singleton.mp he]
        exact .inr rfl
      | exported hfile haliases he =>
        cases List.mem_singleton.mp hfile
        cases haliases
        rw [List.mem_singleton.mp he]
        exact .inr rfl
    · intro id hid
      have hnode := hid.mem_nodeIds
      refine ⟨hkind id hnode, fun _ => ?_, hlists id hnode⟩
      have hok := hproperties id hnode
      cases hentries : sharing.entriesOrNone
          ((Entries.get? (sharing.entriesAt id) "properties").getD .null) with
      | ok entries => exact ⟨entries, hentries⟩
      | error f => simp [hentries, Except.isOk, Except.toBool] at hok
  have hacyclic : sharing.IsAcyclic := by
    apply isAcyclic_of_forward
    have hforward : ∀ a ∈ sharing.nodeIds, ∀ v ∈ sharing.specsOf (sharing.entriesAt a),
        (sharing.mappings "" v).all (fun
          | .node b _ => a < b
          | .fault _ => false) = true := by
      decide +kernel
    rintro a b ⟨v, hv, hlead⟩
    by_cases ha : a ∈ sharing.nodeIds
    · obtain ⟨place, hmem⟩ := hlead.mem_mappings (hlists a ha v hv) ""
      simpa using List.all_eq_true.mp (hforward a ha v hv) _ hmem
    · simp [entriesAt_eq_nil ha, specsOf, Entries.get?] at hv
  have hrejected : ofValue sharing (.node 0) "<memory>" =
      .error (.malformed (.noKind "files.src/app.ts.aliases.App.bad.members[1]")) := by cbv
  obtain ⟨haccepted, hcomplaint, htraversal⟩ := acceptance_is_exact_reachability hstated hshape
  refine ⟨hstated, hshape, hcomplaint ?_, hacyclic, (htraversal hacyclic _).mpr hrejected⟩
  by_contra hvalid
  have hok := haccepted.mpr fun id hid => by_contra fun hinvalid => hvalid ⟨id, hid, hinvalid⟩
  rw [hrejected] at hok
  cases hok

end Graph

end RouteCatalog
