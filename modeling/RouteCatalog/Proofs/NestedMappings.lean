import RouteCatalog.Graph.Reachability
import RouteCatalog.Proofs.Sequence

/-! The mappings in a specification: they are found through lists, in order, and nothing else is. A
list inside itself has no end, which is the only fault that is met there. -/

namespace RouteCatalog.Document

variable {doc : Document} {free : List NodeId} {place : String} {v : Value} {id : NodeId}

def HasListItem (doc : Document) (a b : NodeId) : Prop :=
  ∃ items, doc.list? (.node a) = some items ∧ .node b ∈ items ∧ (doc.list? (.node b)).isSome

/-- A list stands in a specification, through other lists. -/
inductive Nests (doc : Document) : Value → NodeId → Prop where
  | self {id : NodeId} {items : List Value} :
      doc.list? (.node id) = some items → Nests doc (.node id) id
  | item {v w : Value} {items : List Value} {id : NodeId} :
      doc.list? v = some items → w ∈ items → Nests doc w id → Nests doc v id

def ListsEnd (doc : Document) (v : Value) : Prop :=
  ∀ id, doc.Nests v id → id ∈ doc.nodeIds ∧ ¬ Relation.TransGen doc.HasListItem id id

/-- What is pending are mappings that satisfy a property, and no fault. -/
def Only (P : NodeId → Prop) (pending : List Pending) : Prop :=
  ∀ p ∈ pending, ∃ id place, p = .node id place ∧ P id

section Only

variable {P Q : NodeId → Prop} {pending rest : List Pending}

theorem Only.mono (h : Only P pending) (hPQ : ∀ id, P id → Q id) : Only Q pending := by
  intro p hp
  obtain ⟨id, place, rfl, hid⟩ := h p hp
  exact ⟨id, place, rfl, hPQ id hid⟩

theorem Only.append (h : Only P pending) (hrest : Only P rest) : Only P (pending ++ rest) := by
  intro p hp
  rcases List.mem_append.mp hp with hp | hp
  · exact h p hp
  · exact hrest p hp

theorem only_flatMap {α : Type} {f : α → List Pending} {as : List α}
    (h : ∀ a ∈ as, Only P (f a)) : Only P (as.flatMap f) := by
  intro p hp
  obtain ⟨a, ha, hp⟩ := List.mem_flatMap.mp hp
  exact h a ha p hp

theorem Only.not_fault (h : Only P pending) (f : Fault) : .fault f ∉ pending := by
  intro hf
  obtain ⟨id, place, heq, -⟩ := h _ hf
  cases heq

end Only

section Leads

theorem mapping?_eq_some (h : doc.mapping? v = some id) :
    v = .node id ∧ ∃ entries, doc.node id = .mapping entries := by
  cases v with
  | node n =>
    cases hn : doc.node n <;> simp [mapping?, hn] at h
    exact ⟨by rw [h], _, h ▸ hn⟩
  | _ => cases h

theorem list?_eq_some {items : List Value} (h : doc.list? v = some items) :
    ∃ n, v = .node n ∧ doc.node n = .list items := by
  cases v with
  | node n =>
    cases hn : doc.node n <;> simp [list?, hn] at h
    exact ⟨n, rfl, h ▸ hn⟩
  | _ => cases h

theorem Leads.isMapping (h : doc.Leads v id) : ∃ entries, doc.node id = .mapping entries := by
  induction h with
  | mapping hmap => exact (mapping?_eq_some hmap).2
  | item _ _ _ ih => exact ih

end Leads

section Mappings

theorem mem_of_mem_zipIdx {items : List Value} {a : Value × Nat} (ha : a ∈ items.zipIdx) :
    a.1 ∈ items := by
  rw [← List.zipIdx_map_fst 0 items]
  exact List.mem_map_of_mem ha

theorem ListsEnd.item {items : List Value} {w : Value} (h : doc.ListsEnd v)
    (hlist : doc.list? v = some items) (hw : w ∈ items) : doc.ListsEnd w :=
  fun id hid => h id (.item hlist hw hid)

/-- A list is read item by item, unless it is being read already. -/
theorem mappingsWithin_of_list {items : List Value} {n : NodeId} (hn : doc.node n = .list items) :
    doc.mappingsWithin free place (.node n) = if n ∈ free then
      items.zipIdx.flatMap fun a => doc.mappingsWithin (free.erase n)
        (place ++ "[" ++ Decimal.natText a.2 ++ "]") a.1
      else [.fault .endless] := by
  rw [mappingsWithin]
  simp only [hn, List.flatMap]
  split_ifs <;> rfl

/-- Nothing is pending but what a specification leads to, and lists without an end. -/
theorem mappingsWithin_cases (free : List NodeId) (place : String) (v : Value) {p : Pending}
    (hp : p ∈ doc.mappingsWithin free place v) :
    (∃ id place', p = .node id place' ∧ doc.Leads v id) ∨ p = .fault .endless := by
  induction free, place, v using mappingsWithin.induct doc with
  | case1 free place n entries hn =>
    rw [mappingsWithin] at hp
    simp only [hn, List.mem_singleton] at hp
    exact .inl ⟨n, place, hp, .mapping (by simp [mapping?, hn])⟩
  | case2 free place n items hn hfree ih =>
    rw [mappingsWithin_of_list hn, if_pos hfree] at hp
    obtain ⟨a, ha, hp⟩ := List.mem_flatMap.mp hp
    refine (ih a.1 a.2 hp).imp_left ?_
    rintro ⟨id, place', rfl, hlead⟩
    exact ⟨id, place', rfl, .item (by simp [list?, hn]) (mem_of_mem_zipIdx ha) hlead⟩
  | case3 free place n items hn hfree =>
    rw [mappingsWithin_of_list hn, if_neg hfree] at hp
    exact .inr (List.mem_singleton.mp hp)
  | case4 free place n hmapping hlist =>
    rw [mappingsWithin] at hp
    cases hn : doc.node n <;> simp_all
  | case5 free place v hv => cases v <;> simp_all [mappingsWithin]

/-- The lists that are no longer free contain the one that is read now. -/
theorem not_fault_mem_mappingsWithin (free : List NodeId) (place : String) (v : Value)
    (hlists : doc.ListsEnd v)
    (hpassed : ∀ passed ∈ doc.nodeIds, passed ∉ free → ∀ id, v = .node id →
      (doc.list? v).isSome → Relation.TransGen doc.HasListItem passed id) (f : Fault) :
    .fault f ∉ doc.mappingsWithin free place v := by
  induction free, place, v using mappingsWithin.induct doc with
  | case1 free place n entries hn =>
    rw [mappingsWithin]
    simp [hn]
  | case2 free place n items hn hfree ih =>
    have hlist : doc.list? (.node n) = some items := by simp [list?, hn]
    rw [mappingsWithin_of_list hn, if_pos hfree, List.mem_flatMap]
    rintro ⟨a, ha, hf⟩
    have hmem := mem_of_mem_zipIdx ha
    refine ih a.1 a.2 (hlists.item hlist hmem) ?_ hf
    intro passed hnode hnot id hid hsome
    have hstep : doc.HasListItem n id := ⟨items, hlist, hid ▸ hmem, hid ▸ hsome⟩
    by_cases hsame : passed = n
    · exact hsame ▸ .single hstep
    · have hnot' : passed ∉ free := fun hmem => hnot ((List.mem_erase_of_ne hsame).mpr hmem)
      exact (hpassed passed hnode hnot' n rfl (by simp [hlist])).tail hstep
  | case3 free place n items hn hfree =>
    -- A list that is not free was passed on the way here, so that it would contain itself.
    have hlist : doc.list? (.node n) = some items := by simp [list?, hn]
    obtain ⟨hnode, hself⟩ := hlists n (.self hlist)
    exact (hself (hpassed n hnode hfree n rfl (by simp [hlist]))).elim
  | case4 free place n hmapping hlist =>
    rw [mappingsWithin]
    cases hn : doc.node n <;> simp_all
  | case5 free place v hv => cases v <;> simp_all [mappingsWithin]

theorem only_mappings (place : String) (hlists : doc.ListsEnd v) :
    Only (doc.Leads v) (doc.mappings place v) := by
  intro p hp
  refine (mappingsWithin_cases _ _ _ hp).resolve_right ?_
  rintro rfl
  exact not_fault_mem_mappingsWithin _ _ _ hlists (fun _ hnode hnot => (hnot hnode).elim) _ hp

theorem only_entryMappings (place : String) {entries : List Entry}
    (hlists : ∀ e ∈ entries, doc.ListsEnd e.2) :
    Only (fun id => ∃ e ∈ entries, doc.Leads e.2 id) (doc.entryMappings place entries) := by
  apply only_flatMap
  intro e he
  exact (only_mappings _ (hlists e he)).mono fun id hid => ⟨e, he, hid⟩

/-- Where no fault is met, nothing that a specification leads to is left out. -/
theorem Leads.mem_mappingsWithin (h : doc.Leads v id) (free : List NodeId) (place : String)
    (hfault : ∀ f, .fault f ∉ doc.mappingsWithin free place v) :
    ∃ at', .node id at' ∈ doc.mappingsWithin free place v := by
  induction h generalizing free place with
  | mapping hmap =>
    obtain ⟨rfl, entries, hn⟩ := mapping?_eq_some hmap
    exact ⟨place, by simp [mappingsWithin, hn]⟩
  | @item v w items id hlist hw _ ih =>
    obtain ⟨n, rfl, hn⟩ := list?_eq_some hlist
    rw [mappingsWithin_of_list hn] at hfault ⊢
    split_ifs at hfault ⊢ with hfree
    · rw [← List.zipIdx_map_fst 0 items] at hw
      obtain ⟨a, ha, rfl⟩ := List.mem_map.mp hw
      obtain ⟨at', hat⟩ := ih (free.erase n) (place ++ "[" ++ Decimal.natText a.2 ++ "]")
        fun f hf => hfault f (List.mem_flatMap.mpr ⟨a, ha, hf⟩)
      exact ⟨at', List.mem_flatMap.mpr ⟨a, ha, hat⟩⟩
    · exact (hfault _ (List.mem_singleton_self _)).elim

theorem Leads.mem_mappings (h : doc.Leads v id) (hlists : doc.ListsEnd v) (place : String) :
    ∃ at', .node id at' ∈ doc.mappings place v :=
  h.mem_mappingsWithin doc.nodeIds place (only_mappings place hlists).not_fault

section Endless

variable {items : List Value} {w : Value} {n : NodeId}

theorem endless_mem_of_item (hn : doc.node n = .list items) (hw : w ∈ items)
    (h : ∀ place, .fault .endless ∈ doc.mappingsWithin (free.erase n) place w) :
    .fault .endless ∈ doc.mappingsWithin free place (.node n) := by
  rw [mappingsWithin_of_list hn]
  split_ifs
  · rw [← List.zipIdx_map_fst 0 items] at hw
    obtain ⟨a, ha, rfl⟩ := List.mem_map.mp hw
    exact List.mem_flatMap.mpr ⟨a, ha, h _⟩
  · exact List.mem_singleton_self _

/-- A list inside itself is met again when it is no longer free. -/
theorem endless_mem_of_cycle {n : NodeId} (free : List NodeId) (place : String)
    (hcycle : Relation.TransGen doc.HasListItem n n) :
    .fault .endless ∈ doc.mappingsWithin free place (.node n) := by
  obtain ⟨b, hstep, hrest⟩ := Relation.TransGen.head'_iff.mp hcycle
  have hbelow : Relation.TransGen doc.HasListItem b b := .tail' hrest hstep
  obtain ⟨items, hitems, hb, -⟩ := hstep
  obtain ⟨n', heq, hn⟩ := list?_eq_some hitems
  cases heq
  by_cases hfree : n ∈ free
  · exact endless_mem_of_item hn hb fun place => endless_mem_of_cycle (free.erase n) place hbelow
  · rw [mappingsWithin_of_list hn, if_neg hfree]
    exact List.mem_singleton_self _
termination_by free.length
decreasing_by
  rw [List.length_erase_of_mem hfree]
  have := List.length_pos_of_mem hfree
  omega

theorem Nests.endless_mem (h : doc.Nests v id) (hfree : ∀ n ∈ free, n ∈ doc.nodeIds)
    (hid : id ∉ doc.nodeIds ∨ Relation.TransGen doc.HasListItem id id) (place : String) :
    .fault .endless ∈ doc.mappingsWithin free place v := by
  induction h generalizing free place with
  | self hlist =>
    obtain ⟨n, heq, hn⟩ := list?_eq_some hlist
    cases heq
    rcases hid with hid | hcycle
    · rw [mappingsWithin_of_list hn, if_neg fun hmem => hid (hfree _ hmem)]
      exact List.mem_singleton_self _
    · exact endless_mem_of_cycle free place hcycle
  | item hlist hw _ ih =>
    obtain ⟨n, rfl, hn⟩ := list?_eq_some hlist
    exact endless_mem_of_item hn hw fun place =>
      ih (fun m hm => hfree m (List.mem_of_mem_erase hm)) hid place

/-- The one fault that is met in a specification is a list that does not end. -/
theorem fault_mem_mappings_iff {f : Fault} :
    .fault f ∈ doc.mappings place v ↔ f = .endless ∧ ¬ doc.ListsEnd v := by
  constructor
  · intro h
    refine ⟨?_, fun hlists => (only_mappings place hlists).not_fault f h⟩
    rcases mappingsWithin_cases _ _ _ h with ⟨id, place', heq, -⟩ | heq
    · cases heq
    · cases heq
      rfl
  · rintro ⟨rfl, hlists⟩
    unfold ListsEnd at hlists
    push Not at hlists
    obtain ⟨id, hnests, hid⟩ := hlists
    apply hnests.endless_mem fun _ hn => hn
    by_cases hmem : id ∈ doc.nodeIds
    · exact .inr (hid hmem)
    · exact .inl hmem

end Endless

theorem Leads.mem_pending {pending : List Pending} (h : doc.Leads v id) (place : String)
    (hsub : ∀ p ∈ doc.mappings place v, p ∈ pending) (hfault : ∀ f, .fault f ∉ pending) :
    ∃ at', .node id at' ∈ pending := by
  obtain ⟨at', hat⟩ := h.mem_mappingsWithin doc.nodeIds place fun f hf => hfault f (hsub _ hf)
  exact ⟨at', hsub _ hat⟩

theorem mem_entryMappings {p : Pending} {place : String} {entries : List Entry} {e : Entry}
    (he : e ∈ entries) (hp : p ∈ doc.mappings (place ++ doc.display e.1) e.2) :
    p ∈ doc.entryMappings place entries :=
  List.mem_flatMap.mpr ⟨e, he, hp⟩

end Mappings

end RouteCatalog.Document
