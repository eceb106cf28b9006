import RouteCatalog.Proofs.RecordOrigin
import RouteCatalog.Proofs.RouteTree

/-! The nodes on a descent. A walk passes no handle twice; but a node of the document has a handle
of its own and one for every name that leads to it, so that the walk may pass the node once by each
of them. A type that is merged from several declarations is no node of the document. -/

namespace RouteCatalog

def Route.Site.nodes (root : Handle) (s : Route.Site Handle) : List NodeId :=
  (s.passed root).filterMap Handle.node?

namespace Graph

open Route

variable {g : Graph} {n : Normalizer} {h : Handle}

/-- Whether a name leads to a node, at once or through other names. -/
def namesNode (g : Graph) (id : NodeId) (name : String) : Bool :=
  match g.resolve (.text name) with
  | .ok b => b = .node id
  | .error _ => false

/-- The handles by which a node can be reached: its own and those of the names that lead to it. -/
def waysTo (g : Graph) (id : NodeId) : List Identity :=
  .node id :: (g.declaredNames.filter (g.namesNode id)).map .declaration

section Ways

variable {id : NodeId} {i : Identity}

theorem exists_identity_of_node (hid : h.node? = some id) : ∃ i, h.identity? = some i := by
  cases h with
  | declared name b => exact ⟨.declaration name, rfl⟩
  | anonymous id => exact ⟨.node id, rfl⟩
  | leaf text => cases hid
  | merged members => cases hid

theorem namesNode_of_isHandle {name : String} (hh : g.IsHandle (.declared name (.node id))) :
    name ∈ g.declaredNames ∧ g.namesNode id name = true := by
  have hresolve : g.resolve (.text name) = .ok (.node id) := by
    cases hh with
    | given hspec => exact resolve_of_handle hspec
  constructor
  · cases hspec : g.declaration? name with
    | some spec => exact mem_declaredNames hspec
    | none =>
      rw [resolve, resolveWithin, hspec] at hresolve
      cases hresolve
  · simp [namesNode, hresolve]

theorem IsHandle.identity_mem_waysTo (hh : g.IsHandle h) (hid : h.node? = some id)
    (hi : h.identity? = some i) : i ∈ g.waysTo id := by
  cases h with
  | leaf text => cases hid
  | merged members => cases hid
  | anonymous id' =>
    cases hid
    cases hi
    exact List.mem_cons_self
  | declared name b =>
    cases hi
    cases b with
    | literal text => cases hid
    | node id' =>
      cases hid
      obtain ⟨hname, hleads⟩ := namesNode_of_isHandle hh
      apply List.mem_cons_of_mem
      exact List.mem_map_of_mem (List.mem_filter.mpr ⟨hname, hleads⟩)

end Ways

section Passed

variable {s : Site Handle} {start : String}

theorem isHandle_of_descent {steps : List (Step Handle)} {last : Handle}
    (hd : Descent (g.handles n) h steps last) (hh : g.IsHandle h) :
    ∀ t ∈ h :: steps.map Step.handle, g.IsHandle t := by
  induction hd with
  | here h => simpa using hh
  | down hok hget _ _ ih =>
    obtain ⟨ps, hps, p, hp, -, hptype⟩ := exists_property_of_getElem? hok hget
    have hbelow := hh.of_properties hps p hp
    rw [hptype] at hbelow
    exact List.forall_mem_cons.mpr ⟨hh, ih hbelow⟩

theorem isHandle_of_passed (hs : IsSite (g.handles n) h start s) (hh : g.IsHandle h) :
    ∀ t ∈ s.passed h, g.IsHandle t := by
  obtain ⟨last, properties, hd, -, -⟩ := hs.declared
  exact isHandle_of_descent hd hh

/-- A node is passed at most once by each of the ways to it. -/
theorem count_nodes_le (hs : IsSite (g.handles n) h start s) (hh : g.IsHandle h) (id : NodeId) :
    (s.nodes h).count id ≤ (g.waysTo id).length := by
  have hhandles := isHandle_of_passed hs hh
  have hcount : (s.nodes h).count id =
      (((s.passed h).filter (·.node? == some id)).filterMap Handle.identity?).length := by
    rw [Site.nodes, List.count_filterMap, List.countP_eq_length_filter]
    symm
    apply List.filterMap_length_eq_length.mpr
    intro t ht
    have hid := (List.mem_filter.mp ht).2
    obtain ⟨i, hi⟩ := exists_identity_of_node (beq_iff_eq.mp hid)
    simp [hi]
  have hdistinct : (((s.passed h).filter (·.node? == some id)).filterMap
      Handle.identity?).Nodup :=
    hs.distinct.sublist (List.filter_sublist.filterMap _)
  -- The handles on the node have different identities, and each of these is a way to it.
  rw [hcount]
  refine (hdistinct.subperm fun i hi => ?_).length_le
  obtain ⟨t, ht, hi⟩ := List.mem_filterMap.mp hi
  obtain ⟨ht, hid⟩ := List.mem_filter.mp ht
  exact (hhandles t ht).identity_mem_waysTo (beq_iff_eq.mp hid) hi

theorem nodup_nodes_iff (hs : IsSite (g.handles n) h start s) (hh : g.IsHandle h) :
    (s.nodes h).Nodup ↔ ∀ a ∈ s.passed h, ∀ b ∈ s.passed h, ∀ id,
      a.node? = some id → b.node? = some id → a = b := by
  have hhandles := isHandle_of_passed hs hh
  unfold Site.nodes List.Nodup
  rw [List.pairwise_filterMap]
  constructor
  · intro hnodes a ha b hb id hida hidb
    by_contra hne
    have hsymm : Std.Symm fun a b : Handle =>
        ∀ x, a.node? = some x → ∀ y, b.node? = some y → x ≠ y :=
      ⟨fun a b hab x hx y hy heq => hab y hy x hx heq.symm⟩
    exact hnodes.forall ha hb hne id hida id hidb rfl
  · intro hsame
    have hdistinct := hs.distinct
    unfold List.Nodup at hdistinct
    rw [List.pairwise_filterMap] at hdistinct
    refine hdistinct.imp_of_mem ?_
    rintro a b ha hb hab id hida _ hidb rfl
    -- With the same node both are one handle, so that its identity would be passed twice.
    have heq := hsame a ha b hb id hida hidb
    obtain ⟨i, hi⟩ := exists_identity_of_node hida
    exact hab i hi i (heq ▸ hi) rfl

end Passed

/-- The records of a walk are those of its sites, and the descent of each passes a node at most once
by every way to it: by the node itself if it stands in the place, and by each name that leads to it.
It passes no node twice exactly if it meets each by one way only. -/
theorem node_is_passed_once_each_way {start : String} {records : List Endpoint} (hh : g.IsHandle h)
    (hwalk : g.walk n h start = .ok records) :
    ∃ sites : List (Site Handle), (∀ s, s ∈ sites ↔ IsSite (g.handles n) h start s) ∧
      List.Forall₂ (fun s r => recordOf (g.handles n) start s = .ok r) sites records ∧
      ∀ s ∈ sites, (∀ id, (s.nodes h).count id ≤ (g.waysTo id).length) ∧
        ((s.nodes h).Nodup ↔ ∀ a ∈ s.passed h, ∀ b ∈ s.passed h, ∀ id,
          a.node? = some id → b.node? = some id → a = b) := by
  obtain ⟨sites, hsites, hrecords⟩ := exists_sites_of_walk hwalk
  refine ⟨sites, hsites, hrecords, fun s hs => ?_⟩
  have hsite := (hsites s).mp hs
  exact ⟨count_nodes_le hsite hh, nodup_nodes_iff hsite hh⟩

/-- A tree whose branches are declared as another name for the tree. -/
def branching : Graph where
  doc := ⟨#[
    .mapping [(.text "kind", .text "object"), (.text "properties", .node 1)],
    .mapping [(.text "child", .text "Branch"), (.text "get", .node 2)],
    .mapping [(.text "kind", .text "object")],
    .mapping [(.text "kind", .text "object"), (.text "properties", .node 4)],
    .mapping [(.text "api", .text "Tree")]]⟩
  source := "<memory>"
  files := []
  declarations := [(.text "Tree", .node 0), (.text "Branch", .text "Tree")]

theorem properties_branching :
    (branching.handles {}).properties (.anonymous 3) =
        .ok [("api", .declared "Tree" (.node 0))] ∧
      (∀ name, (branching.handles {}).properties (.declared name (.node 0)) =
        .ok [("child", .declared "Branch" (.node 0)), ("get", .anonymous 2)]) ∧
      (branching.handles {}).properties (.anonymous 2) = .ok [] := by
  refine ⟨?_, fun name => ?_, ?_⟩
  · exact properties_handles_of_object [⟨"api", .declared "Tree" (.node 0), false⟩]
      (by decide) (by cbv)
  · exact properties_handles_of_object
      [⟨"child", .declared "Branch" (.node 0), false⟩, ⟨"get", .anonymous 2, false⟩]
      (by rfl) (by cbv)
  · exact properties_handles_of_object [] (by decide) rfl

theorem walk_branching : branching.walk {} (.anonymous 3) "" =
    .ok [⟨"/api/child", .get, none, none, none, "\x7b\x7d"⟩,
      ⟨"/api", .get, none, none, none, "\x7b\x7d"⟩] := by
  obtain ⟨hroot, htree, hget⟩ := properties_branching
  have hrole : role "api" = .segment ∧ role "child" = .segment ∧ role "get" = .endpoint .get := by
    decide
  unfold Graph.walk HandleSystem.walk
  rw [walkWithin_of_properties rfl hroot]
  simp only [List.mapM_cons, List.mapM_nil, HandleSystem.endpointsOf, hrole]
  rw [maxAncestors, walkWithin_of_properties rfl (htree "Tree")]
  simp only [List.mapM_cons, List.mapM_nil, HandleSystem.endpointsOf, hrole]
  rw [walkWithin_of_properties rfl (htree "Branch")]
  simp only [List.mapM_cons, List.mapM_nil, HandleSystem.endpointsOf, hrole,
    HandleSystem.endpoint, hget]
  rfl

def branchSite : Site Handle where
  steps := [⟨0, "api", .declared "Tree" (.node 0)⟩, ⟨0, "child", .declared "Branch" (.node 0)⟩]
  position := 1
  method := .get
  descriptor := .anonymous 2

theorem isSite_branchSite : IsSite (branching.handles {}) (.anonymous 3) "" branchSite := by
  obtain ⟨hroot, htree, -⟩ := properties_branching
  have hdescent : Descent (branching.handles {}) (.anonymous 3) branchSite.steps
      (.declared "Branch" (.node 0)) := by
    apply Descent.down hroot rfl (leadsDown_iff.mpr (.inr (by decide)))
    apply Descent.down (htree "Tree") rfl (leadsDown_iff.mpr (.inr (by decide)))
    exact .here _
  exact ⟨⟨_, _, hdescent, htree "Branch", rfl⟩, by decide, by decide, by decide⟩

/-- Under its other name the tree is walked a second time. -/
theorem tree_is_passed_as_branch :
    branching.IsHandle (.anonymous 3) ∧
      branching.walk {} (.anonymous 3) "" =
        .ok [⟨"/api/child", .get, none, none, none, "\x7b\x7d"⟩,
          ⟨"/api", .get, none, none, none, "\x7b\x7d"⟩] ∧
      IsSite (branching.handles {}) (.anonymous 3) "" branchSite ∧
      branchSite.path "" = "/api/child" ∧ branchSite.nodes (.anonymous 3) = [3, 0, 0] ∧
      ∃ a ∈ branchSite.passed (.anonymous 3), ∃ b ∈ branchSite.passed (.anonymous 3), ∃ id,
        a.node? = some id ∧ b.node? = some id ∧ a ≠ b := by
  have hh : branching.IsHandle (.anonymous 3) := .given (show branching.handle (.node 3) = _ from rfl)
  obtain ⟨sites, hsites, -, hpassed⟩ := node_is_passed_once_each_way hh walk_branching
  obtain ⟨-, hnodup⟩ := hpassed branchSite ((hsites branchSite).mpr isSite_branchSite)
  refine ⟨hh, walk_branching, isSite_branchSite, by decide, rfl, ?_⟩
  have hrepeated : ¬ (branchSite.nodes (.anonymous 3)).Nodup := by decide
  rw [hnodup] at hrepeated
  simpa only [not_forall, exists_prop] using hrepeated

end Graph

end RouteCatalog
