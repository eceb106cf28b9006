import RouteCatalog.Proofs.ReadTypes
import RouteCatalog.Proofs.RouteTree

/-! How deep types are nested. A type that is not met again inside itself has parts, parts of parts
and so on only down to some height. Merging properties does not add to it: the intersections that
are made stand where the merged declarations stood. -/

namespace RouteCatalog

namespace Property

/-- A merged property is a declaration, or its type is the intersection of several. -/
theorem mem_merge_cases {ps : List Property} {p : Property} (hp : p ∈ merge ps) :
    p ∈ ps ∨ ∃ qs, qs ≠ [] ∧ (∀ q ∈ qs, q ∈ ps) ∧ p.type = .merged (qs.map type) := by
  obtain ⟨n, hn, rfl⟩ := List.mem_map.mp hp
  obtain ⟨q, hq, hname⟩ := List.mem_map.mp (List.mem_eraseDups.mp hn)
  have hne : ps.filter (·.name == n) ≠ [] :=
    List.ne_nil_of_mem (List.mem_filter.mpr ⟨hq, by simpa using hname⟩)
  have hmem : ∀ q ∈ ps.filter (·.name == n), q ∈ ps := fun q => List.mem_of_mem_filter
  generalize ps.filter (·.name == n) = qs at hne hmem
  unfold combine
  split
  · exact .inl (hmem _ (List.mem_singleton_self _))
  · exact .inr ⟨qs, hne, hmem, rfl⟩

end Property

namespace Graph

def EndsWithin (next : Handle → Handle → Prop) : Nat → Handle → Prop
  | 0, h => ∀ e, ¬ next h e
  | n + 1, h => ∀ e, next h e → EndsWithin next n e

section Heights

variable {next : Handle → Handle → Prop} {n k : Nat} {h e : Handle}

theorem endsWithin_iff :
    EndsWithin next n h ↔ ∀ e, next h e → ∃ k, n = k + 1 ∧ EndsWithin next k e := by
  cases n with
  | zero =>
    constructor
    · intro hh e he
      exact (hh e he).elim
    · intro hh e he
      obtain ⟨k, hk, -⟩ := hh e he
      omega
  | succ n =>
    constructor
    · intro hh e he
      exact ⟨n, rfl, hh e he⟩
    · intro hh e he
      obtain ⟨k, hk, hends⟩ := hh e he
      obtain rfl : n = k := by omega
      exact hends

theorem EndsWithin.mono (hh : EndsWithin next n h) (hle : n ≤ k) : EndsWithin next k h := by
  induction n generalizing h k with
  | zero =>
    rw [endsWithin_iff]
    intro e he
    exact (hh e he).elim
  | succ n ih =>
    rw [endsWithin_iff]
    intro e he
    refine ⟨k - 1, by omega, ih (hh e he) (by omega)⟩

theorem EndsWithin.of_reachable (hh : EndsWithin next n h)
    (he : Relation.ReflTransGen next h e) : EndsWithin next n e := by
  induction he with
  | refl => exact hh
  | tail _ hstep ih =>
    obtain ⟨k, rfl, hends⟩ := endsWithin_iff.mp ih _ hstep
    exact hends.mono (Nat.le_succ k)

theorem EndsWithin.not_transGen (hh : EndsWithin next n h) : ¬ Relation.TransGen next h h := by
  induction n using Nat.strong_induction_on with
  | _ n ih =>
    intro hcycle
    obtain ⟨e, he, hback⟩ := Relation.TransGen.head'_iff.mp hcycle
    obtain ⟨k, rfl, hk⟩ := endsWithin_iff.mp hh e he
    exact ih k (by omega) (hk.of_reachable hback) hcycle

theorem exists_bound (types : List Handle)
    (htypes : ∀ e ∈ types, next h e → ∃ n, EndsWithin next n e) :
    ∃ n, ∀ e ∈ types, next h e → EndsWithin next n e := by
  induction types with
  | nil => exact ⟨0, by simp⟩
  | cons first types ih =>
    obtain ⟨hfirst, hrest⟩ := List.forall_mem_cons.mp htypes
    obtain ⟨n, hn⟩ := ih hrest
    by_cases hnext : next h first
    · obtain ⟨k, hk⟩ := hfirst hnext
      refine ⟨max n k, List.forall_mem_cons.mpr ⟨fun _ => hk.mono (by omega), ?_⟩⟩
      intro e he hne
      exact (hn e he hne).mono (by omega)
    · exact ⟨n, List.forall_mem_cons.mpr ⟨fun hyes => (hnext hyes).elim, hn⟩⟩

end Heights

variable {g : Graph} {n : Nat} {h e t : Handle} {ms : List Handle} {free : List NodeId} {id : NodeId}

section Parts

theorem not_hasPart
    (hfields : ∀ field, field ≠ "kind" → field ≠ "value" → g.field? h field = none)
    (hmerged : ∀ ms, h ≠ .merged ms) : ¬ g.HasPart h e := by
  have hseveral {field : String} (hkind : field ≠ "kind") (hvalue : field ≠ "value") :
      g.several h field = .ok [] := by
    rw [several, hfields field hkind hvalue]
  intro he
  cases he with
  | element he => simp [element, single, hfields] at he
  | index he => simp [numberIndex, single, hfields] at he
  | inTuple hes he =>
    rw [elements, hseveral (by decide) (by decide)] at hes
    cases hes
    cases he
  | member hes he =>
    rcases members_cases hes with rfl | hes
    · exact hmerged _ rfl
    · rw [hseveral (by decide) (by decide)] at hes
      cases hes
      cases he
  | argument hes he =>
    rw [hseveral (by decide) (by decide)] at hes
    cases hes
    cases he
  | property hps hp =>
    have hempty : g.ownProperties h = .ok [] := by
      rw [ownProperties, hfields _ (by decide) (by decide)]
      rfl
    rw [hempty] at hps
    cases hps
    cases hp

/-- Only merged types and mappings of the document have parts. -/
theorem HasPart.cases_node (he : g.HasPart h e) :
    (∃ ms, h = .merged ms ∧ e ∈ ms) ∨ ∃ id ∈ g.doc.nodeIds, h.node? = some id := by
  cases h with
  | merged ms => exact .inl ⟨ms, rfl, hasPart_merged he⟩
  | leaf text =>
    exact (not_hasPart (fun _ => field?_of_text rfl) (by simp) he).elim
  | anonymous id =>
    refine .inr ⟨id, ?_, rfl⟩
    by_contra hmem
    refine not_hasPart (fun field _ _ => ?_) (by simp) he
    simp [field?, entries, entriesAt_eq_nil hmem, Entries.get?]
  | declared name backing =>
    cases backing with
    | literal text =>
      exact (not_hasPart (fun _ => field?_of_text rfl) (by simp) he).elim
    | node id =>
      refine .inr ⟨id, ?_, rfl⟩
      by_contra hmem
      refine not_hasPart (fun field _ _ => ?_) (by simp) he
      simp [field?, entries, entriesAt_eq_nil hmem, Entries.get?]

theorem HasPart.of_node? (hh : h.node? = some id) (ht : t.node? = some id)
    (he : g.HasPart h e) : g.HasPart t e := by
  have hfield (field : String) : g.field? h field = g.field? t field := by
    apply field?_congr
    rw [entries_of_node? hh, entries_of_node? ht]
  have hsingle (field : String) : g.single h field = g.single t field := by
    rw [single, single, hfield]
  have hseveral (field : String) : g.several h field = g.several t field := by
    rw [several, several, hfield]
  cases he with
  | element he => exact .element ((hsingle _).symm.trans he)
  | index he => exact .index ((hsingle _).symm.trans he)
  | inTuple hes he => exact .inTuple ((hseveral _).symm.trans hes) he
  | member hes he => exact .member ((members_of_node? ht hh).trans hes) he
  | argument hes he => exact .argument ((hseveral _).symm.trans hes) he
  | property hps hp =>
    refine .property ?_ hp
    rw [ownProperties, ← hfield]
    exact hps

def MeetsItself (g : Graph) (id : NodeId) : Prop :=
  ∃ t, Relation.TransGen g.HasPart (.anonymous id) t ∧ t.node? = some id

/-- No node of the type or inside it is met again inside itself. -/
def IsAcyclicFrom (g : Graph) (h : Handle) : Prop :=
  ∀ t id, Relation.ReflTransGen g.HasPart h t → t.node? = some id → ¬ g.MeetsItself id

theorem IsAcyclicFrom.part (hh : g.IsAcyclicFrom h) (he : g.HasPart h e) : g.IsAcyclicFrom e :=
  fun t id ht => hh t id (.head he ht)

/-- Only these nodes have parts inside a type. -/
def IsBuiltFrom (g : Graph) (free : List NodeId) (h : Handle) : Prop :=
  ∀ t, Relation.ReflTransGen g.HasPart h t → ∀ e, g.HasPart t e → ∀ id ∈ t.node?, id ∈ free

theorem isBuiltFrom_nodeIds : g.IsBuiltFrom g.doc.nodeIds h := by
  intro t _ e he id hid
  rcases he.cases_node with ⟨ms, rfl, -⟩ | ⟨id', hmem, hid'⟩
  · cases hid
  · rw [hid'] at hid
    cases hid
    exact hmem

theorem IsBuiltFrom.part (hh : g.IsBuiltFrom free h) (he : g.HasPart h e) :
    g.IsBuiltFrom free e := fun t ht => hh t (.head he ht)

theorem IsBuiltFrom.erase (hh : g.IsBuiltFrom free h) (he : g.HasPart h e)
    (hnode : h.node? = some id) (hacyclic : ¬ g.MeetsItself id) :
    g.IsBuiltFrom (free.erase id) e := by
  intro t ht e' he' id' hid'
  refine (List.mem_erase_of_ne ?_).mpr (hh.part he t ht e' he' id' hid')
  rintro rfl
  exact hacyclic ⟨t, .head' (he.of_node? hnode rfl) ht, hid'⟩

theorem exists_endsWithin_of_parts (hparts : ∀ e, g.HasPart h e → ∃ n, EndsWithin g.HasPart n e) :
    ∃ n, EndsWithin g.HasPart n h := by
  obtain ⟨n, hn⟩ := exists_bound (h := h) (g.partsOf h) fun e _ => hparts e
  exact ⟨n + 1, fun e he => hn e (mem_partsOf he) he⟩

/-- A type that is not met again inside itself has a height. Each node that is passed is one less
to come, and a merged type consists of smaller ones. -/
theorem IsBuiltFrom.exists_endsWithin (free : List NodeId) (h : Handle)
    (hacyclic : g.IsAcyclicFrom h) (hbuilt : g.IsBuiltFrom free h) :
    ∃ n, EndsWithin g.HasPart n h := by
  apply exists_endsWithin_of_parts
  intro e he
  rcases he.cases_node with ⟨ms, hmerged, hmem⟩ | ⟨id, -, hnode⟩
  · have hsmaller : sizeOf e < sizeOf h := by
      have := List.sizeOf_lt_of_mem hmem
      rw [hmerged, Handle.merged.sizeOf_spec]
      omega
    exact exists_endsWithin free e (hacyclic.part he) (hbuilt.part he)
  · have hfree : id ∈ free := hbuilt h .refl e he id hnode
    have hself : ¬ g.MeetsItself id := hacyclic h id .refl hnode
    have hfewer : (free.erase id).length < free.length := by
      have := List.length_pos_of_mem hfree
      rw [List.length_erase_of_mem hfree]
      omega
    exact exists_endsWithin (free.erase id) e (hacyclic.part he) (hbuilt.erase he hnode hself)
termination_by (free.length, sizeOf h)
decreasing_by
  · exact .right _ hsmaller
  · exact .left _ _ hfewer

theorem isAcyclicFrom_iff : g.IsAcyclicFrom h ↔ ∃ n, EndsWithin g.HasPart n h := by
  constructor
  · intro hh
    exact isBuiltFrom_nodeIds.exists_endsWithin _ _ hh
  · rintro ⟨n, hn⟩ t id ht hid ⟨u, hcycle, hu⟩
    -- The type below on the same node has the same parts and so is met inside itself.
    obtain ⟨e, he, heu⟩ := Relation.TransGen.head'_iff.mp hcycle
    have hbelow := (hn.of_reachable ht).of_reachable (.head (he.of_node? rfl hid) heu)
    exact hbelow.not_transGen (.head' (he.of_node? rfl hu) heu)

theorem endsWithin_merged (hms : ∀ m ∈ ms, EndsWithin g.HasPart n m) :
    EndsWithin g.HasPart (n + 1) (.merged ms) :=
  fun e he => hms e (hasPart_merged he)

/-- The types of properties lie deeper than the type that has them. Below an intersection are its
members and below these the declarations; a merged type stands above the declarations and so no
higher than the members. -/
theorem type_endsWithin {ps : List Property} (hps : g.propertiesWithin free h = .ok ps)
    (hh : EndsWithin g.HasPart n h) :
    ∀ p ∈ ps, ∃ k, n = k + 1 ∧ EndsWithin g.HasPart k p.type := by
  refine propertiesWithin_induction (motive := fun h ps => ∀ n, EndsWithin g.HasPart n h →
    ∀ p ∈ ps, ∃ k, n = k + 1 ∧ EndsWithin g.HasPart k p.type) ?_ ?_ ?_ hps n hh
  · intro h ps _ hps n hh p hp
    exact endsWithin_iff.mp hh p.type (.property hps hp)
  · intro h ms free all _ hms hall ih n hh p hp
    have hdeclared : ∀ q ∈ all.flatten, ∃ j, n = j + 2 ∧ EndsWithin g.HasPart j q.type := by
      intro q hq
      obtain ⟨qs, hqs, hmem⟩ := List.mem_flatten.mp hq
      obtain ⟨m, hm, hmqs⟩ := exists_of_mem_mapM hall hqs
      obtain ⟨k, rfl, hk⟩ := endsWithin_iff.mp hh m (.member hms hm)
      obtain ⟨j, rfl, hj⟩ := ih m hm qs hmqs k hk q hmem
      exact ⟨j, rfl, hj⟩
    rcases Property.mem_merge_cases hp with hmem | ⟨qs, hne, hmem, htype⟩
    · obtain ⟨j, rfl, hj⟩ := hdeclared p hmem
      exact ⟨j + 1, rfl, hj.mono (Nat.le_succ j)⟩
    · obtain ⟨q, hq⟩ := List.exists_mem_of_ne_nil qs hne
      obtain ⟨j, rfl, -⟩ := hdeclared q (hmem q hq)
      refine ⟨j + 1, rfl, ?_⟩
      rw [htype]
      apply endsWithin_merged
      intro m hm
      obtain ⟨q', hq', rfl⟩ := List.mem_map.mp hm
      obtain ⟨j', heq, hj'⟩ := hdeclared q' (hmem q' hq')
      exact hj'.mono (by omega)
  · intro h _ _ n _ p hp
    cases hp

end Parts

end Graph

end RouteCatalog
