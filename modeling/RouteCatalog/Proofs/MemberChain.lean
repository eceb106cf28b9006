import RouteCatalog.Proofs.ReadTypes
import RouteCatalog.Proofs.RouteTree

/-! Intersections whose members are intersections. A handle has properties exactly if no chain of
members goes on for ever, which is if no intersection is met among its own members. -/

namespace RouteCatalog.Graph

variable {g : Graph} {h : Handle} {id : NodeId}

def HasMember (g : Graph) (h m : Handle) : Prop :=
  g.kind? h = some .intersection ∧ ∃ ms, g.members h = .ok ms ∧ m ∈ ms

/-- An intersection is met again among its members, or theirs. -/
def ContainsItself (g : Graph) (id : NodeId) : Prop :=
  ∃ t, Relation.TransGen g.HasMember (.anonymous id) t ∧ t.node? = some id

/-- Among the members of a type, or theirs, an intersection is met that contains itself. -/
def NeverEnds (g : Graph) (h : Handle) : Prop :=
  ∃ t id, Relation.ReflTransGen g.HasMember h t ∧ t.node? = some id ∧ g.ContainsItself id

theorem NeverEnds.of_member {m : Handle} (hm : g.HasMember h m) (h' : g.NeverEnds m) :
    g.NeverEnds h := by
  obtain ⟨t, id, hmt, hself⟩ := h'
  exact ⟨t, id, .head hm hmt, hself⟩

theorem HasMember.of_node? {t m : Handle} (hh : h.node? = some id) (ht : t.node? = some id)
    (hm : g.HasMember h m) : g.HasMember t m := by
  obtain ⟨hkind, ms, hms, hmem⟩ := hm
  refine ⟨?_, ms, ?_, hmem⟩
  · rw [kind?_congr (entries_of_node? ht), ← kind?_congr (entries_of_node? hh)]
    exact hkind
  · rw [members_of_node? ht hh]
    exact hms

/-- No intersection among the members is being merged already. -/
def IsUnmet (g : Graph) (free : List NodeId) (h : Handle) : Prop :=
  ∀ t, Relation.ReflTransGen g.HasMember h t → g.kind? t = some .intersection →
    ∀ id ∈ t.node?, id ∈ free

theorem IsUnmet.member {free : List NodeId} {m : Handle} (hunmet : g.IsUnmet free h)
    (hm : g.HasMember h m) : g.IsUnmet free m :=
  fun t ht => hunmet t (.head hm ht)

theorem IsUnmet.erase {free : List NodeId} {m : Handle} (hunmet : g.IsUnmet free h)
    (hm : g.HasMember h m) (hnode : h.node? = some id) (hends : ¬ g.ContainsItself id) :
    g.IsUnmet (free.erase id) m := by
  intro t ht hkind id' hid'
  refine (List.mem_erase_of_ne ?_).mpr (hunmet.member hm t ht hkind id' hid')
  rintro rfl
  exact hends ⟨t, .head' (hm.of_node? hnode rfl) ht, hid'⟩

theorem isUnmet_nodeIds : g.IsUnmet g.doc.nodeIds h :=
  fun _ _ hkind _ hid => mem_nodeIds_of_kind hkind (by decide) hid

/-- Merging fails only without end, and from the outside only if an intersection that contains
itself is met. -/
theorem failsOnly_propertiesWithin {S : Handle → Prop} (hask : ∀ h, S h → g.IsAskable h)
    (hmember : ∀ h m, S h → g.HasMember h m → S m) (free : List NodeId) (h : Handle) (hh : S h) :
    FailsOnly (g.propertiesWithin free h)
      fun e => e = .endless ∧ (g.IsUnmet free h → g.NeverEnds h) := by
  induction free, h using propertiesWithin.induct (g := g) with
  | case1 free h hkind =>
    obtain ⟨ps, hps⟩ := (hask h hh).properties hkind
    rw [properties, propertiesWithin_of_object hkind] at hps
    rw [propertiesWithin_of_object hkind, hps]
    exact .ok ps
  | case2 free ms hkind ih =>
    rw [propertiesWithin_merged]
    refine (FailsOnly.mapM fun m hm => ?_).map mergeAll
    have hm' : g.HasMember (.merged ms) m := ⟨hkind, ms, rfl, hm⟩
    refine (ih m hm (hmember _ m hh hm')).mono ?_
    rintro e ⟨he, hends⟩
    exact ⟨he, fun hunmet => (hends (hunmet.member hm')).of_member hm'⟩
  | case3 free h id hnot hid hkind hnode ih =>
    -- Below its own members the node is no longer free, and it comes again only if it contains
    -- itself.
    obtain ⟨ms, hms⟩ := (hask h hh).members
    rw [propertiesWithin_of_node hkind hnode hid, hms]
    refine (FailsOnly.mapM fun m hm => ?_).map mergeAll
    have hm' : g.HasMember h m := ⟨hkind, ms, hms, hm⟩
    refine (ih m (hmember h m hh hm')).mono ?_
    rintro e ⟨he, hends⟩
    refine ⟨he, fun hunmet => ?_⟩
    by_cases hself : g.ContainsItself id
    · exact ⟨h, id, .refl, hnode, hself⟩
    · exact (hends (hunmet.erase hm' hnode hself)).of_member hm'
  | case4 free h id hnot hid hkind hnode =>
    rw [propertiesWithin_of_not_mem hkind hnode hid]
    exact .error ⟨rfl, fun hunmet => (hid (hunmet h .refl hkind id hnode)).elim⟩
  | case5 free h hkind hnone hnot =>
    rcases exists_node?_of_kind hkind (by decide) with ⟨ms, rfl⟩ | ⟨id, -, hid⟩
    · exact (hnot ms rfl).elim
    · rw [hnone] at hid
      cases hid
  | case6 free h hobject hintersection =>
    rw [propertiesWithin_of_other hobject hintersection]
    exact .ok []

/-- Properties that are merged come from members that end. -/
theorem acc_of_propertiesWithin {ps : List Property} (free : List NodeId) (h : Handle)
    (hps : g.propertiesWithin free h = .ok ps) : Acc (fun m h => g.HasMember h m) h := by
  refine propertiesWithin_induction (motive := fun h _ => Acc (fun m h => g.HasMember h m) h)
    ?_ ?_ ?_ hps
  · intro h _ hkind _
    refine ⟨h, fun m hm => ?_⟩
    rw [hm.1] at hkind
    cases hkind
  · intro h ms free all _ hms hall ih
    refine ⟨h, fun m hm => ?_⟩
    obtain ⟨-, ms', hms', hmem⟩ := hm
    rw [hms] at hms'
    cases hms'
    obtain ⟨qs, -, hqs⟩ := exists_mem_of_mapM hall hmem
    exact ih m hmem qs hqs
  · intro h _ hkind
    exact ⟨h, fun m hm => (hkind hm.1).elim⟩

/-- An intersection that no intersection is a member of ends there. -/
theorem not_containsItself_of_flat
    (h : ∀ m, g.HasMember (.anonymous id) m → g.kind? m ≠ some .intersection) :
    ¬ g.ContainsItself id := by
  rintro ⟨t, hcycle, ht⟩
  obtain ⟨m, hm, hmt⟩ := Relation.TransGen.head'_iff.mp hcycle
  rcases hmt.cases_head with rfl | ⟨m', hm', -⟩
  · exact h m hm ((kind?_congr (entries_of_node? ht)).trans hm.1)
  · exact h m hm hm'.1

theorem not_containsItself (hacc : Acc (fun m h => g.HasMember h m) h) (hnode : h.node? = some id) :
    ¬ g.ContainsItself id := by
  rintro ⟨t, hcycle, ht⟩
  obtain ⟨m, hm, hmt⟩ := Relation.TransGen.head'_iff.mp hcycle
  -- The cycle returns to the same node, so that the member `m` is met again below itself.
  have hself : Relation.TransGen g.HasMember m m := .tail' hmt (hm.of_node? rfl ht)
  have hbelow := hacc.inv (hm.of_node? rfl hnode)
  exact not_self_of_acc hbelow.transGen (Relation.transGen_swap.mp hself)

theorem not_neverEnds {ps : List Property} (hps : g.properties h = .ok ps) : ¬ g.NeverEnds h := by
  have hacc : ∀ t, Relation.ReflTransGen g.HasMember h t → Acc (fun m h => g.HasMember h m) t := by
    intro t ht
    induction ht with
    | refl => exact acc_of_propertiesWithin _ h hps
    | tail _ hm ih => exact ih.inv hm
  rintro ⟨t, id, ht, hnode, hself⟩
  exact not_containsItself (hacc t ht) hnode hself

/-- A type has properties exactly if its members come to an end. -/
theorem exists_properties_iff {S : Handle → Prop} (hask : ∀ h, S h → g.IsAskable h)
    (hmember : ∀ h m, S h → g.HasMember h m → S m) (hh : S h) :
    (∃ ps, g.properties h = .ok ps) ↔ ¬ g.NeverEnds h := by
  constructor
  · rintro ⟨ps, hps⟩
    exact not_neverEnds hps
  · intro hends
    have hfails := failsOnly_propertiesWithin hask hmember g.doc.nodeIds h hh
    cases hps : g.properties h with
    | ok ps => exact ⟨ps, rfl⟩
    | error e => exact (hends ((hfails e hps).2 isUnmet_nodeIds)).elim

end RouteCatalog.Graph
