import RouteCatalog.Proofs.Repetition
import RouteCatalog.Proofs.WellShaped

/-! The properties of a type: those that an object states, and for an intersection the merged ones
of its members. -/

namespace RouteCatalog

namespace Property

variable {ps : List Property}

/-- A merged property is a declaration, or the intersection of declarations of one name. -/
theorem of_mem_merge {P : Property → Prop}
    (hmerged : ∀ name (qs : List Property) optional, (∀ q ∈ qs, q.name = name ∧ P q) →
      P ⟨name, .merged (qs.map type), optional⟩)
    (hps : ∀ p ∈ ps, P p) : ∀ p ∈ merge ps, P p := by
  intro p hp
  obtain ⟨name, -, rfl⟩ := List.mem_map.mp hp
  have hfilter : ∀ q ∈ ps.filter (·.name == name), q.name = name ∧ P q := by
    intro q hq
    obtain ⟨hmem, hname⟩ := List.mem_filter.mp hq
    exact ⟨by simpa using hname, hps q hmem⟩
  unfold combine
  split
  · rename_i q heq
    exact (hfilter q (heq ▸ List.mem_singleton_self q)).2
  · exact hmerged _ _ _ hfilter

theorem type_of_mem_merge {P : Handle → Prop}
    (hmerged : ∀ ms, (∀ m ∈ ms, P m) → P (.merged ms)) (hps : ∀ p ∈ ps, P p.type) :
    ∀ p ∈ merge ps, P p.type := by
  refine of_mem_merge (P := fun p => P p.type) (fun _ qs _ hqs => hmerged _ fun m hm => ?_) hps
  obtain ⟨q, hq, rfl⟩ := List.mem_map.mp hm
  exact (hqs q hq).2

theorem name_combine {name : String} (hps : ∀ q ∈ ps, q.name = name) :
    (combine name ps).name = name := by
  unfold combine
  split
  · rename_i q
    exact hps q (List.mem_singleton_self q)
  · rfl

theorem name_of_mem_filter {name : String} {q : Property} (hq : q ∈ ps.filter (·.name == name)) :
    q.name = name := by
  simpa using (List.mem_filter.mp hq).2

theorem names_merge (ps : List Property) :
    (merge ps).map Property.name = (ps.map Property.name).eraseDups := by
  unfold merge
  rw [List.map_map]
  exact (List.map_congr_left fun name _ => name_combine fun q => name_of_mem_filter).trans
    (List.map_id' _)

def typeAt? (ps : List Property) (name : String) : Option Handle :=
  (ps.find? (·.name == name)).map type

end Property

/-- What types of one name come to: one stands for itself, several for their intersection. -/
def Handle.join : List Handle → Option Handle
  | [] => none
  | [h] => some h
  | hs => some (.merged hs)

namespace Property

variable {ps : List Property} {name : String}

theorem some_type_combine (hne : ps ≠ []) :
    some (combine name ps).type = Handle.join (ps.map type) := by
  match ps with
  | [] => exact (hne rfl).elim
  | [_] => rfl
  | _ :: _ :: _ => rfl

theorem typeAt?_merge :
    typeAt? (merge ps) name = Handle.join ((ps.filter (·.name == name)).map type) := by
  have hname : ((·.name == name) ∘ fun n => combine n (ps.filter (·.name == n))) =
      (· == name) := by
    funext n
    rw [Function.comp_apply, name_combine fun q => name_of_mem_filter]
  unfold typeAt? merge
  rw [List.find?_map, hname]
  cases hfind : (ps.map Property.name).eraseDups.find? (· == name) with
  | none =>
    have hnone : ps.filter (·.name == name) = [] := by
      refine List.filter_eq_nil_iff.mpr fun p hp => ?_
      refine List.find?_eq_none.mp hfind p.name ?_
      exact List.mem_eraseDups.mpr (List.mem_map_of_mem hp)
    rw [hnone]
    rfl
  | some n =>
    obtain rfl : n = name := by simpa using List.find?_some hfind
    obtain ⟨p, hp, hn⟩ := List.mem_map.mp (List.mem_eraseDups.mp (List.mem_of_find?_eq_some hfind))
    have hmem : p ∈ ps.filter (·.name == n) := List.mem_filter.mpr ⟨hp, by simpa using hn⟩
    exact some_type_combine (List.ne_nil_of_mem hmem)

/-- Where every name occurs once, the declarations of a name are the one that is found. -/
theorem filter_eq_find? (hnodup : (ps.map Property.name).Nodup) :
    ps.filter (·.name == name) = (ps.find? (·.name == name)).toList := by
  induction ps with
  | nil => rfl
  | cons p ps ih =>
    obtain ⟨hnot, hrest⟩ := List.nodup_cons.mp hnodup
    by_cases hp : (p.name == name) = true
    · have hnone : ps.filter (·.name == name) = [] := by
        refine List.filter_eq_nil_iff.mpr fun q hq heq => hnot ?_
        rw [eq_of_beq hp, ← eq_of_beq heq]
        exact List.mem_map_of_mem hq
      simp only [List.filter_cons, List.find?_cons, hp, hnone]
      rfl
    · simp only [List.filter_cons, List.find?_cons, hp, ih hrest]
      rfl

/-- Merging gives a name what the types come to that the members give it. -/
theorem typeAt?_merge_flatten {all : List (List Property)}
    (hnodup : ∀ ps ∈ all, (ps.map Property.name).Nodup) :
    typeAt? (merge all.flatten) name = Handle.join (all.filterMap (typeAt? · name)) := by
  rw [typeAt?_merge]
  congr 1
  induction all with
  | nil => rfl
  | cons ps all ih =>
    obtain ⟨hps, hall⟩ := List.forall_mem_cons.mp hnodup
    rw [List.flatten_cons, List.filter_append, List.map_append, ih hall, filter_eq_find? hps,
      List.filterMap_cons, typeAt?]
    cases ps.find? (·.name == name) with
    | none => rfl
    | some p => rfl

end Property

namespace Graph

variable {g : Graph} {h : Handle} {free : List NodeId}

def mergeAll (all : List (List Property)) : List Property := Property.merge all.flatten

theorem propertiesWithin_of_object (hkind : g.kind? h = some .object) :
    g.propertiesWithin free h = g.ownProperties h := by
  unfold propertiesWithin
  simp only [hkind]

theorem propertiesWithin_merged (ms : List Handle) :
    g.propertiesWithin free (.merged ms) = (ms.mapM (g.propertiesWithin free)).map mergeAll := by
  unfold propertiesWithin
  simp only [kind?_merged]
  rw [List.mapM_subtype (g := g.propertiesWithin free) (fun _ _ => rfl), List.unattach_attach]
  rfl

theorem propertiesWithin_of_node {id : NodeId} (hkind : g.kind? h = some .intersection)
    (hnode : h.node? = some id) (hmem : id ∈ free) :
    g.propertiesWithin free h = g.members h >>= fun ms =>
      (ms.mapM (g.propertiesWithin (free.erase id))).map mergeAll := by
  cases h with
  | leaf t => cases hnode
  | merged ms => cases hnode
  | anonymous id' =>
    unfold propertiesWithin
    simp only [hkind, hnode, hmem, dif_pos]
    rfl
  | declared name backing =>
    unfold propertiesWithin
    simp only [hkind, hnode, hmem, dif_pos]
    rfl

theorem propertiesWithin_of_not_mem {id : NodeId} (hkind : g.kind? h = some .intersection)
    (hnode : h.node? = some id) (hmem : id ∉ free) :
    g.propertiesWithin free h = .error .endless := by
  cases h with
  | leaf t => cases hnode
  | merged ms => cases hnode
  | anonymous id' =>
    unfold propertiesWithin
    simp only [hkind, hnode, hmem]
    rfl
  | declared name backing =>
    unfold propertiesWithin
    simp only [hkind, hnode, hmem]
    rfl

theorem propertiesWithin_of_other (hobject : g.kind? h ≠ some .object)
    (hintersection : g.kind? h ≠ some .intersection) : g.propertiesWithin free h = .ok [] := by
  unfold propertiesWithin
  cases hkind : g.kind? h with
  | none => rfl
  | some kind => cases kind <;> first | rfl | contradiction

/-! Only a mapping or a merged type can be anything but a primitive. -/

theorem mem_nodeIds {doc : Document} {id : NodeId} (h : (doc.mapping? (.node id)).isSome) :
    id ∈ doc.nodeIds := by
  by_contra hmem
  have hsize : doc.nodes.size ≤ id := by simpa [Document.nodeIds] using hmem
  have hnode : doc.node id = .list [] := by
    simp [Document.node, Array.getElem?_eq_none hsize]
  simp [Document.mapping?, hnode] at h

theorem kind?_of_no_entries (hentries : g.field? h "kind" = none) :
    g.kind? h = some .primitive := by
  simp only [kind?, statedKind, hentries]
  exact Kind.ofValue?_name .primitive

theorem kind?_of_text {t : String}
    (hentries : g.entries h = [(.text "kind", .text "primitive"), (.text "value", .text t)]) :
    g.kind? h = some .primitive := by
  simp only [kind?, statedKind, field?, hentries]
  exact Kind.ofValue?_name .primitive

theorem entriesAt_eq_nil {doc : Document} {id : NodeId} (h : id ∉ doc.nodeIds) :
    doc.entriesAt id = [] := by
  have hmapping : (doc.mapping? (.node id)).isSome = false := by
    simpa using mt mem_nodeIds h
  unfold Document.entriesAt Document.entries?
  unfold Document.mapping? at hmapping
  cases hn : doc.node id <;> simp [hn] at hmapping ⊢

theorem exists_node?_of_kind {kind : Kind} (hkind : g.kind? h = some kind)
    (hother : kind ≠ .primitive) :
    (∃ ms, h = .merged ms) ∨ ∃ id ∈ g.doc.nodeIds, h.node? = some id := by
  have hnot : g.kind? h ≠ some .primitive := by
    rw [hkind]
    simpa using hother
  have hnode (id : NodeId) (hentries : g.entries h = g.doc.entriesAt id) : id ∈ g.doc.nodeIds := by
    by_contra hmem
    refine hnot (kind?_of_no_entries ?_)
    simp [field?, hentries, entriesAt_eq_nil hmem, Entries.get?]
  cases h with
  | leaf t => exact (hnot (kind?_of_text rfl)).elim
  | merged ms => exact .inl ⟨ms, rfl⟩
  | anonymous id => exact .inr ⟨id, hnode id rfl, rfl⟩
  | declared name backing =>
    cases backing with
    | node id => exact .inr ⟨id, hnode id rfl, rfl⟩
    | literal t => exact (hnot (kind?_of_text rfl)).elim

theorem mem_nodeIds_of_kind {kind : Kind} {id : NodeId} (hkind : g.kind? h = some kind)
    (hother : kind ≠ .primitive) (hnode : h.node? = some id) : id ∈ g.doc.nodeIds := by
  rcases exists_node?_of_kind hkind hother with ⟨ms, rfl⟩ | ⟨id', hmem, hid'⟩
  · cases hnode
  · rw [hnode] at hid'
    cases hid'
    exact hmem

theorem properties_of_objects {ms : List Handle} (hkind : g.kind? h = some .intersection)
    (hms : g.members h = .ok ms) (hobjects : ∀ m ∈ ms, g.kind? m = some .object) :
    g.properties h = (ms.mapM g.properties).map mergeAll := by
  have hown (free : List NodeId) : ms.mapM (g.propertiesWithin free) = ms.mapM g.properties := by
    apply mapM_congr
    intro m hm
    rw [properties, propertiesWithin_of_object (hobjects m hm),
      propertiesWithin_of_object (hobjects m hm)]
  rw [properties]
  rcases exists_node?_of_kind hkind (by decide) with ⟨ms', rfl⟩ | ⟨id, hid, hnode⟩
  · cases hms
    rw [propertiesWithin_merged, hown]
  · rw [propertiesWithin_of_node hkind hnode hid, hms]
    exact congrArg (Except.map mergeAll) (hown _)

/-- A type that has properties is an object, whose own they are, or an intersection, whose members
have properties that are merged, or it has none. -/
theorem propertiesWithin_induction {motive : Handle → List Property → Prop}
    (hobject : ∀ h ps, g.kind? h = some .object → g.ownProperties h = .ok ps → motive h ps)
    (hintersection : ∀ h ms free all, g.kind? h = some .intersection → g.members h = .ok ms →
      ms.mapM (g.propertiesWithin free) = .ok all →
      (∀ m ∈ ms, ∀ qs, g.propertiesWithin free m = .ok qs → motive m qs) → motive h (mergeAll all))
    (hother : ∀ h, g.kind? h ≠ some .object → g.kind? h ≠ some .intersection → motive h [])
    {ps : List Property} (hps : g.propertiesWithin free h = .ok ps) : motive h ps := by
  induction free, h using propertiesWithin.induct (g := g) generalizing ps with
  | case1 free h hkind =>
    rw [propertiesWithin_of_object hkind] at hps
    exact hobject h ps hkind hps
  | case2 free ms hkind ih =>
    rw [propertiesWithin_merged] at hps
    obtain ⟨all, hall, rfl⟩ := map_eq_ok_iff.mp hps
    exact hintersection _ ms free all hkind rfl hall fun m hm qs hqs => ih m hm hqs
  | case3 free h id hnot hid hkind hnode ih =>
    rw [propertiesWithin_of_node hkind hnode hid] at hps
    obtain ⟨ms, hms, hps⟩ := bind_eq_ok_iff.mp hps
    obtain ⟨all, hall, rfl⟩ := map_eq_ok_iff.mp hps
    exact hintersection h ms _ all hkind hms hall fun m _ qs hqs => ih m hqs
  | case4 free h id hnot hid hkind hnode =>
    rw [propertiesWithin_of_not_mem hkind hnode hid] at hps
    cases hps
  | case5 free h hkind hnone hnot =>
    rcases exists_node?_of_kind hkind (by decide) with ⟨ms, rfl⟩ | ⟨id, -, hid⟩
    · exact (hnot ms rfl).elim
    · rw [hnone] at hid
      cases hid
  | case6 free h hnotObject hnotIntersection =>
    rw [propertiesWithin_of_other hnotObject hnotIntersection] at hps
    cases hps
    exact hother h hnotObject hnotIntersection

/-- What holds of the types that a type states and of its members, and passes from types to their
intersection, holds of the types of all its properties. -/
theorem type_of_mem_propertiesWithin {P : Handle → Prop}
    (hown : ∀ h ps, g.kind? h = some .object → g.ownProperties h = .ok ps → P h →
      ∀ p ∈ ps, P p.type)
    (hmembers : ∀ h ms, g.members h = .ok ms → P h → ∀ m ∈ ms, P m)
    (hmerged : ∀ ms, (∀ m ∈ ms, P m) → P (.merged ms)) {ps : List Property}
    (hps : g.propertiesWithin free h = .ok ps) (hh : P h) : ∀ p ∈ ps, P p.type := by
  refine propertiesWithin_induction (motive := fun h ps => P h → ∀ p ∈ ps, P p.type) hown ?_ ?_
    hps hh
  · intro h ms free all hkind hms hall ih hh
    refine Property.type_of_mem_merge hmerged fun p hp => ?_
    obtain ⟨qs, hqs, hp⟩ := List.mem_flatten.mp hp
    obtain ⟨m, hm, hq⟩ := exists_of_mem_mapM hall hqs
    exact ih m hm qs hq (hmembers h ms hms hh m hm) p hp
  · intro h _ _ _ p hp
    cases hp

theorem Throughout.of_properties {P : Handle → Prop} (hmerged : ∀ ms, P (.merged ms))
    {ps : List Property} (hps : g.propertiesWithin free h = .ok ps) (hs : g.Throughout P h) :
    ∀ p ∈ ps, g.Throughout P p.type :=
  type_of_mem_propertiesWithin (fun _ _ _ hps hs _ hp => hs.part (.property hps hp))
    (fun _ _ hms hs _ hm => hs.part (.member hms hm)) (fun ms => throughout_merged (hmerged ms))
    hps hs

theorem WellShapedFrom.of_properties {free : List NodeId} {ps : List Property}
    (hps : g.propertiesWithin free h = .ok ps) (hs : g.WellShapedFrom h) :
    ∀ p ∈ ps, g.WellShapedFrom p.type :=
  Throughout.of_properties (fun _ => isWellShaped_merged) hps hs

section Shaped

theorem IsWellShaped.isAskable (hacyclic : g.HasAcyclicAliases) (hshape : g.IsWellShaped h) :
    g.IsAskable h where
  kind := hshape.kind
  element := exists_single_eq_ok hacyclic "element"
  index := exists_single_eq_ok hacyclic "number_index"
  elements := exists_several_eq_ok hacyclic (hshape.exists_parts_eq_ok (by decide))
  members := exists_members_eq_ok hacyclic (hshape.exists_parts_eq_ok (by decide))
  symbol := exists_symbol_eq_ok hacyclic (fun _ => hshape.exists_parts_eq_ok (by decide))
    hshape.exists_name
  properties hkind := by
    obtain ⟨ps, hps⟩ := exists_ownProperties_eq_ok hacyclic hshape.exists_entries_eq_ok
    exact ⟨ps, (propertiesWithin_of_object hkind).trans hps⟩
  signatures _ := exists_callSignatures_eq_ok hshape

/-- What a well-shaped type answers is among its parts, or merged from them. -/
theorem WellShapedFrom.answers {e : Handle} (hs : g.WellShapedFrom h) (he : g.Answers h e) :
    g.WellShapedFrom e := by
  cases he with
  | element he => exact hs.part (.element he)
  | index he => exact hs.part (.index he)
  | inTuple hes he => exact hs.part (.inTuple hes he)
  | member hes he => exact hs.part (.member hes he)
  | argument hsymbol he =>
    rcases symbol_cases hsymbol with ⟨-, hes⟩ | hnil
    · exact hs.part (.argument hes he)
    · simp [hnil] at he
  | property hps hp => exact hs.of_properties hps _ hp

theorem sustains_wellShapedFrom (hacyclic : g.HasAcyclicAliases) :
    g.Sustains g.WellShapedFrom where
  askable _ hs := hs.self.isAskable hacyclic
  answers _ _ hs := hs.answers

/-- Objects can be merged, however they hang together. -/
theorem yields_properties_of_objects {S : Handle → Prop} (hS : g.Sustains S) (hs : S h)
    (hkind : g.kind? h = some .intersection) {ms : List Handle} (hms : g.members h = .ok ms)
    (hobjects : ∀ m ∈ ms, g.kind? m = some .object) :
    Yields (g.properties h) fun ps => ∀ p ∈ ps, S p.type := by
  obtain ⟨all, hall⟩ : ∃ all, ms.mapM g.properties = .ok all := by
    refine exists_mapM_eq_ok fun m hm => ?_
    exact (hS.askable m (hS.answers h m hs (.member hms hm))).properties (hobjects m hm)
  have hps : g.properties h = .ok (mergeAll all) := by
    rw [properties_of_objects hkind hms hobjects, hall]
    rfl
  exact ⟨_, hps, fun p hp => hS.answers h p.type hs (.property hps hp)⟩

end Shaped

end Graph

end RouteCatalog
