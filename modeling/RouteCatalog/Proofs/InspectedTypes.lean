import RouteCatalog.Proofs.Acceptance
import RouteCatalog.Proofs.ReadTypes

/-! Validation looks at the mappings that specifications lead to, and asking at those that are read
as types. As long as no wrapper is read as a type, validation has inspected every mapping that is,
and a documented one answers what is asked about it. -/

namespace RouteCatalog

/-- A mapping states a type and no kind. -/
def Document.IsWrapper (doc : Document) (id : NodeId) : Prop :=
  Entries.get? (doc.entriesAt id) "kind" = none ∧ (Entries.get? (doc.entriesAt id) "type").isSome

namespace Graph

open Document

variable {g : Graph} {doc : Document} {h : Handle} {v w : Value} {a id : NodeId}

/-- The fields of a type node have the shapes that are documented for them: only lists hold
mappings, a reference is named by a text, and the call signatures of an object are a number. -/
structure IsDocumented (g : Graph) (id : NodeId) : Prop where
  lists : ∀ field ∈ g.listFields (.anonymous id), ∀ v ∈ g.field? (.anonymous id) field,
    ∀ items ∈ g.doc.items? v, (∃ w ∈ items, (g.doc.mapping? w).isSome) → (g.doc.list? v).isSome
  name : g.kind? (.anonymous id) = some .reference →
    ∀ v ∈ g.field? (.anonymous id) "name", v.isText
  signatures : g.kind? (.anonymous id) = some .object → ∃ n, g.callSignatures (.anonymous id) = .ok n

/-- It is enough to look at the fields of the mappings among which those are that are read. -/
theorem isDocumented_of_fields {ids : List NodeId} (hids : ∀ id, g.ReadsMapping id → id ∈ ids)
    (hlists : ∀ id ∈ ids, ∀ field ∈ g.listFields (.anonymous id),
      ∀ v ∈ g.field? (.anonymous id) field, (g.doc.list? v).isSome)
    (hname : ∀ id ∈ ids, ∀ v ∈ g.field? (.anonymous id) "name", v.isText)
    (hsignatures : ∀ id ∈ ids, g.field? (.anonymous id) "call_signatures" = none) :
    ∀ id, g.ReadsMapping id → g.IsDocumented id := by
  intro id hid
  have hmem := hids id hid
  constructor
  · exact fun field hfield v hv _ _ _ => hlists id hmem field hfield v hv
  · exact fun _ => hname id hmem
  · exact fun _ => ⟨0, by simp only [callSignatures, hsignatures id hmem]⟩

def IsIterable (g : Graph) (id : NodeId) : Prop :=
  ∀ field ∈ g.listFields (.anonymous id), ∀ v ∈ g.field? (.anonymous id) field,
    (g.doc.items? v).isSome

section Reached

theorem kind_of_isInspected (hid : doc.IsInspected id) (hwrapper : ¬ doc.IsWrapper id) :
    ∃ stated k, Entries.get? (doc.entriesAt id) "kind" = some stated ∧
      Kind.ofValue? stated = some k ∧
      (k = .reference → (Entries.get? (doc.entriesAt id) "name").isSome) := by
  have hvalid := hid.valid
  unfold IsLocallyValid at hvalid
  cases hkind : Entries.get? (doc.entriesAt id) "kind" with
  | none =>
    simp only [hkind] at hvalid
    exact (hwrapper ⟨hkind, hvalid⟩).elim
  | some stated =>
    simp only [hkind] at hvalid
    obtain ⟨k, hk, hname⟩ := hvalid
    exact ⟨stated, k, rfl, hk, hname⟩

theorem list?_of_items? {items : List Value} (hitems : doc.items? v = some items)
    (hlist : (doc.list? v).isSome) : doc.list? v = some items := by
  obtain ⟨items', hlist'⟩ := Option.isSome_iff_exists.mp hlist
  obtain ⟨n, rfl, hn⟩ := list?_eq_some hlist'
  simpa [items?, list?, hn] using hitems

/-- A property value leads to the type that it states, by itself or through its wrapper. -/
theorem leads_of_propertyType (hw : g.doc.mapping? (g.propertyType v).1 = some id) :
    g.doc.Leads v id ∨ ∃ b, g.doc.Leads v b ∧ g.doc.LeadsTo b id := by
  unfold propertyType at hw
  cases hentries : g.doc.entries? v with
  | none =>
    simp only [hentries] at hw
    exact .inl (.mapping hw)
  | some entries =>
    simp only [hentries] at hw
    split at hw
    · rename_i type hkind htype
      right
      cases v with
      | node b =>
        have hmap : g.doc.mapping? (.node b) = some b := by
          cases hn : g.doc.node b <;> simp [entries?, hn] at hentries
          simp [mapping?, hn]
        have hat : g.doc.entriesAt b = entries := by simp [entriesAt, hentries]
        refine ⟨b, .mapping hmap, type, ?_, .mapping hw⟩
        simp [specsOf, hat, hkind, htype]
      | _ => cases hentries
    · exact .inl (.mapping hw)

/-- A type node leads to the mappings that it is asked for. -/
theorem leadsTo_of_holds (hinspected : g.doc.IsInspected a) (hwrapper : ¬ g.doc.IsWrapper a)
    (hfields : g.IsDocumented a) (hw : g.Holds (.anonymous a) w)
    (hmap : g.doc.mapping? w = some id) :
    g.doc.LeadsTo a id ∨ ∃ b, g.doc.LeadsTo a b ∧ g.doc.LeadsTo b id := by
  obtain ⟨stated, k, hkind, -, -⟩ := kind_of_isInspected hinspected hwrapper
  obtain ⟨entries, hentries⟩ := hinspected.properties (by simp [hkind])
  have hspecs : g.doc.specsOf (g.doc.entriesAt a) =
      specFields.filterMap (Entries.get? (g.doc.entriesAt a)) ++ entries.map Prod.snd := by
    simp only [specsOf, hkind, propertyEntries_of_entriesOrNone hentries]
  have hfield : ∀ field ∈ specFields, ∀ v, Entries.get? (g.doc.entriesAt a) field = some v →
      v ∈ g.doc.specsOf (g.doc.entriesAt a) := by
    intro field hfield v hv
    rw [hspecs]
    exact List.mem_append_left _ (List.mem_filterMap.mpr ⟨field, hfield, hv⟩)
  cases hw with
  | @single field _ hmem hw =>
    refine .inl ⟨w, hfield field ?_ w hw, .mapping hmap⟩
    revert hmem
    simp only [specFields, List.mem_cons, List.not_mem_nil, or_false]
    tauto
  | @item field specs _ items hmem hv hitems hw =>
    have hlist := hfields.lists field hmem specs hv items hitems ⟨w, hw, by simp [hmap]⟩
    refine .inl ⟨specs, hfield field ?_ specs hv, ?_⟩
    · revert hmem
      unfold listFields specFields
      split <;> simp only [List.mem_cons, List.not_mem_nil, or_false] <;> tauto
    · exact .item (list?_of_items? hitems hlist) hw (.mapping hmap)
  | @property entries' e hobject hentries' he =>
    have hsame : entries' = entries := Except.ok.inj (hentries'.symm.trans hentries)
    have hmem : e.2 ∈ g.doc.specsOf (g.doc.entriesAt a) := by
      rw [hspecs]
      exact List.mem_append_right _ (List.mem_map_of_mem (hsame ▸ he))
    rcases leads_of_propertyType hmap with hlead | ⟨b, hlead, hb⟩
    · exact .inl ⟨e.2, hmem, hlead⟩
    · exact .inr ⟨b, ⟨e.2, hmem, hlead⟩, hb⟩

/-- Validation has inspected every mapping that is read as a type. -/
theorem isReached_of_isRead (hok : g.validate = .ok ())
    (hwrappers : ∀ id, g.ReadsMapping id → ¬ g.doc.IsWrapper id)
    (hfields : ∀ id, g.ReadsMapping id → g.IsDocumented id) (hv : g.IsRead v)
    (hmap : g.doc.mapping? v = some id) : g.IsReached id := by
  induction hv generalizing id with
  | @declared name v hname =>
    refine ⟨v, id, ?_, .mapping hmap, .refl id⟩
    obtain ⟨e, he, rfl⟩ := Option.map_eq_some_iff.mp hname
    exact .declared (List.mem_of_find?_eq_some he)
  | @exported path name file aliases v hfile haliases hname =>
    refine ⟨v, id, ?_, .mapping hmap, .refl id⟩
    obtain ⟨e, he, rfl⟩ := Option.map_eq_some_iff.mp hname
    exact .exported (List.mem_of_find?_eq_some hfile) haliases (List.mem_of_find?_eq_some he)
  | @held v w a hv hmapv hw ih =>
    -- Validation looks only at the `type` of a wrapper, while asking would go on to its fields.
    have ha : g.ReadsMapping a := ⟨v, hv, hmapv⟩
    have hreached := ih hmapv
    have hinspected := isInspected_of_validate hok hreached
    rcases leadsTo_of_holds hinspected (hwrappers a ha) (hfields a ha) hw hmap with
      hlead | ⟨b, hab, hb⟩
    · exact hreached.leadsTo hlead
    · exact (hreached.leadsTo hab).leadsTo hb

end Reached

section Askable

variable (hacyclic : g.HasAcyclicAliases)
include hacyclic

theorem isAskable_of_node (hnode : h.node? = some id) (hinspected : g.doc.IsInspected id)
    (hwrapper : ¬ g.doc.IsWrapper id) (hfields : g.IsDocumented id) (hiterable : g.IsIterable id) :
    g.IsAskable h := by
  obtain ⟨stated, k, hstated, hk, hname⟩ := kind_of_isInspected hinspected hwrapper
  have hentries := entries_of_node? (g := g) hnode
  have hkind : g.kind? h = some k := by
    have hfield : g.field? (.anonymous id) "kind" = some stated := hstated
    rw [kind?_congr hentries, kind?, statedKind, hfield]
    exact hk
  have hparts : ∀ field ∈ g.listFields h, ∀ v ∈ g.field? h field,
      ∃ items, g.doc.parts v = .ok items := by
    intro field hfield v hv
    rw [field?_congr hentries] at hv
    rw [listFields, isKind, kind?_congr hentries] at hfield
    obtain ⟨items, hitems⟩ := Option.isSome_iff_exists.mp (hiterable field hfield v hv)
    exact ⟨items, parts_eq_ok_iff.mpr hitems⟩
  constructor
  · simp [hkind]
  · exact exists_single_eq_ok hacyclic "element"
  · exact exists_single_eq_ok hacyclic "number_index"
  · exact exists_several_eq_ok hacyclic (hparts "elements" (mem_listFields (by simp)))
  · exact exists_members_eq_ok hacyclic (hparts "members" (mem_listFields (by simp)))
  · apply exists_symbol_eq_ok hacyclic
    · intro hreference
      exact hparts "args" (by simp [listFields, isKind, hreference])
    · intro hreference
      obtain ⟨v, hv⟩ := Option.isSome_iff_exists.mp
        (hname (Option.some.inj (hkind.symm.trans hreference)))
      have htext := hfields.name (kind?_congr hentries ▸ hreference) v hv
      cases v with
      | text s => exact ⟨s, (field?_congr hentries).trans hv⟩
      | _ => cases htext
  · intro hobject
    obtain ⟨entries, hproperties⟩ := hinspected.properties (by simp [hstated])
    rw [properties, propertiesWithin_of_object hobject]
    apply exists_ownProperties_eq_ok hacyclic
    rw [field?_congr hentries]
    exact ⟨entries, hproperties⟩
  · intro hobject
    rw [callSignatures, field?_congr hentries]
    exact hfields.signatures (kind?_congr hentries ▸ hobject)

end Askable

end Graph

end RouteCatalog
