import RouteCatalog.Graph.Rendering
import RouteCatalog.Proofs.AliasChain

/-! Well-shaped type nodes: what a handle needs so that it answers every question about its type.
The intersections that merging makes are as well shaped as their members. -/

namespace RouteCatalog

def Value.isWhole : Value → Bool
  | .int _ => true
  | _ => false

namespace Graph

/-- A type node states a known kind or none, its lists are lists, its properties a mapping or null,
its call signatures a whole number, and the name of a reference a text. -/
structure IsWellShaped (g : Graph) (h : Handle) : Prop where
  kind : (g.kind? h).isSome
  lists : ∀ field ∈ ["elements", "members", "args"], ∀ v ∈ g.field? h field,
    (g.doc.list? v).isSome
  properties : ∀ v ∈ g.field? h "properties", v = .null ∨ (g.doc.entries? v).isSome
  signatures : ∀ v ∈ g.field? h "call_signatures", v.isWhole
  name : g.kind? h = some .reference → (g.field? h "name").any (·.isText)

instance (g : Graph) (h : Handle) : Decidable (g.IsWellShaped h) :=
  decidable_of_iff
    ((g.kind? h).isSome ∧
      (∀ field ∈ ["elements", "members", "args"], ∀ v ∈ g.field? h field,
        (g.doc.list? v).isSome) ∧
      (∀ v ∈ g.field? h "properties", v = .null ∨ (g.doc.entries? v).isSome) ∧
      (∀ v ∈ g.field? h "call_signatures", v.isWhole) ∧
      (g.kind? h = some .reference → (g.field? h "name").any (·.isText)))
    ⟨fun ⟨k, l, p, s, n⟩ => ⟨k, l, p, s, n⟩, fun ⟨k, l, p, s, n⟩ => ⟨k, l, p, s, n⟩⟩

inductive HasPart (g : Graph) (h : Handle) : Handle → Prop where
  | element {e : Handle} : g.element h = .ok (some e) → HasPart g h e
  | index {e : Handle} : g.numberIndex h = .ok (some e) → HasPart g h e
  | inTuple {e : Handle} {es : List Handle} : g.elements h = .ok es → e ∈ es → HasPart g h e
  | member {e : Handle} {es : List Handle} : g.members h = .ok es → e ∈ es → HasPart g h e
  | argument {e : Handle} {es : List Handle} :
      g.several h "args" = .ok es → e ∈ es → HasPart g h e
  | property {p : Property} {ps : List Property} :
      g.ownProperties h = .ok ps → p ∈ ps → HasPart g h p.type

/-- A type and everything that it is made of, however deep, has a property. -/
def Throughout (g : Graph) (P : Handle → Prop) (h : Handle) : Prop :=
  ∀ h', Relation.ReflTransGen g.HasPart h h' → P h'

def WellShapedFrom (g : Graph) (h : Handle) : Prop :=
  ∀ h', Relation.ReflTransGen g.HasPart h h' → g.IsWellShaped h'

inductive Answers (g : Graph) (h : Handle) : Handle → Prop where
  | element {e : Handle} : g.element h = .ok (some e) → Answers g h e
  | index {e : Handle} : g.numberIndex h = .ok (some e) → Answers g h e
  | inTuple {e : Handle} {es : List Handle} : g.elements h = .ok es → e ∈ es → Answers g h e
  | member {e : Handle} {es : List Handle} : g.members h = .ok es → e ∈ es → Answers g h e
  | argument {e : Handle} {s : TypeSymbol} :
      g.symbol h = .ok (some s) → e ∈ s.arguments → Answers g h e
  | property {p : Property} {ps : List Property} :
      g.properties h = .ok ps → p ∈ ps → Answers g h p.type

structure IsAskable (g : Graph) (h : Handle) : Prop where
  kind : (g.kind? h).isSome
  element : ∃ e, g.element h = .ok e
  index : ∃ e, g.numberIndex h = .ok e
  elements : ∃ es, g.elements h = .ok es
  members : ∃ es, g.members h = .ok es
  symbol : ∃ s, g.symbol h = .ok s ∧ ∀ s' ∈ s, ∃ name, s'.name = .text name
  properties : g.kind? h = some .object → ∃ ps, g.properties h = .ok ps
  signatures : g.kind? h = some .object → ∃ n, g.callSignatures h = .ok n

/-- A property of handles with which they can be asked, and which their answers have too. -/
structure Sustains (g : Graph) (S : Handle → Prop) : Prop where
  askable : ∀ h, S h → g.IsAskable h
  answers : ∀ h e, S h → g.Answers h e → S e

variable {g : Graph} {h : Handle} {P : Handle → Prop}

theorem IsWellShaped.exists_name (hshape : g.IsWellShaped h)
    (hkind : g.kind? h = some .reference) : ∃ s, g.field? h "name" = some (.text s) := by
  have hname := hshape.name hkind
  cases hv : g.field? h "name" with
  | none => simp [hv] at hname
  | some v =>
    simp only [hv, Option.any_some] at hname
    cases v with
    | text s => exact ⟨s, rfl⟩
    | _ => cases hname

theorem Throughout.self (hs : g.Throughout P h) : P h := hs h .refl

theorem Throughout.part (hs : g.Throughout P h) {e : Handle} (he : g.HasPart h e) :
    g.Throughout P e := fun h' hr => hs h' (.head he hr)

theorem WellShapedFrom.self (hs : g.WellShapedFrom h) : g.IsWellShaped h := Throughout.self hs

theorem WellShapedFrom.part (hs : g.WellShapedFrom h) {e : Handle} (he : g.HasPart h e) :
    g.WellShapedFrom e := Throughout.part hs he

section Closed

def answered {α : Type} : Except Fault (List α) → List α
  | .ok as => as
  | .error _ => []

def partsOf (g : Graph) (h : Handle) : List Handle :=
  answered ((g.element h).map Option.toList) ++ answered ((g.numberIndex h).map Option.toList) ++
    answered (g.elements h) ++ answered (g.members h) ++ answered (g.several h "args") ++
    (answered (g.ownProperties h)).map Property.type

theorem mem_partsOf {e : Handle} (he : g.HasPart h e) : e ∈ g.partsOf h := by
  unfold partsOf
  cases he with
  | element he => simp [he, answered, Except.map]
  | index he => simp [he, answered, Except.map]
  | inTuple hes he => simp [hes, he, answered]
  | member hes he => simp [hes, he, answered]
  | argument hes he => simp [hes, he, answered]
  | property hps hp =>
    have hmem := List.mem_map_of_mem (f := Property.type) hp
    simp [hps, hmem, answered]

/-- It is enough to look at a list of types that contains the parts of each of them. -/
theorem throughout_of_closed (types : List Handle) (hmem : h ∈ types) (hP : ∀ e ∈ types, P e)
    (hparts : ∀ e ∈ types, ∀ p ∈ g.partsOf e, p ∈ types) : g.Throughout P h := by
  intro h' hr
  refine hP h' ?_
  induction hr with
  | refl => exact hmem
  | tail _ hpart ih => exact hparts _ ih _ (mem_partsOf hpart)

theorem wellShapedFrom_of_closed (types : List Handle) (hmem : h ∈ types)
    (hshape : ∀ e ∈ types, g.IsWellShaped e)
    (hparts : ∀ e ∈ types, ∀ p ∈ g.partsOf e, p ∈ types) : g.WellShapedFrom h :=
  throughout_of_closed types hmem hshape hparts

end Closed

section Merged

variable {ms : List Handle}

theorem field?_merged {name : String} (hname : name ≠ "kind") :
    g.field? (.merged ms) name = none := by
  simp [field?, entries, Entries.get?, hname.symm]

theorem kind?_merged : g.kind? (.merged ms) = some .intersection := by
  have hkind : g.field? (.merged ms) "kind" = some (.text Kind.intersection.name) := by
    simp [field?, entries, Entries.get?, Kind.name]
  simp only [kind?, statedKind, hkind, Option.getD_some, Kind.ofValue?_name]

theorem isWellShaped_merged : g.IsWellShaped (.merged ms) where
  kind := by simp [kind?_merged]
  lists field hfield v hv := by
    rw [field?_merged (by rintro rfl; revert hfield; decide)] at hv
    cases hv
  properties v hv := by
    rw [field?_merged (by decide)] at hv
    cases hv
  signatures v hv := by
    rw [field?_merged (by decide)] at hv
    cases hv
  name hkind := by
    rw [kind?_merged] at hkind
    cases hkind

theorem hasPart_merged {e : Handle} (he : g.HasPart (.merged ms) e) : e ∈ ms := by
  have hnone {name : String} (hname : name ≠ "kind") : g.field? (.merged ms) name = none :=
    field?_merged hname
  cases he with
  | element he => simp [element, single, hnone] at he
  | index he => simp [numberIndex, single, hnone] at he
  | inTuple hes he =>
    simp [elements, several, hnone] at hes
    simp [hes] at he
  | member hes he =>
    cases hes
    exact he
  | argument hes he =>
    simp [several, hnone] at hes
    simp [hes] at he
  | property hps hp =>
    have hempty : g.ownProperties (.merged ms) = .ok [] := by
      simp [ownProperties, hnone, Document.entriesOrNone, Document.isTruthy]
      rfl
    rw [hempty] at hps
    cases hps
    cases hp

theorem throughout_merged (hself : P (.merged ms)) (hms : ∀ m ∈ ms, g.Throughout P m) :
    g.Throughout P (.merged ms) := by
  intro h' hr
  cases hr.cases_head with
  | inl heq => exact heq ▸ hself
  | inr hpart =>
    obtain ⟨e, he, hrest⟩ := hpart
    exact hms e (hasPart_merged he) h' hrest

end Merged

section Questions

theorem members_cases {ms : List Handle} (hms : g.members h = .ok ms) :
    h = .merged ms ∨ g.several h "members" = .ok ms := by
  unfold members at hms
  split at hms
  · cases hms
    exact .inl rfl
  · exact .inr hms

theorem symbol_of_reference {s : Option TypeSymbol} (hkind : g.kind? h = some .reference)
    (hs : g.symbol h = .ok s) : ∃ s', s = some s' ∧ g.several h "args" = .ok s'.arguments := by
  unfold symbol at hs
  rw [if_pos (by simp [isKind, hkind])] at hs
  obtain ⟨es, hes, hs⟩ := bind_eq_ok_iff.mp hs
  split at hs
  · cases hs
    exact ⟨_, rfl, hes⟩
  · cases hs

theorem symbol_cases {s : TypeSymbol} (hs : g.symbol h = .ok (some s)) :
    (g.kind? h = some .reference ∧ g.several h "args" = .ok s.arguments) ∨ s.arguments = [] := by
  by_cases hkind : g.kind? h = some .reference
  · obtain ⟨s', heq, hes⟩ := symbol_of_reference hkind hs
    cases heq
    exact .inl ⟨hkind, hes⟩
  · unfold symbol at hs
    rw [if_neg (by simpa [isKind] using hkind)] at hs
    obtain ⟨name, -, rfl⟩ := Option.map_eq_some_iff.mp (Except.ok.inj hs)
    exact .inr rfl

theorem parts_eq_ok_iff {doc : Document} {v : Value} {items : List Value} :
    doc.parts v = .ok items ↔ doc.items? v = some items := by
  unfold Document.parts
  cases doc.items? v <;> simp

theorem exists_of_single {e : Handle} {field : String} (he : g.single h field = .ok (some e)) :
    ∃ w, g.field? h field = some w ∧ g.handle w = .ok e := by
  unfold single at he
  split at he
  · cases he
  · rename_i w hw
    obtain ⟨e', he', heq⟩ := map_eq_ok_iff.mp he
    cases heq
    exact ⟨w, hw, he'⟩

theorem exists_of_several {e : Handle} {field : String} {es : List Handle}
    (hes : g.several h field = .ok es) (he : e ∈ es) :
    ∃ specs items w, g.field? h field = some specs ∧ g.doc.items? specs = some items ∧
      w ∈ items ∧ g.handle w = .ok e := by
  unfold several at hes
  split at hes
  · cases hes
    cases he
  · rename_i specs hspecs
    obtain ⟨items, hitems, hes⟩ := bind_eq_ok_iff.mp hes
    obtain ⟨w, hw, hwe⟩ := exists_of_mem_mapM hes he
    exact ⟨specs, items, w, hspecs, parts_eq_ok_iff.mp hitems, hw, hwe⟩

theorem parts_eq_ok {doc : Document} {v : Value} {items : List Value}
    (h : doc.list? v = some items) : doc.parts v = .ok items := by
  cases v with
  | node id =>
    cases hn : doc.node id <;> simp [Document.list?, hn] at h
    simp [Document.parts, Document.items?, hn, h]
  | _ => cases h

theorem exists_entriesOrNone_eq_ok {doc : Document} {v : Value}
    (h : v = .null ∨ (doc.entries? v).isSome) : ∃ entries, doc.entriesOrNone v = .ok entries := by
  unfold Document.entriesOrNone
  by_cases htruthy : doc.isTruthy v = true
  · rcases h with rfl | h
    · cases htruthy
    · obtain ⟨entries, hentries⟩ := Option.isSome_iff_exists.mp h
      exact ⟨entries, by simp [htruthy, hentries]⟩
  · exact ⟨[], by simp [htruthy]⟩

theorem IsWellShaped.exists_parts_eq_ok (hshape : g.IsWellShaped h) {field : String}
    (hfield : field ∈ ["elements", "members", "args"]) :
    ∀ v ∈ g.field? h field, ∃ items, g.doc.parts v = .ok items := by
  intro v hv
  obtain ⟨items, hitems⟩ := Option.isSome_iff_exists.mp (hshape.lists field hfield v hv)
  exact ⟨items, parts_eq_ok hitems⟩

theorem IsWellShaped.exists_entries_eq_ok (hshape : g.IsWellShaped h) : ∃ entries,
    g.doc.entriesOrNone ((g.field? h "properties").getD .null) = .ok entries := by
  cases hv : g.field? h "properties" with
  | none => exact exists_entriesOrNone_eq_ok (.inl rfl)
  | some v => exact exists_entriesOrNone_eq_ok (hshape.properties v hv)

theorem exists_callSignatures_eq_ok (hshape : g.IsWellShaped h) :
    ∃ n, g.callSignatures h = .ok n := by
  unfold callSignatures
  split
  · exact ⟨0, rfl⟩
  · rename_i v hv
    have hwhole := hshape.signatures v hv
    cases v with
    | int n => exact ⟨n, rfl⟩
    | _ => cases hwhole

variable (hacyclic : g.HasAcyclicAliases)
include hacyclic

theorem exists_single_eq_ok (field : String) : ∃ e, g.single h field = .ok e := by
  unfold single
  split
  · exact ⟨none, rfl⟩
  · rename_i spec _
    obtain ⟨e, he⟩ := exists_handle_eq_ok hacyclic spec
    exact ⟨some e, by rw [he]; rfl⟩

theorem exists_several_eq_ok {field : String}
    (hparts : ∀ v ∈ g.field? h field, ∃ items, g.doc.parts v = .ok items) :
    ∃ es, g.several h field = .ok es := by
  unfold several
  split
  · exact ⟨[], rfl⟩
  · rename_i specs hspecs
    obtain ⟨items, hitems⟩ := hparts specs hspecs
    rw [hitems]
    exact exists_mapM_eq_ok fun spec _ => exists_handle_eq_ok hacyclic spec

theorem exists_members_eq_ok
    (hparts : ∀ v ∈ g.field? h "members", ∃ items, g.doc.parts v = .ok items) :
    ∃ ms, g.members h = .ok ms := by
  unfold members
  split
  · exact ⟨_, rfl⟩
  · exact exists_several_eq_ok hacyclic hparts

theorem exists_ownProperties_eq_ok
    (hentries : ∃ entries,
      g.doc.entriesOrNone ((g.field? h "properties").getD .null) = .ok entries) :
    ∃ ps, g.ownProperties h = .ok ps := by
  obtain ⟨entries, hentries⟩ := hentries
  unfold ownProperties
  rw [hentries]
  refine exists_mapM_eq_ok fun e _ => ?_
  cases hp : g.propertyType e.2 with
  | mk type optional =>
    obtain ⟨t, ht⟩ := exists_handle_eq_ok hacyclic type
    refine ⟨⟨g.doc.display e.1, t, optional⟩, ?_⟩
    unfold property
    rw [hp]
    change (g.handle type >>= _) = _
    rw [ht]
    rfl

theorem exists_symbol_eq_ok
    (hparts : g.kind? h = some .reference →
      ∀ v ∈ g.field? h "args", ∃ items, g.doc.parts v = .ok items)
    (hname : g.kind? h = some .reference → ∃ s, g.field? h "name" = some (.text s)) :
    ∃ s, g.symbol h = .ok s ∧ ∀ s' ∈ s, ∃ name, s'.name = .text name := by
  unfold symbol
  split
  · rename_i hkind
    have hreference : g.kind? h = some .reference := by simpa [isKind] using hkind
    obtain ⟨es, hes⟩ := exists_several_eq_ok hacyclic (hparts hreference)
    obtain ⟨name, hname⟩ := hname hreference
    rw [hes, hname]
    refine ⟨_, rfl, fun s' hs' => ?_⟩
    cases hs'
    exact ⟨name, rfl⟩
  · refine ⟨_, rfl, fun s' hs' => ?_⟩
    obtain ⟨name, -, rfl⟩ := Option.map_eq_some_iff.mp hs'
    exact ⟨name, rfl⟩

end Questions

section Askable

variable (hask : g.IsAskable h)
include hask

theorem yields_element : Yields (g.element h) fun e => ∀ e' ∈ e, g.Answers h e' := by
  obtain ⟨e, he⟩ := hask.element
  exact ⟨e, he, fun e' he' => .element (he.trans (congrArg _ he'))⟩

theorem yields_numberIndex : Yields (g.numberIndex h) fun e => ∀ e' ∈ e, g.Answers h e' := by
  obtain ⟨e, he⟩ := hask.index
  exact ⟨e, he, fun e' he' => .index (he.trans (congrArg _ he'))⟩

theorem yields_elements : Yields (g.elements h) fun es => ∀ e ∈ es, g.Answers h e := by
  obtain ⟨es, hes⟩ := hask.elements
  exact ⟨es, hes, fun e he => .inTuple hes he⟩

theorem yields_members : Yields (g.members h) fun es => ∀ e ∈ es, g.Answers h e := by
  obtain ⟨es, hes⟩ := hask.members
  exact ⟨es, hes, fun e he => .member hes he⟩

theorem yields_properties_of_object (hkind : g.kind? h = some .object) :
    Yields (g.properties h) fun ps => ∀ p ∈ ps, g.Answers h p.type := by
  obtain ⟨ps, hps⟩ := hask.properties hkind
  exact ⟨ps, hps, fun p hp => .property hps hp⟩

theorem yields_symbol : Yields (g.symbol h) fun s =>
    (g.kind? h = some .reference → s.isSome) ∧
      ∀ s' ∈ s, (∃ name, s'.name = .text name) ∧ ∀ e ∈ s'.arguments, g.Answers h e := by
  obtain ⟨s, hs, hname⟩ := hask.symbol
  refine ⟨s, hs, fun hkind => ?_, fun s' hs' => ⟨hname s' hs', fun e he => ?_⟩⟩
  · obtain ⟨s', rfl, -⟩ := symbol_of_reference hkind hs
    rfl
  · exact .argument (hs.trans (congrArg _ hs')) he

end Askable

end Graph

end RouteCatalog
