import RouteCatalog.Proofs.InspectedTypes
import RouteCatalog.Proofs.MemberChain

/-! When an accepted graph is safe to query. Validation looks at the mappings that specifications
lead to, and asking looks at the specifications that are read as types. The two agree but for four
things that validation lets pass: names that are declared in a circle, a wrapper where a type is
read, a collection that cannot be iterated, and an intersection among its own members. -/

namespace RouteCatalog

namespace Graph

open Document

variable {g : Graph} {doc : Document} {h e : Handle} {v w : Value} {a b id : NodeId}

structure AnswersAll (g : Graph) (h : Handle) : Prop where
  element : ∃ e, g.element h = .ok e
  index : ∃ e, g.numberIndex h = .ok e
  elements : ∃ es, g.elements h = .ok es
  members : ∃ es, g.members h = .ok es
  symbol : ∃ s, g.symbol h = .ok s
  properties : ∃ ps, g.properties h = .ok ps

/-- Every handle can be obtained without a fault; it stands for a text or for a mapping that states
its kind, and it can be rendered and normalized. -/
structure IsSafe (g : Graph) : Prop where
  declared : ∀ name, (g.declaration? name).isSome → ∃ h, g.handle (.text name) = .ok h
  exported : ∀ file name, ∃ h, g.alias? file name = .ok h
  answers : ∀ h, g.IsObtainable h → g.AnswersAll h
  kind : ∀ h, g.IsObtainable h → ∀ id, h.node? = some id →
    (Entries.get? (g.doc.entriesAt id) "kind").isSome
  text : ∀ h, g.IsObtainable h → ∃ s, g.text h = .ok (.text s)
  normalize : ∀ h, g.IsObtainable h → ∀ (n : Normalizer) (depth : Int),
    ∃ s, n.normalize g h depth = .ok (.text s)

section Safe

theorem exists_alias?_eq_ok (hok : g.validate = .ok ()) (hacyclic : g.HasAcyclicAliases)
    (file : SourceFile) (name : String) : ∃ h, g.alias? file name = .ok h := by
  obtain ⟨aliases, haliases⟩ : ∃ aliases, aliasesOf g.doc
      (((g.files.find? (·.1 == file.path)).map Prod.snd).getD .null) = .ok aliases := by
    cases hfile : g.files.find? (·.1 == file.path) with
    | none => exact ⟨[], rfl⟩
    | some entry => exact exists_aliases_of_validate hok (List.mem_of_find?_eq_some hfile)
  cases hname : Entries.get? aliases name with
  | none => exact ⟨none, bind_eq_ok_iff.mpr ⟨aliases, haliases, by simp only [hname]; rfl⟩⟩
  | some spec =>
    obtain ⟨h, hh⟩ := exists_handle_eq_ok hacyclic spec
    refine ⟨some h, bind_eq_ok_iff.mpr ⟨aliases, haliases, ?_⟩⟩
    simp only [hname, hh]
    rfl

variable (hok : g.validate = .ok ()) (hfields : ∀ id, g.ReadsMapping id → g.IsDocumented id)
  (hacyclic : g.HasAcyclicAliases) (hwrappers : ∀ id, g.ReadsMapping id → ¬ g.doc.IsWrapper id)
include hok hwrappers hfields

theorem isInspected_of_readsMapping (hid : g.ReadsMapping id) : g.doc.IsInspected id := by
  obtain ⟨v, hv, hmap⟩ := hid
  exact isInspected_of_validate hok (isReached_of_isRead hok hwrappers hfields hv hmap)

include hacyclic

theorem isAskable_of_isBacked (hiterable : ∀ id, g.ReadsMapping id → g.IsIterable id)
    (hh : g.IsBacked h) : g.IsAskable h := by
  cases hh with
  | leaf => exact (isWellShaped_of_text rfl).isAskable hacyclic
  | literal => exact (isWellShaped_of_text rfl).isAskable hacyclic
  | merged _ => exact isWellShaped_merged.isAskable hacyclic
  | @node _ id hnode hid =>
    have hinspected := isInspected_of_readsMapping hok hfields hwrappers hid
    exact isAskable_of_node hacyclic hnode hinspected (hwrappers id hid) (hfields id hid)
      (hiterable id hid)

theorem isSafe_of_conditions (hiterable : ∀ id, g.ReadsMapping id → g.IsIterable id)
    (hends : ∀ id, g.ReadsMapping id → ¬ g.ContainsItself id) : g.IsSafe := by
  have hask : ∀ h, g.IsBacked h → g.IsAskable h := fun h =>
    isAskable_of_isBacked hok hfields hacyclic hwrappers hiterable
  have hsustains : g.Sustains g.IsObtainable :=
    ⟨fun h hh => hask h hh.isBacked, fun h e hh he => .answer hh he⟩
  constructor
  · exact fun name _ => exists_handle_eq_ok hacyclic (.text name)
  · exact exists_alias?_eq_ok hok hacyclic
  · intro h hh
    have hself := hask h hh.isBacked
    obtain ⟨s, hs, -⟩ := hself.symbol
    refine ⟨hself.element, hself.index, hself.elements, hself.members, ⟨s, hs⟩, ?_⟩
    have hmember : ∀ h m, g.IsBacked h → g.HasMember h m → g.IsBacked m :=
      fun h m hh ⟨_, ms, hms, hm⟩ => hh.of_members hms m hm
    have hbacked : ∀ t, Relation.ReflTransGen g.HasMember h t → g.IsBacked t := by
      intro t ht
      induction ht with
      | refl => exact hh.isBacked
      | tail _ hm ih => exact hmember _ _ ih hm
    refine (exists_properties_iff hask hmember hh.isBacked).mpr ?_
    rintro ⟨t, id, ht, hnode, hself⟩
    exact hends id ((hbacked t ht).readsMapping hnode) hself
  · intro h hh id hnode
    have hid := hh.isBacked.readsMapping hnode
    have hinspected := isInspected_of_readsMapping hok hfields hwrappers hid
    obtain ⟨stated, k, hstated, -, -⟩ := kind_of_isInspected hinspected (hwrappers id hid)
    simp [hstated]
  · intro h hh
    obtain ⟨l, hl, s, rfl⟩ := hsustains.yields_textWithin g.identities h hh
    exact ⟨s, hl⟩
  · intro h hh n depth
    obtain ⟨l, hl, s, rfl⟩ := hsustains.yields_normalizeWithin n.detector (n.levels depth) h hh
    exact ⟨s, hl⟩

end Safe

section Necessary

theorem handle_of_mapping? (hmap : g.doc.mapping? v = some id) :
    g.handle v = .ok (.anonymous id) := by
  obtain ⟨rfl, entries, hn⟩ := mapping?_eq_some hmap
  simp [handle, hmap]

theorem handle_of_declared {name : String} (hname : g.declaration? name = some v)
    (hmap : g.doc.mapping? v = some id) :
    g.handle (.text name) = .ok (.declared name (.node id)) := by
  obtain ⟨rfl, entries, hn⟩ := mapping?_eq_some hmap
  simp [handle, hname, resolve, resolveWithin, mem_declaredNames hname, hmap, Except.map]

theorem mem_of_several {es : List Handle} {field : String} {specs : Value} {items : List Value}
    (hes : g.several h field = .ok es) (hspecs : g.field? h field = some specs)
    (hitems : g.doc.items? specs = some items) (hw : w ∈ items) (he : g.handle w = .ok e) :
    e ∈ es := by
  unfold several at hes
  rw [hspecs] at hes
  obtain ⟨items', hitems', hes⟩ := bind_eq_ok_iff.mp hes
  rw [parts_eq_ok_iff, hitems] at hitems'
  cases hitems'
  obtain ⟨e', he', heq⟩ := exists_mem_of_mapM hes hw
  rw [he] at heq
  cases heq
  exact he'

/-- A handle that answers everything gives the handles of all that it holds. -/
theorem AnswersAll.answers (hall : g.AnswersAll h) (hnode : h.node? = some a) (hw : g.Holds h w)
    (he : g.handle w = .ok e) : g.Answers h e := by
  cases hw with
  | single hfield hw =>
    have hsingle : ∀ field, g.field? h field = some w → g.single h field = .ok (some e) := by
      intro field hw
      simp only [single, hw, he]
      rfl
    simp only [List.mem_cons, List.not_mem_nil, or_false] at hfield
    rcases hfield with rfl | rfl
    · exact .element (hsingle _ hw)
    · exact .index (hsingle _ hw)
  | @item field specs _ items hfield hspecs hitems hw =>
    rcases listFields_cases hfield with rfl | rfl | ⟨rfl, hkind⟩
    · obtain ⟨es, hes⟩ := hall.elements
      exact .inTuple hes (mem_of_several hes hspecs hitems hw he)
    · obtain ⟨es, hes⟩ := hall.members
      rcases members_cases hes with rfl | hseveral
      · cases hnode
      · exact .member hes (mem_of_several hseveral hspecs hitems hw he)
    · obtain ⟨s, hs⟩ := hall.symbol
      obtain ⟨s', rfl, hes⟩ := symbol_of_reference hkind hs
      exact .argument hs (mem_of_several hes hspecs hitems hw he)
  | @property entries e' hkind hentries hmem =>
    obtain ⟨ps, hps⟩ := hall.properties
    have hown : g.ownProperties h = .ok ps := by
      rw [← propertiesWithin_of_object hkind]
      exact hps
    obtain ⟨entries', hentries', hown⟩ := bind_eq_ok_iff.mp hown
    rw [hentries] at hentries'
    cases hentries'
    obtain ⟨p, hp, hpe⟩ := exists_mem_of_mapM hown hmem
    obtain ⟨t, ht, heq⟩ := bind_eq_ok_iff.mp hpe
    cases heq
    obtain rfl : e = t := Except.ok.inj (he.symm.trans ht)
    exact .property hps hp

/-- Where nothing fails, every mapping that is read as a type can be obtained. -/
theorem exists_obtainable (hall : ∀ h, g.IsObtainable h → g.AnswersAll h) (hv : g.IsRead v)
    (hmap : g.doc.mapping? v = some id) : ∃ h, g.IsObtainable h ∧ h.node? = some id := by
  induction hv generalizing id with
  | @declared name v hname =>
    refine ⟨.declared name (.node id), ?_, rfl⟩
    exact .declared (by simp [hname]) (handle_of_declared hname hmap)
  | @exported path name file aliases v hfile haliases hname =>
    refine ⟨.anonymous id, @IsObtainable.exported g ⟨path⟩ name _ ?_, rfl⟩
    unfold alias?
    simp only [hfile, Option.map_some, Option.getD_some]
    refine bind_eq_ok_iff.mpr ⟨aliases, haliases, ?_⟩
    simp only [hname, handle_of_mapping? hmap]
    rfl
  | held _ hmapv hw ih =>
    -- A list is asked for as a whole, so that one item without a handle would hide the others.
    obtain ⟨h, hh, hnode⟩ := ih hmapv
    have hholds := hw.congr (entries_of_node? hnode).symm
    refine ⟨.anonymous id, .answer hh ?_, rfl⟩
    exact (hall h hh).answers hnode hholds (handle_of_mapping? hmap)

theorem IsSafe.conditions (hsafe : g.IsSafe) : g.HasAcyclicAliases ∧
    ∀ id, g.ReadsMapping id →
      ¬ g.doc.IsWrapper id ∧ g.IsIterable id ∧ ¬ g.ContainsItself id := by
  refine ⟨hasAcyclicAliases_of_handles hsafe.declared, ?_⟩
  rintro id ⟨v, hv, hmap⟩
  obtain ⟨h, hh, hnode⟩ := exists_obtainable hsafe.answers hv hmap
  have hall := hsafe.answers h hh
  have hentries := entries_of_node? (g := g) hnode
  refine ⟨?_, ?_, ?_⟩
  · rintro ⟨hkind, -⟩
    have hsome := hsafe.kind h hh id hnode
    simp [hkind] at hsome
  · intro field hfield specs hspecs
    have hseveral : ∃ es, g.several h field = .ok es := by
      rcases listFields_cases hfield with rfl | rfl | ⟨rfl, hkind⟩
      · exact hall.elements
      · obtain ⟨ms, hms⟩ := hall.members
        rcases members_cases hms with rfl | hseveral
        · cases hnode
        · exact ⟨ms, hseveral⟩
      · obtain ⟨s, hs⟩ := hall.symbol
        obtain ⟨s', rfl, hes⟩ := symbol_of_reference (kind?_congr hentries ▸ hkind) hs
        exact ⟨_, hes⟩
    obtain ⟨es, hes⟩ := hseveral
    rw [several, field?_congr hentries, Option.mem_def.mp hspecs] at hes
    obtain ⟨items, hitems, -⟩ := bind_eq_ok_iff.mp hes
    simp [parts_eq_ok_iff.mp hitems]
  · obtain ⟨ps, hps⟩ := hall.properties
    exact not_containsItself (acc_of_propertiesWithin _ h hps) hnode

end Necessary

/-- A wrapper that is taken for a type node prints as an unknown type. -/
theorem text_of_wrapper (hh : g.IsObtainable h) (hnode : h.node? = some id)
    (hwrapper : g.doc.IsWrapper id) (hname : h.name? = none) (htext : g.field? h "text" = none)
    (hvalue : g.field? h "value" = none) : g.text h = .ok (.text "unknown") := by
  have hkind : g.kind? h = some .primitive := by
    apply kind?_of_no_entries
    rw [field?_congr (entries_of_node? hnode)]
    exact hwrapper.1
  have hmapping : ∀ id', h = .anonymous id' → (g.doc.mapping? (.node id')).isSome := by
    rintro id' rfl
    obtain ⟨v, -, hmap⟩ := hh.isBacked.readsMapping rfl
    obtain ⟨rfl, entries, hn⟩ := mapping?_eq_some hmap
    simp [hmap]
  obtain ⟨i, hi⟩ : ∃ i, h.identity? = some i := by
    cases h with
    | leaf t => cases hnode
    | merged ms => cases hnode
    | anonymous id' => exact ⟨_, rfl⟩
    | declared name b => exact ⟨_, rfl⟩
  have hnameless : g.IsNameless h i := ⟨hi, hname, hmapping⟩
  rw [text, textWithin_of_identity htext hname hi, if_pos hnameless.mem_identities, renderNode,
    hkind, hvalue]
  rfl

/-- An accepted graph whose fields are documented is safe to query exactly if no names are declared
in a circle, no wrapper is read as a type, what stands for several types can be iterated, and no
intersection contains itself. A wrapper that is read as a type prints as an unknown one. -/
theorem accepted_is_safe_iff {source : String} (haccepted : ofValue doc v source = .ok g)
    (hfields : ∀ id, g.ReadsMapping id → g.IsDocumented id) :
    (g.IsSafe ↔ g.HasAcyclicAliases ∧ ∀ id, g.ReadsMapping id →
      ¬ g.doc.IsWrapper id ∧ g.IsIterable id ∧ ¬ g.ContainsItself id) ∧
    ∀ h id, g.IsObtainable h → h.node? = some id → g.doc.IsWrapper id → h.name? = none →
      g.field? h "text" = none → g.field? h "value" = none → g.text h = .ok (.text "unknown") := by
  refine ⟨⟨IsSafe.conditions, ?_⟩, fun h id => text_of_wrapper⟩
  rintro ⟨hacyclic, hread⟩
  exact isSafe_of_conditions (validate_of_ofValue haccepted) hfields hacyclic
    (fun id hid => (hread id hid).1) (fun id hid => (hread id hid).2.1)
    fun id hid => (hread id hid).2.2

/-- An array whose element is wrapped as only the value of a property may be. -/
def wrapping : Document := ⟨#[
  .mapping [(.text "types", .node 1)],
  .mapping [(.text "Names", .node 2)],
  .mapping [(.text "kind", .text "array"), (.text "element", .node 3)],
  .mapping [(.text "type", .text "string")]]⟩

def wrappingGraph : Graph where
  doc := wrapping
  source := "<memory>"
  files := []
  declarations := [(.text "Names", .node 2)]

example : wrappingGraph.anonymousText (.declared "Names" (.node 2)) = .ok (.text "unknown[]") := by
  cbv

/-- A page that is aliased, refers to itself and holds a wrapped tuple, an intersection and a
reference. -/
def site : Document := ⟨#[
  .mapping [(.text "files", .node 1), (.text "types", .node 4)],
  .mapping [(.text "src/app.ts", .node 2)],
  .mapping [(.text "aliases", .node 3)],
  .mapping [(.text "App", .text "Home")],
  .mapping [(.text "Page", .node 5), (.text "Home", .text "Page"), (.text "Id", .text "string")],
  .mapping [(.text "kind", .text "object"), (.text "properties", .node 6)],
  .mapping [(.text "self", .text "Page"), (.text "parts", .node 7), (.text "both", .node 11),
    (.text "loaded", .node 13)],
  .mapping [(.text "type", .node 8), (.text "optional", .bool true)],
  .mapping [(.text "kind", .text "tuple"), (.text "elements", .node 9)],
  .list [.node 5, .node 10],
  .mapping [(.text "kind", .text "array"), (.text "element", .null)],
  .mapping [(.text "kind", .text "intersection"), (.text "members", .node 12)],
  .list [.text "Page", .node 5],
  .mapping [(.text "kind", .text "reference"), (.text "name", .text "Promise"),
    (.text "args", .node 14)],
  .list [.text "Id"]]⟩

def siteGraph : Graph where
  doc := site
  source := "<memory>"
  files := [("src/app.ts", .node 2)]
  declarations := [(.text "Page", .node 5), (.text "Home", .text "Page"), (.text "Id", .text "string")]

def siteSpecs : List Value :=
  [.text "Home", .text "Page", .text "Id", .text "string", .null, .node 5, .node 8, .node 10,
    .node 11, .node 13]

theorem mem_of_readsMapping_site (hid : siteGraph.ReadsMapping id) : id ∈ [5, 8, 10, 11, 13] := by
  apply hid.mem_of_closed siteSpecs <;> decide

theorem hasAcyclicAliases_siteGraph : siteGraph.HasAcyclicAliases := by
  apply hasAcyclicAliases_of_handles
  intro name hname
  obtain ⟨v, hv⟩ := Option.isSome_iff_exists.mp hname
  have hmem : name ∈ ["Page", "Home", "Id"] := mem_declaredNames hv
  fin_cases hmem
  · exact ⟨.declared "Page" (.node 5), by cbv⟩
  · exact ⟨.declared "Home" (.node 5), by cbv⟩
  · exact ⟨.declared "Id" (.literal "string"), by cbv⟩

theorem not_containsItself_siteGraph : ∀ id ∈ [5, 8, 10, 11, 13], ¬ siteGraph.ContainsItself id := by
  have hintersection : ∀ id ∈ [5, 8, 10, 11, 13],
      siteGraph.kind? (.anonymous id) = some .intersection → id = 11 := by decide
  have hmembers : siteGraph.members (.anonymous 11) =
      .ok [.declared "Page" (.node 5), .anonymous 5] := by cbv
  have hobjects : ∀ m ∈ [Handle.declared "Page" (.node 5), .anonymous 5],
      siteGraph.kind? m ≠ some .intersection := by
    simp only [List.forall_mem_cons]
    decide
  intro id hid
  apply not_containsItself_of_flat
  rintro m ⟨hkind, ms, hms, hm⟩
  obtain rfl := hintersection id hid hkind
  obtain rfl := Except.ok.inj (hmembers.symm.trans hms)
  exact hobjects m hm

theorem site_is_safe_wrapping_is_not :
    (ofValue site (.node 0) "<memory>" = .ok siteGraph ∧
      (∀ id, siteGraph.ReadsMapping id → siteGraph.IsDocumented id) ∧ siteGraph.IsSafe) ∧
    ofValue wrapping (.node 0) "<memory>" = .ok wrappingGraph ∧
      (∀ id, wrappingGraph.ReadsMapping id → wrappingGraph.IsDocumented id) ∧
      ¬ wrappingGraph.IsSafe ∧ wrappingGraph.IsObtainable (.anonymous 3) ∧
      wrappingGraph.text (.anonymous 3) = .ok (.text "unknown") := by
  constructor
  · have haccepted : ofValue site (.node 0) "<memory>" = .ok siteGraph := by cbv
    have hfields : ∀ id, siteGraph.ReadsMapping id → siteGraph.IsDocumented id := by
      apply isDocumented_of_fields fun _ => mem_of_readsMapping_site <;> decide
    have hconditions : ∀ id ∈ [5, 8, 10, 11, 13],
        ¬ site.IsWrapper id ∧ siteGraph.IsIterable id := by
      unfold IsWrapper IsIterable
      decide
    obtain ⟨hsafe, -⟩ := accepted_is_safe_iff haccepted hfields
    refine ⟨haccepted, hfields, hsafe.mpr ⟨hasAcyclicAliases_siteGraph, fun id hid => ?_⟩⟩
    have hmem := mem_of_readsMapping_site hid
    exact ⟨(hconditions id hmem).1, (hconditions id hmem).2, not_containsItself_siteGraph id hmem⟩
  · have haccepted : ofValue wrapping (.node 0) "<memory>" = .ok wrappingGraph := by cbv
    have hids : ∀ id, wrappingGraph.ReadsMapping id → id ∈ [2, 3] := by
      intro id hid
      apply hid.mem_of_closed [.node 2, .node 3, .text "string"] <;> decide
    have hfields : ∀ id, wrappingGraph.ReadsMapping id → wrappingGraph.IsDocumented id := by
      apply isDocumented_of_fields hids <;> decide
    have hholds : wrappingGraph.Holds (.anonymous 2) (.node 3) :=
      @Holds.single _ _ "element" _ (by decide) rfl
    have hread : wrappingGraph.ReadsMapping 3 :=
      ⟨.node 3, .held (@IsRead.declared _ "Names" _ rfl) rfl hholds, rfl⟩
    have hnames : wrappingGraph.IsObtainable (.declared "Names" (.node 2)) :=
      @IsObtainable.declared _ "Names" _ rfl (by cbv)
    have helement : wrappingGraph.IsObtainable (.anonymous 3) := .answer hnames (.element rfl)
    have hwrapper : wrapping.IsWrapper 3 := ⟨rfl, rfl⟩
    obtain ⟨hsafe, hunknown⟩ := accepted_is_safe_iff haccepted hfields
    refine ⟨haccepted, hfields, ?_, helement, hunknown _ 3 helement rfl hwrapper rfl rfl rfl⟩
    exact fun h => ((hsafe.mp h).2 3 hread).1 hwrapper

end Graph

end RouteCatalog
