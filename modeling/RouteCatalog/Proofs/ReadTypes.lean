import RouteCatalog.Proofs.Property
import RouteCatalog.Session

/-! Which specifications of a graph are read as types, and which handles can be obtained by asking.
Every handle that is obtained is backed by a specification that is read; asking a merged type for
its members, or a type for its properties, leads to no others. -/

namespace RouteCatalog.Graph

variable {g : Graph} {h e : Handle} {v w : Value} {id : NodeId} {field : String}

def listFields (g : Graph) (h : Handle) : List String :=
  if g.isKind .reference h then ["elements", "members", "args"] else ["elements", "members"]

/-- The specifications of the types that a handle is asked for. -/
inductive Holds (g : Graph) (h : Handle) : Value → Prop where
  | single {field : String} {w : Value} :
      field ∈ ["element", "number_index"] → g.field? h field = some w → Holds g h w
  | item {field : String} {specs w : Value} {items : List Value} :
      field ∈ g.listFields h → g.field? h field = some specs → g.doc.items? specs = some items →
      w ∈ items → Holds g h w
  | property {entries : List Entry} {e : Entry} :
      g.kind? h = some .object →
      g.doc.entriesOrNone ((g.field? h "properties").getD .null) = .ok entries → e ∈ entries →
      Holds g h (g.propertyType e.2).1

/-- The specifications that are read as types: those of declarations and aliases, and those that
mappings among them hold. -/
inductive IsRead (g : Graph) : Value → Prop where
  | declared {name : String} {v : Value} : g.declaration? name = some v → IsRead g v
  | exported {path name : String} {file : String × Value} {aliases : List Entry} {v : Value} :
      g.files.find? (·.1 == path) = some file → aliasesOf g.doc file.2 = .ok aliases →
      Entries.get? aliases name = some v → IsRead g v
  | held {v w : Value} {id : NodeId} :
      IsRead g v → g.doc.mapping? v = some id → g.Holds (.anonymous id) w → IsRead g w

def ReadsMapping (g : Graph) (id : NodeId) : Prop := ∃ v, g.IsRead v ∧ g.doc.mapping? v = some id

/-- The handles that a declared name or an alias gives, and those that asking them leads to. -/
inductive IsObtainable (g : Graph) : Handle → Prop where
  | declared {name : String} {h : Handle} :
      (g.declaration? name).isSome → g.handle (.text name) = .ok h → IsObtainable g h
  | exported {file : SourceFile} {name : String} {h : Handle} :
      g.alias? file name = .ok (some h) → IsObtainable g h
  | answer {h e : Handle} : IsObtainable g h → g.Answers h e → IsObtainable g e

/-- A handle stands for a text, for a mapping that is read as a type, or for handles that do. -/
inductive IsBacked (g : Graph) : Handle → Prop where
  | leaf {t : String} : IsBacked g (.leaf t)
  | literal {name t : String} : IsBacked g (.declared name (.literal t))
  | node {h : Handle} {id : NodeId} : h.node? = some id → g.ReadsMapping id → IsBacked g h
  | merged {ms : List Handle} : (∀ m ∈ ms, IsBacked g m) → IsBacked g (.merged ms)

section Fields

theorem field?_congr {h' : Handle} (heq : g.entries h = g.entries h') :
    g.field? h field = g.field? h' field := by
  unfold field?
  rw [heq]

theorem kind?_congr {h' : Handle} (heq : g.entries h = g.entries h') : g.kind? h = g.kind? h' := by
  unfold kind? statedKind
  rw [field?_congr heq]

theorem Holds.congr {h' : Handle} (heq : g.entries h = g.entries h') (hw : g.Holds h w) :
    g.Holds h' w := by
  cases hw with
  | single hfield hw => exact .single hfield (field?_congr heq ▸ hw)
  | item hfield hspecs hitems hw =>
    rw [field?_congr heq] at hspecs
    rw [listFields, isKind, kind?_congr heq] at hfield
    exact .item hfield hspecs hitems hw
  | property hkind hentries he =>
    rw [field?_congr heq] at hentries
    rw [kind?_congr heq] at hkind
    exact .property hkind hentries he

theorem entries_of_node? (hnode : h.node? = some id) :
    g.entries h = g.entries (.anonymous id) := by
  cases h with
  | leaf t => cases hnode
  | merged ms => cases hnode
  | anonymous id' =>
    cases hnode
    rfl
  | declared name b =>
    cases b with
    | literal t => cases hnode
    | node id' =>
      cases hnode
      rfl

theorem field?_of_text {t : String}
    (hentries : g.entries h = [(.text "kind", .text "primitive"), (.text "value", .text t)])
    (hkind : field ≠ "kind") (hvalue : field ≠ "value") : g.field? h field = none := by
  simp [field?, hentries, Entries.get?, hkind.symm, hvalue.symm]

theorem isWellShaped_of_text {t : String}
    (hentries : g.entries h = [(.text "kind", .text "primitive"), (.text "value", .text t)]) :
    g.IsWellShaped h where
  kind := by simp [kind?_of_text hentries]
  lists field hfield v hv := by
    rw [field?_of_text hentries (by rintro rfl; simp at hfield) (by rintro rfl; simp at hfield)]
      at hv
    cases hv
  properties v hv := by
    rw [field?_of_text hentries (by decide) (by decide)] at hv
    cases hv
  signatures v hv := by
    rw [field?_of_text hentries (by decide) (by decide)] at hv
    cases hv
  name hkind := by
    rw [kind?_of_text hentries] at hkind
    cases hkind

theorem not_holds (hfields : ∀ field, field ≠ "kind" → field ≠ "value" → g.field? h field = none)
    (hobject : g.kind? h ≠ some .object) : ¬ g.Holds h w := by
  intro hw
  cases hw with
  | single hfield hw =>
    rw [hfields _ (by rintro rfl; simp at hfield) (by rintro rfl; simp at hfield)] at hw
    cases hw
  | item hfield hspecs _ _ =>
    unfold listFields at hfield
    rw [hfields _ (by rintro rfl; revert hfield; split <;> simp)
      (by rintro rfl; revert hfield; split <;> simp)] at hspecs
    cases hspecs
  | property hkind _ _ => exact hobject hkind

theorem not_holds_of_text {t : String}
    (hentries : g.entries h = [(.text "kind", .text "primitive"), (.text "value", .text t)]) :
    ¬ g.Holds h w := by
  apply not_holds fun _ hkind hvalue => field?_of_text hentries hkind hvalue
  rw [kind?_of_text hentries]
  simp

theorem not_holds_merged {ms : List Handle} : ¬ g.Holds (.merged ms) w := by
  apply not_holds fun _ hkind _ => field?_merged hkind
  rw [kind?_merged]
  simp

end Fields

section Backed

theorem IsBacked.isRead (hh : g.IsBacked h) (hw : g.Holds h w) : g.IsRead w := by
  cases hh with
  | leaf => exact (not_holds_of_text rfl hw).elim
  | literal => exact (not_holds_of_text rfl hw).elim
  | merged _ => exact (not_holds_merged hw).elim
  | node hnode hread =>
    obtain ⟨v, hv, hmap⟩ := hread
    exact .held hv hmap (hw.congr (entries_of_node? hnode))

theorem IsBacked.readsMapping (hh : g.IsBacked h) (hnode : h.node? = some id) :
    g.ReadsMapping id := by
  cases hh with
  | leaf => cases hnode
  | literal => cases hnode
  | merged _ => cases hnode
  | node hnode' hread =>
    rw [hnode] at hnode'
    cases hnode'
    exact hread

/-- Names that are followed end at a declaration. -/
theorem readsMapping_of_resolveWithin (free : List String) (spec : Value)
    (hspec : g.IsRead spec ∨ spec.isText) (hresolve : g.resolveWithin free spec = .ok (.node id)) :
    g.ReadsMapping id := by
  induction free, spec using resolveWithin.induct (g := g) with
  | case1 free name hnone => simp [resolveWithin, hnone] at hresolve
  | case2 free name next hnext hfree ih =>
    simp only [resolveWithin, hnext, hfree, dif_pos] at hresolve
    exact ih (.inl (.declared hnext)) hresolve
  | case3 free name next hnext hfree => simp [resolveWithin, hnext, hfree] at hresolve
  | case4 free v id' hnot hid =>
    simp only [resolveWithin, hid] at hresolve
    cases hresolve
    rcases hspec with hspec | hspec
    · exact ⟨v, hspec, hid⟩
    · cases v with
      | text s => exact (hnot s rfl).elim
      | _ => cases hspec
  | case5 free v hnot hid => simp [resolveWithin, hid] at hresolve

theorem isBacked_of_handle (hspec : g.IsRead v ∨ v.isText) (hv : g.handle v = .ok h) :
    g.IsBacked h := by
  unfold handle at hv
  split at hv
  · rename_i name
    split at hv
    · obtain ⟨b, hb, rfl⟩ := map_eq_ok_iff.mp hv
      cases b with
      | literal t => exact .literal
      | node id => exact .node rfl (readsMapping_of_resolveWithin _ _ hspec hb)
    · cases hv
      exact .leaf
  · rename_i hnot
    split at hv
    · rename_i id hid
      cases hv
      rcases hspec with hspec | hspec
      · exact .node rfl ⟨v, hspec, hid⟩
      · cases v with
        | text s => exact (hnot s rfl).elim
        | _ => cases hspec
    · cases hv
      exact .leaf

end Backed

section Answers

theorem exists_of_ownProperties {ps : List Property} {p : Property}
    (hkind : g.kind? h = some .object) (hps : g.ownProperties h = .ok ps) (hp : p ∈ ps) :
    ∃ w, g.Holds h w ∧ g.handle w = .ok p.type := by
  obtain ⟨entries, hentries, hps⟩ := bind_eq_ok_iff.mp hps
  obtain ⟨e, he, hpe⟩ := exists_of_mem_mapM hps hp
  obtain ⟨t, ht, heq⟩ := bind_eq_ok_iff.mp hpe
  cases heq
  exact ⟨_, .property hkind hentries he, ht⟩

theorem IsBacked.of_holds (hh : g.IsBacked h) (hw : g.Holds h w) (he : g.handle w = .ok e) :
    g.IsBacked e := isBacked_of_handle (.inl (hh.isRead hw)) he

theorem IsBacked.of_several {es : List Handle} (hh : g.IsBacked h) (hfield : field ∈ g.listFields h)
    (hes : g.several h field = .ok es) (he : e ∈ es) : g.IsBacked e := by
  obtain ⟨specs, items, w, hspecs, hitems, hw, hwe⟩ := exists_of_several hes he
  exact hh.of_holds (.item hfield hspecs hitems hw) hwe

theorem mem_listFields (hfield : field ∈ ["elements", "members"]) : field ∈ g.listFields h := by
  unfold listFields
  split
  · simp only [List.mem_cons, List.not_mem_nil, or_false] at hfield ⊢
    tauto
  · exact hfield

theorem listFields_cases (hfield : field ∈ g.listFields h) :
    field = "elements" ∨ field = "members" ∨ field = "args" ∧ g.kind? h = some .reference := by
  unfold listFields at hfield
  split at hfield
  · rename_i hkind
    have hreference : g.kind? h = some .reference := by simpa [isKind] using hkind
    simp only [List.mem_cons, List.not_mem_nil, or_false] at hfield
    tauto
  · simp only [List.mem_cons, List.not_mem_nil, or_false] at hfield
    tauto

theorem IsBacked.of_members {ms : List Handle} (hh : g.IsBacked h) (hms : g.members h = .ok ms) :
    ∀ m ∈ ms, g.IsBacked m := by
  intro m hm
  rcases members_cases hms with rfl | hseveral
  · cases hh with
    | node hnode _ => cases hnode
    | merged hall => exact hall m hm
  · exact hh.of_several (mem_listFields (by simp)) hseveral hm

theorem IsBacked.answers (hh : g.IsBacked h) (he : g.Answers h e) : g.IsBacked e := by
  cases he with
  | element he =>
    obtain ⟨w, hw, hwe⟩ := exists_of_single he
    exact hh.of_holds (.single (by simp) hw) hwe
  | index he =>
    obtain ⟨w, hw, hwe⟩ := exists_of_single he
    exact hh.of_holds (.single (by simp) hw) hwe
  | inTuple hes he => exact hh.of_several (mem_listFields (by simp)) hes he
  | member hes he => exact hh.of_members hes e he
  | argument hs he =>
    rcases symbol_cases hs with ⟨hkind, hes⟩ | hnil
    · exact hh.of_several (by simp [listFields, isKind, hkind]) hes he
    · simp [hnil] at he
  | property hps hp =>
    refine type_of_mem_propertiesWithin ?_ (fun _ _ hms hh => hh.of_members hms)
      (fun _ => .merged) hps hh _ hp
    intro h ps hkind hps hh p hp
    obtain ⟨w, hw, hwp⟩ := exists_of_ownProperties hkind hps hp
    exact hh.of_holds hw hwp

theorem IsObtainable.isBacked (hh : g.IsObtainable h) : g.IsBacked h := by
  induction hh with
  | declared _ hname => exact isBacked_of_handle (.inr rfl) hname
  | answer _ he ih => exact ih.answers he
  | @exported file name h halias =>
    unfold alias? at halias
    obtain ⟨aliases, haliases, halias⟩ := bind_eq_ok_iff.mp halias
    cases hfile : g.files.find? (·.1 == file.path) with
    | none =>
      simp only [hfile] at haliases
      cases haliases
      cases halias
    | some entry =>
      simp only [hfile] at haliases
      split at halias
      · cases halias
      · rename_i spec hspec
        obtain ⟨h', hh', heq⟩ := bind_eq_ok_iff.mp halias
        cases heq
        exact isBacked_of_handle (.inl (.exported hfile haliases hspec)) hh'

end Answers

section Closed

def heldBy (g : Graph) (h : Handle) : List Value :=
  ["element", "number_index"].filterMap (g.field? h) ++
    (g.listFields h).flatMap (fun field => ((g.field? h field).bind g.doc.items?).getD []) ++
    (answered (g.doc.entriesOrNone ((g.field? h "properties").getD .null))).map
      fun e => (g.propertyType e.2).1

theorem mem_heldBy (hw : g.Holds h w) : w ∈ g.heldBy h := by
  unfold heldBy
  cases hw with
  | single hfield hw =>
    exact List.mem_append_left _ (List.mem_append_left _ (List.mem_filterMap.mpr ⟨_, hfield, hw⟩))
  | item hfield hspecs hitems hw =>
    refine List.mem_append_left _ (List.mem_append_right _ (List.mem_flatMap.mpr ⟨_, hfield, ?_⟩))
    simpa [hspecs, hitems] using hw
  | property _ hentries he =>
    refine List.mem_append_right _ (List.mem_map.mpr ⟨_, ?_, rfl⟩)
    simpa [hentries, answered] using he

/-- It is enough to look at a list of specifications that contains what each of them holds. -/
theorem isRead_of_closed (specs : List Value) (hdeclared : ∀ e ∈ g.declarations, e.2 ∈ specs)
    (hexported : ∀ file ∈ g.files, ∀ e ∈ answered (aliasesOf g.doc file.2), e.2 ∈ specs)
    (hheld : ∀ v ∈ specs, ∀ id ∈ g.doc.mapping? v, ∀ w ∈ g.heldBy (.anonymous id), w ∈ specs)
    (hv : g.IsRead v) : v ∈ specs := by
  induction hv with
  | declared hname =>
    obtain ⟨e, he, rfl⟩ := Option.map_eq_some_iff.mp hname
    exact hdeclared e (List.mem_of_find?_eq_some he)
  | exported hfile haliases hname =>
    obtain ⟨e, he, rfl⟩ := Option.map_eq_some_iff.mp hname
    have hmem := hexported _ (List.mem_of_find?_eq_some hfile)
    rw [haliases] at hmem
    exact hmem e (List.mem_of_find?_eq_some he)
  | held _ hmap hw ih => exact hheld _ ih _ hmap _ (mem_heldBy hw)

theorem ReadsMapping.mem_of_closed {ids : List NodeId} (specs : List Value)
    (hdeclared : ∀ e ∈ g.declarations, e.2 ∈ specs)
    (hexported : ∀ file ∈ g.files, ∀ e ∈ answered (aliasesOf g.doc file.2), e.2 ∈ specs)
    (hheld : ∀ v ∈ specs, ∀ id ∈ g.doc.mapping? v, ∀ w ∈ g.heldBy (.anonymous id), w ∈ specs)
    (hids : ∀ v ∈ specs, ∀ id ∈ g.doc.mapping? v, id ∈ ids) (hid : g.ReadsMapping id) :
    id ∈ ids := by
  obtain ⟨v, hv, hmap⟩ := hid
  exact hids v (isRead_of_closed specs hdeclared hexported hheld hv) id hmap

end Closed

end RouteCatalog.Graph
