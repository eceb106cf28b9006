import RouteCatalog.Proofs.Normalization
import RouteCatalog.Proofs.NameChain

/-! Route trees: objects and intersections that are nested finitely deep. What counts is where the
names lead that a walk follows; the types of an endpoint's parts may form any cycles. A walk down a
route tree passes no descriptor twice and finds every name once. -/

namespace RouteCatalog.Graph

open Route

variable {g : Graph} {h : Handle}

/-- The handles that a graph gives out: those of its specifications, and what merging makes of
them. -/
inductive IsHandle (g : Graph) : Handle → Prop where
  | given {spec : Value} {h : Handle} : g.handle spec = .ok h → IsHandle g h
  | merged {ms : List Handle} : (∀ m ∈ ms, IsHandle g m) → IsHandle g (.merged ms)

/-- The descriptors that a walk may follow for a finite number of steps only. An object has distinct
names, as a mapping with text keys does, and each of its methods can be asked for its parts. -/
inductive IsRouteTree (g : Graph) : Handle → Prop where
  | object {h : Handle} {ps : List Property} : g.kind? h = some .object →
      g.ownProperties h = .ok ps → (ps.map Property.name).Nodup →
      (∀ p ∈ ps, LeadsDown p.name → IsRouteTree g p.type) →
      (∀ p ∈ ps, ∀ m : Method, p.name = m.name → ∃ qs, g.properties p.type = .ok qs) →
      IsRouteTree g h
  | intersection {h : Handle} {ms : List Handle} : g.kind? h = some .intersection →
      g.members h = .ok ms → (∀ m ∈ ms, IsRouteTree g m) → IsRouteTree g h
  | other {h : Handle} : g.kind? h ≠ some .object → g.kind? h ≠ some .intersection →
      IsRouteTree g h

/-- The first type is a member of the second or stands under one of its names that lead down. -/
inductive Under (g : Graph) : Handle → Handle → Prop where
  | member {h t : Handle} {ms : List Handle} : g.kind? h = some .intersection →
      g.members h = .ok ms → t ∈ ms → Under g t h
  | property {h : Handle} {p : Property} {ps : List Property} : g.kind? h = some .object →
      g.ownProperties h = .ok ps → p ∈ ps → LeadsDown p.name → Under g p.type h

/-- A mapping with text keys names its properties by them. -/
theorem nodup_names_of_text_keys {entries : List Entry} {ps : List Property}
    (hentries : g.doc.entriesOrNone ((g.field? h "properties").getD .null) = .ok entries)
    (hps : g.ownProperties h = .ok ps) (htext : ∀ e ∈ entries, e.1.isText)
    (hkeys : (entries.map Prod.fst).Nodup) : (ps.map Property.name).Nodup := by
  unfold ownProperties at hps
  rw [hentries] at hps
  have hnames : ps.map Property.name = (entries.map Prod.fst).map g.doc.display := by
    rw [List.map_map, ← List.forall₂_eq_eq_eq, List.forall₂_map_left_iff,
      List.forall₂_map_right_iff]
    refine ((mapM_eq_ok_iff.mp hps).imp fun e p hp => ?_).flip
    obtain ⟨t, -, heq⟩ := bind_eq_ok_iff.mp hp
    cases heq
    rfl
  rw [hnames]
  refine hkeys.map_on fun k hk k' hk' heq => ?_
  obtain ⟨e, he, rfl⟩ := List.mem_map.mp hk
  obtain ⟨e', he', rfl⟩ := List.mem_map.mp hk'
  have htext' {e : Entry} (he : e ∈ entries) : e.1 = .text (g.doc.display e.1) := by
    have hisText := htext e he
    cases hkey : e.1 <;> rw [hkey] at hisText <;> first | rfl | cases hisText
  rw [htext' he, htext' he', heq]

section Handles

theorem resolve_of_handle {spec : Value} {name : String} {b : Backing}
    (hspec : g.handle spec = .ok (.declared name b)) : g.resolve (.text name) = .ok b := by
  unfold handle at hspec
  split at hspec
  · rename_i name'
    split at hspec
    · obtain ⟨b', hb, heq⟩ := map_eq_ok_iff.mp hspec
      cases heq
      exact hb
    · cases hspec
  · split at hspec <;> cases hspec

theorem isHandle_merged_iff {ms : List Handle} :
    g.IsHandle (.merged ms) ↔ ∀ m ∈ ms, g.IsHandle m := by
  constructor
  · intro hh
    cases hh with
    | given hspec =>
      unfold handle at hspec
      split at hspec
      · split at hspec
        · obtain ⟨b, -, heq⟩ := map_eq_ok_iff.mp hspec
          cases heq
        · cases hspec
      · split at hspec <;> cases hspec
    | merged hms => exact hms
  · exact .merged

theorem IsHandle.of_members {ms : List Handle} (hms : g.members h = .ok ms)
    (hh : g.IsHandle h) : ∀ m ∈ ms, g.IsHandle m := by
  rcases members_cases hms with rfl | hseveral
  · exact isHandle_merged_iff.mp hh
  · intro m hm
    obtain ⟨-, -, spec, -, -, -, hspec⟩ := exists_of_several hseveral hm
    exact .given hspec

theorem isHandle_of_mem_ownProperties {ps : List Property} (hps : g.ownProperties h = .ok ps) :
    ∀ p ∈ ps, g.IsHandle p.type := by
  intro p hp
  obtain ⟨entries, -, hps⟩ := bind_eq_ok_iff.mp hps
  obtain ⟨e, -, he⟩ := exists_of_mem_mapM hps hp
  obtain ⟨t, ht, hp⟩ := bind_eq_ok_iff.mp he
  cases hp
  exact .given ht

theorem IsHandle.of_properties {ps : List Property} (hps : g.properties h = .ok ps)
    (hh : g.IsHandle h) : ∀ p ∈ ps, g.IsHandle p.type :=
  type_of_mem_propertiesWithin (fun _ _ _ hps _ => isHandle_of_mem_ownProperties hps)
    (fun _ _ hms hh => hh.of_members hms) (fun _ => .merged) hps hh

/-- Two handles of a graph with one identity are the same handle. -/
theorem IsHandle.eq_of_identity {t : Handle} {i : Identity} (hh : g.IsHandle h)
    (ht : g.IsHandle t) (hi : h.identity? = some i) (hi' : t.identity? = some i) : h = t := by
  have hresolve {name : String} {b : Backing} (hh : g.IsHandle (.declared name b)) :
      g.resolve (.text name) = .ok b := by
    cases hh with
    | given hspec => exact resolve_of_handle hspec
  cases h with
  | leaf _ => cases hi
  | merged _ => cases hi
  | anonymous id =>
    cases hi
    cases t <;> cases hi'
    rfl
  | declared name b =>
    cases hi
    cases t with
    | leaf _ => cases hi'
    | merged _ => cases hi'
    | anonymous _ => cases hi'
    | declared name' b' =>
      cases hi'
      have hb := (hresolve hh).symm.trans (hresolve ht)
      cases hb
      rfl

end Handles

/-! Nothing under a route tree is above it. -/

theorem acc_under (ht : g.IsRouteTree h) : Acc g.Under h := by
  induction ht with
  | object hkind hps _ _ _ ih =>
    refine ⟨_, fun t ht => ?_⟩
    cases ht with
    | member hkind' _ _ =>
      rw [hkind] at hkind'
      cases hkind'
    | property _ hps' hp hname =>
      rw [hps] at hps'
      cases hps'
      exact ih _ hp hname
  | intersection hkind hms _ ih =>
    refine ⟨_, fun t ht => ?_⟩
    cases ht with
    | member _ hms' hm =>
      rw [hms] at hms'
      cases hms'
      exact ih t hm
    | property hkind' _ _ _ =>
      rw [hkind] at hkind'
      cases hkind'
  | other hobject hintersection =>
    refine ⟨_, fun t ht => ?_⟩
    cases ht with
    | member hkind _ _ => exact (hintersection hkind).elim
    | property hkind _ _ _ => exact (hobject hkind).elim

theorem not_self_of_acc {α : Type} {r : α → α → Prop} {a : α} (ha : Acc r a) : ¬ r a a := by
  intro hself
  induction ha with
  | intro a _ ih => exact ih a hself hself

theorem not_transGen_under (ht : g.IsRouteTree h) : ¬ Relation.TransGen g.Under h h :=
  not_self_of_acc (acc_under ht).transGen

/-! While the properties of a route tree are merged, no intersection is met inside itself. -/

section Merging

/-- None of the intersections under a type is being merged already. -/
def IsFree (g : Graph) (free : List NodeId) (h : Handle) : Prop :=
  ∀ t, Relation.ReflTransGen g.Under t h → g.kind? t = some .intersection →
    ∀ id ∈ t.node?, id ∈ free

theorem isFree_nodeIds : g.IsFree g.doc.nodeIds h :=
  fun _ _ hkind _ hid => mem_nodeIds_of_kind hkind (by decide) hid

theorem members_of_node? {t : Handle} {id : NodeId} (hh : h.node? = some id)
    (ht : t.node? = some id) : g.members h = g.members t := by
  have hmembers {h : Handle} (hh : h.node? = some id) :
      g.members h = g.several (.anonymous id) "members" := by
    cases h with
    | leaf _ => cases hh
    | merged _ => cases hh
    | anonymous _ =>
      cases hh
      rfl
    | declared _ b =>
      cases b with
      | node _ =>
        cases hh
        rfl
      | literal _ => cases hh
  rw [hmembers hh, hmembers ht]

theorem IsFree.member {free : List NodeId} {ms : List Handle} {m : Handle}
    (hfree : g.IsFree free h) (hkind : g.kind? h = some .intersection)
    (hms : g.members h = .ok ms) (hm : m ∈ ms) : g.IsFree free m :=
  fun t ht => hfree t (ht.tail (.member hkind hms hm))

/-- Under a member the intersection itself does not come again, even as another handle on its
node. -/
theorem IsFree.erase {free : List NodeId} {ms : List Handle} {m : Handle} {id : NodeId}
    (hfree : g.IsFree free h) (hkind : g.kind? h = some .intersection)
    (hms : g.members h = .ok ms) (hm : m ∈ ms) (htree : g.IsRouteTree m)
    (hnode : h.node? = some id) : g.IsFree (free.erase id) m := by
  intro t ht hintersection id' hid'
  refine (List.mem_erase_of_ne ?_).mpr (hfree.member hkind hms hm t ht hintersection id' hid')
  rintro rfl
  -- A handle on the same node has the same members, so that `m` would be under itself.
  have hms' : g.members t = .ok ms := (members_of_node? hid' hnode).trans hms
  exact not_transGen_under htree (.head' (.member hintersection hms' hm) ht)

theorem propertiesWithin_of_isFree {free free' : List NodeId} (ht : g.IsRouteTree h)
    (hfree : g.IsFree free h) (hfree' : g.IsFree free' h) :
    g.propertiesWithin free h = g.propertiesWithin free' h := by
  induction ht generalizing free free' with
  | object hkind _ _ _ _ _ =>
    rw [propertiesWithin_of_object hkind, propertiesWithin_of_object hkind]
  | other hobject hintersection =>
    rw [propertiesWithin_of_other hobject hintersection,
      propertiesWithin_of_other hobject hintersection]
  | @intersection h ms hkind hms htrees ih =>
    rcases exists_node?_of_kind hkind (by decide) with ⟨ms', rfl⟩ | ⟨id, -, hnode⟩
    · cases hms
      rw [propertiesWithin_merged, propertiesWithin_merged]
      exact congrArg _ (mapM_congr fun m hm =>
        ih m hm (hfree.member hkind rfl hm) (hfree'.member hkind rfl hm))
    · rw [propertiesWithin_of_node hkind hnode (hfree h .refl hkind id hnode),
        propertiesWithin_of_node hkind hnode (hfree' h .refl hkind id hnode), hms]
      change Except.map mergeAll _ = Except.map mergeAll _
      exact congrArg _ (mapM_congr fun m hm =>
        ih m hm (hfree.erase hkind hms hm (htrees m hm) hnode)
          (hfree'.erase hkind hms hm (htrees m hm) hnode))

theorem properties_merged (ms : List Handle) :
    g.properties (.merged ms) = (ms.mapM g.properties).map mergeAll := propertiesWithin_merged ms

theorem properties_of_intersection {ms : List Handle} (hkind : g.kind? h = some .intersection)
    (hms : g.members h = .ok ms) (htrees : ∀ m ∈ ms, g.IsRouteTree m) :
    g.properties h = (ms.mapM g.properties).map mergeAll := by
  rcases exists_node?_of_kind hkind (by decide) with ⟨ms', rfl⟩ | ⟨id, hid, hnode⟩
  · cases hms
    exact properties_merged ms
  · unfold properties
    rw [propertiesWithin_of_node hkind hnode hid, hms]
    change Except.map mergeAll _ = Except.map mergeAll _
    exact congrArg _ (mapM_congr fun m hm => propertiesWithin_of_isFree (htrees m hm)
      (isFree_nodeIds.erase hkind hms hm (htrees m hm) hnode) isFree_nodeIds)

end Merging

section Properties

def IsRouteProperty (g : Graph) (p : Property) : Prop :=
  (LeadsDown p.name → g.IsRouteTree p.type) ∧
    ∀ m : Method, p.name = m.name → ∃ qs, g.properties p.type = .ok qs

theorem isRouteProperty_merged {name : String} {qs : List Property} {optional : Bool}
    (hqs : ∀ q ∈ qs, q.name = name ∧ g.IsRouteProperty q) :
    g.IsRouteProperty ⟨name, .merged (qs.map Property.type), optional⟩ := by
  constructor
  · intro hname
    refine .intersection kind?_merged rfl fun t ht => ?_
    obtain ⟨q, hq, rfl⟩ := List.mem_map.mp ht
    exact (hqs q hq).2.1 ((hqs q hq).1 ▸ hname)
  · intro m hm
    obtain ⟨all, hall⟩ : ∃ all, (qs.map Property.type).mapM g.properties = .ok all := by
      refine exists_mapM_eq_ok fun t ht => ?_
      obtain ⟨q, hq, rfl⟩ := List.mem_map.mp ht
      exact (hqs q hq).2.2 m ((hqs q hq).1.trans hm)
    exact ⟨mergeAll all, by rw [properties_merged, hall]; rfl⟩

theorem yields_properties (ht : g.IsRouteTree h) : Yields (g.properties h) fun ps =>
    (ps.map Property.name).Nodup ∧ ∀ p ∈ ps, g.IsRouteProperty p := by
  induction ht with
  | object hkind hps hnodup htrees hmethods _ =>
    refine ⟨_, (propertiesWithin_of_object hkind).trans hps, hnodup, fun p hp => ?_⟩
    exact ⟨htrees p hp, hmethods p hp⟩
  | other hobject hintersection =>
    exact ⟨[], propertiesWithin_of_other hobject hintersection, .nil, by simp⟩
  | intersection hkind hms htrees ih =>
    rw [properties_of_intersection hkind hms htrees]
    refine (Yields.mapM ih).map fun all hall => ⟨?_, ?_⟩
    · rw [mergeAll, Property.names_merge]
      exact nodup_eraseDups _
    · refine Property.of_mem_merge (fun _ _ _ => isRouteProperty_merged) fun p hp => ?_
      obtain ⟨ps, hps, hp⟩ := List.mem_flatten.mp hp
      exact (hall ps hps).2 p hp

theorem IsRouteTree.of_properties {ps : List Property} (ht : g.IsRouteTree h)
    (hps : g.properties h = .ok ps) :
    (ps.map Property.name).Nodup ∧ ∀ p ∈ ps, g.IsRouteProperty p := by
  obtain ⟨ps', hps', hall⟩ := yields_properties ht
  rw [hps] at hps'
  cases hps'
  exact hall

end Properties

/-! What a walk comes to below a type is under it, or merged from types under it. -/

section Within

inductive Within (g : Graph) (h : Handle) : Handle → Prop where
  | under {t : Handle} : Relation.TransGen g.Under t h → Within g h t
  | merged {ms : List Handle} : (∀ m ∈ ms, Within g h m) → Within g h (.merged ms)

variable {t u : Handle}

theorem Within.of_under (ht : g.Within h t) (hu : g.Under u t) : g.Within h u := by
  cases ht with
  | under ht => exact .under (.head hu ht)
  | merged hms =>
    cases hu with
    | member _ hms' hm =>
      cases hms'
      exact hms u hm
    | property hkind _ _ _ =>
      rw [kind?_merged] at hkind
      cases hkind

theorem Within.trans (ht : g.Within h t) (hu : g.Within t u) : g.Within h u := by
  induction hu with
  | under hu =>
    induction hu using Relation.TransGen.head_induction_on with
    | single hu => exact ht.of_under hu
    | head hu _ ih => exact ih.of_under hu
  | merged _ ih => exact .merged ih

theorem within_of_mem_properties {ps : List Property} (ht : g.IsRouteTree h)
    (hps : g.properties h = .ok ps) : ∀ p ∈ ps, LeadsDown p.name → g.Within h p.type := by
  induction ht generalizing ps with
  | object hkind hps' _ _ _ _ =>
    intro p hp hname
    refine .under (.single (.property hkind ?_ hp hname))
    rw [← propertiesWithin_of_object hkind]
    exact hps
  | other hobject hintersection =>
    rw [properties, propertiesWithin_of_other hobject hintersection] at hps
    cases hps
    simp
  | @intersection h ms hkind hms htrees ih =>
    rw [properties_of_intersection hkind hms htrees] at hps
    obtain ⟨all, hall, rfl⟩ := map_eq_ok_iff.mp hps
    refine Property.of_mem_merge (P := fun p => LeadsDown p.name → g.Within h p.type) ?_ ?_
    · intro name qs optional hqs hname
      refine .merged fun t ht => ?_
      obtain ⟨q, hq, rfl⟩ := List.mem_map.mp ht
      exact (hqs q hq).2 ((hqs q hq).1 ▸ hname)
    · intro p hp hname
      obtain ⟨ps, hps, hp⟩ := List.mem_flatten.mp hp
      obtain ⟨m, hm, hps⟩ := exists_of_mem_mapM hall hps
      have hunder : g.Within h m := .under (.single (.member hkind hms hm))
      exact hunder.trans (ih m hm hps p hp hname)

/-- Nothing that a walk comes to below a route tree is the tree itself. -/
theorem not_identity_of_within {i : Identity} (ht : g.IsRouteTree h) (hh : g.IsHandle h)
    (hhandle : g.IsHandle t) (hwithin : g.Within h t) (hi : h.identity? = some i) :
    t.identity? ≠ some i := by
  intro hi'
  obtain rfl := hh.eq_of_identity hhandle hi hi'
  cases hwithin with
  | under hcycle => exact not_transGen_under ht hcycle
  | merged _ => cases hi

end Within

section Walks

variable {n : Normalizer} {steps : List (Step Handle)} {last : Handle}

theorem properties_handles_iff {properties : List (String × Handle)} :
    (g.handles n).properties h = .ok properties ↔
      ∃ ps, g.properties h = .ok ps ∧ ps.map (fun p => (p.name, p.type)) = properties :=
  map_eq_ok_iff

theorem propertiesOf_handles {ps : List Property} (hps : g.properties h = .ok ps) :
    propertiesOf (g.handles n) h = ps.map fun p => (p.name, p.type) := by
  rw [propertiesOf, properties_handles_iff.mpr ⟨ps, hps, rfl⟩]

theorem exists_property_of_getElem? {properties : List (String × Handle)} {i : Nat}
    {name : String} {t : Handle} (hok : (g.handles n).properties h = .ok properties)
    (hget : properties[i]? = some (name, t)) :
    ∃ ps, g.properties h = .ok ps ∧ ∃ p ∈ ps, p.name = name ∧ p.type = t := by
  obtain ⟨ps, hps, rfl⟩ := properties_handles_iff.mp hok
  obtain ⟨p, hp, heq⟩ := List.mem_map.mp (List.mem_of_getElem? hget)
  cases heq
  exact ⟨ps, hps, p, hp, rfl, rfl⟩

theorem route_of_descent (hd : Descent (g.handles n) h steps last) (ht : g.IsRouteTree h)
    (hh : g.IsHandle h) : g.IsRouteTree last ∧ g.IsHandle last := by
  induction hd with
  | here h => exact ⟨ht, hh⟩
  | down hok hget hname _ ih =>
    obtain ⟨ps, hps, p, hp, hpname, hptype⟩ := exists_property_of_getElem? hok hget
    rw [← hptype] at ih
    rw [← hpname] at hname
    exact ih (((ht.of_properties hps).2 p hp).1 hname) (hh.of_properties hps p hp)

theorem wellShaped_of_descent (hd : Descent (g.handles n) h steps last)
    (hs : g.WellShapedFrom h) : g.WellShapedFrom last := by
  induction hd with
  | here h => exact hs
  | down hok hget _ _ ih =>
    obtain ⟨ps, hps, p, hp, -, hptype⟩ := exists_property_of_getElem? hok hget
    rw [← hptype] at ih
    exact ih (hs.of_properties hps p hp)

theorem within_of_descent (hd : Descent (g.handles n) h steps last) (ht : g.IsRouteTree h)
    (hh : g.IsHandle h) : ∀ s ∈ steps, g.Within h s.handle ∧ g.IsHandle s.handle := by
  induction hd with
  | here h => simp
  | down hok hget hname _ ih =>
    obtain ⟨ps, hps, p, hp, hpname, hptype⟩ := exists_property_of_getElem? hok hget
    rw [← hpname] at hname
    have hfirst := within_of_mem_properties ht hps p hp hname
    have hhandle := hh.of_properties hps p hp
    have hbelow := ((ht.of_properties hps).2 p hp).1 hname
    rw [hptype] at hfirst hhandle hbelow
    refine List.forall_mem_cons.mpr ⟨⟨hfirst, hhandle⟩, fun s hs => ?_⟩
    obtain ⟨hwithin, hgiven⟩ := ih hbelow hhandle s hs
    exact ⟨hfirst.trans hwithin, hgiven⟩

theorem distinct_of_descent (hd : Descent (g.handles n) h steps last) (ht : g.IsRouteTree h)
    (hh : g.IsHandle h) :
    ((h :: steps.map Step.handle).filterMap (g.handles n).identity?).Nodup := by
  induction hd with
  | here h => cases hi : (g.handles n).identity? h <;> simp [hi]
  | @down h t s steps properties hok hget hname hrest ih =>
    have hfirst : Descent (g.handles n) h [s] s.handle := .down hok hget hname (.here _)
    obtain ⟨htree, hhandle⟩ := route_of_descent hfirst ht hh
    have hbelow := ih htree hhandle
    have hall := within_of_descent (.down hok hget hname hrest) ht hh
    change (List.filterMap Handle.identity? (h :: (s :: steps).map Step.handle)).Nodup
    rw [List.filterMap_cons]
    cases hi : h.identity? with
    | none => exact hbelow
    | some i =>
      -- The same identity further down would put the descriptor within itself.
      refine List.nodup_cons.mpr ⟨fun hmem => ?_, hbelow⟩
      obtain ⟨u, hu, hi'⟩ := List.mem_filterMap.mp hmem
      obtain ⟨s', hs', rfl⟩ := List.mem_map.mp hu
      obtain ⟨hwithin, hgiven⟩ := hall s' hs'
      exact not_identity_of_within ht hh hgiven hwithin hi hi'

section Tree

variable (ht : g.IsRouteTree h) (hh : g.IsHandle h)
include ht hh

theorem isOpen_of_isRouteTree (n : Normalizer) : IsOpen (g.handles n) h := by
  intro steps last hd
  obtain ⟨ps, hps, -⟩ := yields_properties (route_of_descent hd ht hh).1
  exact ⟨_, properties_handles_iff.mpr ⟨ps, hps, rfl⟩⟩

theorem hasDistinctNames_of_isRouteTree (n : Normalizer) : HasDistinctNames (g.handles n) h := by
  intro steps last hd
  obtain ⟨ps, hps, hnodup, -⟩ := yields_properties (route_of_descent hd ht hh).1
  rw [propertiesOf_handles hps, List.map_map]
  exact hnodup

theorem isSite_of_declares {s : Site Handle} {start : String} (hs : Declares (g.handles n) h s)
    (hshort : s.steps.length ≤ maxAncestors) (hpath : s.path start ≠ "") :
    IsSite (g.handles n) h start s := by
  refine ⟨hs, ?_, ?_, hpath⟩
  · obtain ⟨last, properties, hd, -, -⟩ := hs
    exact distinct_of_descent hd ht hh
  · simpa [Site.passed] using hshort

theorem isReadable_of_declares (hacyclic : g.HasAcyclicAliases) (hshape : g.WellShapedFrom h)
    {s : Site Handle} (hs : Declares (g.handles n) h s) :
    IsReadable (g.handles n) s.descriptor := by
  obtain ⟨last, properties, hd, hok, hget⟩ := hs
  obtain ⟨ps, hps, p, hp, hpname, hptype⟩ := exists_property_of_getElem? hok hget
  obtain ⟨qs, hqs⟩ := (((route_of_descent hd ht hh).1.of_properties hps).2 p hp).2 s.method hpname
  have hparts := ((wellShaped_of_descent hd hshape).of_properties hps p hp).of_properties hqs
  rw [hptype] at hqs
  refine ⟨_, properties_handles_iff.mpr ⟨qs, hqs, rfl⟩, fun part hpart _ => ?_⟩
  obtain ⟨q, hq, rfl⟩ := List.mem_map.mp hpart
  obtain ⟨l, hl, text, rfl⟩ := yields_normalizeWithin hacyclic n.detector (n.levels 0) q.type
    (hparts q hq)
  exact ⟨text, hl⟩

end Tree

end Walks

end RouteCatalog.Graph
