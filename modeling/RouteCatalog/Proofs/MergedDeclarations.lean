import RouteCatalog.Proofs.MemberChain

/-! The properties of an intersection as the declarations of the objects in it. However its members
are nested, merging keeps of the declarations of a name whether all are optional and what their
types come to as a text, and both are the same whether merging happens at once or step by step. -/

namespace RouteCatalog

namespace Property

variable {ps : List Property}

def declarationsOf (ps : List Property) (n : String) : List Property := ps.filter (·.name == n)

@[simp] theorem declarationsOf_append (ps qs : List Property) (n : String) :
    declarationsOf (ps ++ qs) n = declarationsOf ps n ++ declarationsOf qs n :=
  List.filter_append ps qs

theorem mem_declarationsOf {n : String} {p : Property} :
    p ∈ declarationsOf ps n ↔ p ∈ ps ∧ p.name = n := by
  rw [declarationsOf, List.mem_filter, beq_iff_eq]

theorem declarationsOf_eq_nil_iff {n : String} :
    declarationsOf ps n = [] ↔ n ∉ (ps.map name).eraseDups := by
  rw [List.eq_nil_iff_forall_not_mem, List.mem_eraseDups, List.mem_map]
  simp only [mem_declarationsOf, not_and, not_exists]

theorem optional_combine (n : String) : (combine n ps).optional = ps.all (·.optional) := by
  unfold combine
  split
  · simp
  · rfl

/-- Of a name merging leaves one property, if the name is declared at all. -/
theorem declarationsOf_merge (ps : List Property) (n : String) :
    declarationsOf (merge ps) n =
      if declarationsOf ps n = [] then [] else [combine n (declarationsOf ps n)] := by
  have hname (m : String) : (combine m (declarationsOf ps m)).name = m :=
    name_combine fun q => name_of_mem_filter
  have hnodup : ((merge ps).map Property.name).Nodup := by
    rw [names_merge]
    exact nodup_eraseDups _
  split_ifs with hnone
  · rw [declarationsOf_eq_nil_iff, names_merge, eraseDups_eq_self (nodup_eraseDups _)]
    exact declarationsOf_eq_nil_iff.mp hnone
  · have hmem : combine n (declarationsOf ps n) ∈ merge ps := by
      apply List.mem_map.mpr
      refine ⟨n, ?_, rfl⟩
      by_contra hn
      exact hnone (declarationsOf_eq_nil_iff.mpr hn)
    have hfound : combine n (declarationsOf ps n) ∈ declarationsOf (merge ps) n :=
      mem_declarationsOf.mpr ⟨hmem, hname n⟩
    unfold declarationsOf at hfound ⊢
    rw [filter_eq_find? hnodup] at hfound ⊢
    rw [Option.mem_toList] at hfound
    rw [hfound]
    rfl

end Property

namespace Graph

open Property

variable {g : Graph} {h : Handle} {hs ms ts : List Handle} {ps qs ds es : List Property} {s : String}

/-- The declarations that types come to, from left to right: an object comes to those that it
states, an intersection to those of its members, and any other type to none. -/
inductive Gathers (g : Graph) : List Handle → List Property → Prop where
  | nil : Gathers g [] []
  | object {h : Handle} {hs : List Handle} {own ds : List Property} :
      g.kind? h = some .object → g.ownProperties h = .ok own → Gathers g hs ds →
      Gathers g (h :: hs) (own ++ ds)
  | intersection {h : Handle} {ms hs : List Handle} {ds ds' : List Property} :
      g.kind? h = some .intersection → g.members h = .ok ms → Gathers g ms ds → Gathers g hs ds' →
      Gathers g (h :: hs) (ds ++ ds')
  | other {h : Handle} {hs : List Handle} {ds : List Property} :
      g.kind? h ≠ some .object → g.kind? h ≠ some .intersection → Gathers g hs ds →
      Gathers g (h :: hs) ds

/-- A text is put together from the texts of types; one type alone gives its own. -/
def IsJoinedText (g : Graph) (ts : List Handle) (s : String) : Prop :=
  ∃ texts, ts.mapM g.text = .ok (texts.map .text) ∧ s = " & ".intercalate texts

section Texts

variable {us : List Handle}

theorem isJoinedText_singleton {t : Handle} :
    g.IsJoinedText [t] s ↔ g.text t = .ok (.text s) := by
  have hone : [t].mapM g.text = (g.text t).map fun label => [label] := by
    rw [List.mapM_cons, List.mapM_nil]
    cases g.text t <;> rfl
  rw [IsJoinedText, hone]
  constructor
  · rintro ⟨texts, htexts, rfl⟩
    obtain ⟨label, hlabel, heq⟩ := map_eq_ok_iff.mp htexts
    obtain ⟨text, rest, rfl, rfl, hrest⟩ := List.map_eq_cons_iff.mp heq.symm
    rw [List.map_eq_nil_iff.mp hrest, String.intercalate_singleton]
    exact hlabel
  · intro htext
    exact ⟨[s], map_eq_ok_iff.mpr ⟨_, htext, rfl⟩, String.intercalate_singleton.symm⟩

theorem intercalate_append {separator : String} {a b : List String} (ha : a ≠ []) (hb : b ≠ []) :
    separator.intercalate (a ++ b) =
      separator.intercalate a ++ separator ++ separator.intercalate b := by
  induction a with
  | nil => exact (ha rfl).elim
  | cons x a ih =>
    rw [List.cons_append, String.intercalate_cons_of_ne_nil (by simp [hb])]
    cases a with
    | nil => rw [List.nil_append, String.intercalate_singleton]
    | cons y a =>
      rw [ih (by simp), String.intercalate_cons_cons]
      simp only [String.append_assoc]

theorem isJoinedText_append (hts : ts ≠ []) (hus : us ≠ []) :
    g.IsJoinedText (ts ++ us) s ↔
      ∃ x y, g.IsJoinedText ts x ∧ g.IsJoinedText us y ∧ s = x ++ " & " ++ y := by
  have hne {ts : List Handle} {texts : List String} (hts : ts ≠ [])
      (htexts : ts.mapM g.text = .ok (texts.map .text)) : texts ≠ [] := by
    rintro rfl
    exact hts (List.forall₂_nil_right_iff.mp (mapM_eq_ok_iff.mp htexts))
  constructor
  · rintro ⟨texts, htexts, rfl⟩
    rw [List.mapM_append] at htexts
    obtain ⟨left, hleft, htexts⟩ := bind_eq_ok_iff.mp htexts
    obtain ⟨right, hright, heq⟩ := bind_eq_ok_iff.mp htexts
    obtain ⟨a, b, rfl, rfl, rfl⟩ := List.map_eq_append_iff.mp (Except.ok.inj heq).symm
    exact ⟨_, _, ⟨a, hleft, rfl⟩, ⟨b, hright, rfl⟩,
      intercalate_append (hne hts hleft) (hne hus hright)⟩
  · rintro ⟨x, y, ⟨a, ha, rfl⟩, ⟨b, hb, rfl⟩, rfl⟩
    refine ⟨a ++ b, ?_, (intercalate_append (hne hts ha) (hne hus hb)).symm⟩
    rw [List.mapM_append, ha, hb, List.map_append]
    rfl

theorem text_merged_iff : g.text (.merged ts) = .ok (.text s) ↔ g.IsJoinedText ts s := by
  have htext : g.text (.merged ts) =
      ts.mapM g.text >>= fun labels => (Label.join " & " labels).map .text := by
    unfold text
    rw [textWithin_merged, renderNode, kind?_merged]
    rfl
  rw [htext, bind_eq_ok_iff]
  constructor
  · rintro ⟨labels, hlabels, hjoin⟩
    obtain ⟨_, hjoined, heq⟩ := map_eq_ok_iff.mp hjoin
    cases heq
    obtain ⟨texts, htexts, heq⟩ := bind_eq_ok_iff.mp hjoined
    cases heq
    rw [Label.mapM_toText_eq_ok_iff] at htexts
    exact ⟨texts, htexts ▸ hlabels, rfl⟩
  · rintro ⟨texts, htexts, rfl⟩
    refine ⟨texts.map .text, htexts, ?_⟩
    rw [Label.join, Label.mapM_toText_map_text]
    rfl

end Texts

/-- Properties stand for declarations: of every name they tell the same as the declarations do. -/
structure Condenses (g : Graph) (ps ds : List Property) : Prop where
  names : (ps.map Property.name).eraseDups = (ds.map Property.name).eraseDups
  optional (n : String) :
    (declarationsOf ps n).all (·.optional) = (declarationsOf ds n).all (·.optional)
  text (n s : String) : g.IsJoinedText ((declarationsOf ps n).map Property.type) s ↔
    g.IsJoinedText ((declarationsOf ds n).map Property.type) s
  single {n : String} {d : Property} : declarationsOf ds n = [d] → declarationsOf ps n = [d]

namespace Condenses

theorem refl (ps : List Property) : g.Condenses ps ps := ⟨rfl, fun _ => rfl, fun _ _ => .rfl, id⟩

theorem trans (h : g.Condenses ps qs) (h' : g.Condenses qs ds) : g.Condenses ps ds where
  names := h.names.trans h'.names
  optional n := (h.optional n).trans (h'.optional n)
  text n s := (h.text n s).trans (h'.text n s)
  single hd := h.single (h'.single hd)

theorem declarationsOf_eq_nil_iff (h : g.Condenses ps ds) (n : String) :
    declarationsOf ps n = [] ↔ declarationsOf ds n = [] := by
  rw [Property.declarationsOf_eq_nil_iff, h.names, Property.declarationsOf_eq_nil_iff]

theorem append (h : g.Condenses ps ds) (h' : g.Condenses qs es) :
    g.Condenses (ps ++ qs) (ds ++ es) where
  names := by
    rw [List.map_append, List.map_append]
    exact eraseDups_append_congr h.names h'.names
  optional n := by
    simp only [declarationsOf_append, List.all_append, h.optional, h'.optional]
  text n s := by
    have hleft := h.declarationsOf_eq_nil_iff n
    have hright := h'.declarationsOf_eq_nil_iff n
    simp only [declarationsOf_append, List.map_append]
    by_cases hds : declarationsOf ds n = []
    · rw [hds, hleft.mpr hds]
      exact h'.text n s
    · by_cases hes : declarationsOf es n = []
      · rw [hes, hright.mpr hes, List.map_nil, List.append_nil, List.append_nil]
        exact h.text n s
      · rw [isJoinedText_append (by simpa using mt hleft.mp hds) (by simpa using mt hright.mp hes),
          isJoinedText_append (by simpa using hds) (by simpa using hes)]
        simp only [h.text, h'.text]
  single {n d} hd := by
    rw [declarationsOf_append] at hd ⊢
    rcases List.append_eq_singleton_iff.mp hd with ⟨hds, hes⟩ | ⟨hds, hes⟩
    · rw [(h.declarationsOf_eq_nil_iff n).mpr hds, h'.single hes, List.nil_append]
    · rw [(h'.declarationsOf_eq_nil_iff n).mpr hes, h.single hds, List.append_nil]

theorem merge (ps : List Property) : g.Condenses (Property.merge ps) ps where
  names := by
    rw [names_merge, eraseDups_eq_self (nodup_eraseDups _)]
  optional n := by
    rw [declarationsOf_merge]
    split_ifs with hnone
    · rw [hnone]
    · rw [List.all_cons, optional_combine, List.all_nil, Bool.and_true]
  text n s := by
    rw [declarationsOf_merge]
    split_ifs with hnone
    · rw [hnone]
    · generalize declarationsOf ps n = qs at hnone
      match qs with
      | [] => exact (hnone rfl).elim
      | [_] => rfl
      | p :: q :: qs => exact isJoinedText_singleton.trans text_merged_iff
  single {n d} hd := by
    rw [declarationsOf_merge, hd, if_neg (List.cons_ne_nil d [])]
    rfl

end Condenses

section Gathering

variable {free : List NodeId}

theorem Gathers.append (h : g.Gathers hs ds) (h' : g.Gathers ms es) :
    g.Gathers (hs ++ ms) (ds ++ es) := by
  induction h with
  | nil => exact h'
  | object hkind hown _ ih =>
    rw [List.append_assoc]
    exact .object hkind hown ih
  | intersection hkind hms hbelow _ _ ih =>
    rw [List.append_assoc]
    exact .intersection hkind hms hbelow ih
  | other hobject hintersection _ ih => exact .other hobject hintersection ih

/-- Where declarations are gathered, the members come to an end. -/
theorem Gathers.acc (h : g.Gathers hs ds) : ∀ h ∈ hs, Acc (fun m h => g.HasMember h m) h := by
  have hother (h : Handle) (hkind : g.kind? h ≠ some .intersection) :
      Acc (fun m h => g.HasMember h m) h := ⟨h, fun m hm => (hkind hm.1).elim⟩
  induction h with
  | nil => simp
  | object hkind _ _ ih => exact List.forall_mem_cons.mpr ⟨hother _ (by simp [hkind]), ih⟩
  | @intersection h ms hs ds ds' _ hms _ _ ihbelow ih =>
    refine List.forall_mem_cons.mpr ⟨⟨h, ?_⟩, ih⟩
    intro m hm
    obtain ⟨-, ms', hms', hmem⟩ := hm
    rw [hms] at hms'
    cases hms'
    exact ihbelow m hmem
  | other _ hintersection _ ih => exact List.forall_mem_cons.mpr ⟨hother _ hintersection, ih⟩

/-- If the members of an intersection that ends have properties that stand for declarations, then
so has the intersection, and merging them leaves every name once. -/
theorem exists_merged (hkind : g.kind? h = some .intersection) (hms : g.members h = .ok ms)
    (hbelow : g.Gathers ms ds) (hunmet : g.IsUnmet free h)
    (ih : ∀ free, (∀ m ∈ ms, g.IsUnmet free m) →
      ∃ all, ms.mapM (g.propertiesWithin free) = .ok all ∧ g.Condenses all.flatten ds) :
    ∃ ps, g.propertiesWithin free h = .ok ps ∧ (ps.map Property.name).Nodup ∧
      g.Condenses ps ds := by
  have hmember : ∀ m ∈ ms, g.HasMember h m := fun m hm => ⟨hkind, ms, hms, hm⟩
  obtain ⟨free', hproperties, hunmet'⟩ : ∃ free',
      g.propertiesWithin free h = (ms.mapM (g.propertiesWithin free')).map mergeAll ∧
        ∀ m ∈ ms, g.IsUnmet free' m := by
    rcases exists_node?_of_kind hkind (by decide) with ⟨ms', rfl⟩ | ⟨id, -, hnode⟩
    · cases hms
      exact ⟨free, propertiesWithin_merged ms, fun m hm => hunmet.member (hmember m hm)⟩
    · have hacc : Acc (fun m h => g.HasMember h m) h :=
        (Gathers.intersection hkind hms hbelow .nil).acc h List.mem_cons_self
      refine ⟨free.erase id, ?_, ?_⟩
      · rw [propertiesWithin_of_node hkind hnode (hunmet h .refl hkind id hnode), hms]
        rfl
      · intro m hm
        exact hunmet.erase (hmember m hm) hnode (not_containsItself hacc hnode)
  obtain ⟨all, hall, hcondenses⟩ := ih free' hunmet'
  refine ⟨mergeAll all, ?_, ?_, (Condenses.merge _).trans hcondenses⟩
  · rw [hproperties, hall]
    rfl
  · rw [mergeAll, names_merge]
    exact nodup_eraseDups _

/-- Types have properties that stand for the declarations they come to. The induction is on the
gathering, and merging at each intersection condenses what its members have condensed already. -/
theorem Gathers.exists_properties (h : g.Gathers hs ds) (hunmet : ∀ h ∈ hs, g.IsUnmet free h) :
    ∃ all, hs.mapM (g.propertiesWithin free) = .ok all ∧ g.Condenses all.flatten ds := by
  induction h generalizing free with
  | nil => exact ⟨[], rfl, .refl []⟩
  | @object h hs own ds hkind hown _ ih =>
    obtain ⟨hfirst, hrest⟩ := List.forall_mem_cons.mp hunmet
    obtain ⟨all, hall, hcondenses⟩ := ih hrest
    refine ⟨own :: all, ?_, (Condenses.refl own).append hcondenses⟩
    rw [List.mapM_cons, propertiesWithin_of_object hkind, hown, hall]
    rfl
  | @intersection h ms hs ds ds' hkind hms hbelow _ ihbelow ih =>
    obtain ⟨hfirst, hrest⟩ := List.forall_mem_cons.mp hunmet
    obtain ⟨all, hall, hcondenses⟩ := ih hrest
    obtain ⟨ps, hps, -, hcondenses'⟩ :=
      exists_merged hkind hms hbelow hfirst fun _ hunmet' => ihbelow hunmet'
    refine ⟨ps :: all, ?_, hcondenses'.append hcondenses⟩
    rw [List.mapM_cons, hps, hall]
    rfl
  | @other h hs ds hobject hintersection _ ih =>
    obtain ⟨hfirst, hrest⟩ := List.forall_mem_cons.mp hunmet
    obtain ⟨all, hall, hcondenses⟩ := ih hrest
    refine ⟨[] :: all, ?_, hcondenses⟩
    rw [List.mapM_cons, propertiesWithin_of_other hobject hintersection, hall]
    rfl

theorem gathers_of_members (h : ∀ m ∈ ms, ∃ ds, g.Gathers [m] ds) : ∃ ds, g.Gathers ms ds := by
  induction ms with
  | nil => exact ⟨[], .nil⟩
  | cons m ms ih =>
    obtain ⟨hm, hms⟩ := List.forall_mem_cons.mp h
    obtain ⟨ds, hds⟩ := hm
    obtain ⟨es, hes⟩ := ih hms
    exact ⟨ds ++ es, hds.append hes⟩

theorem exists_gathers (hps : g.propertiesWithin free h = .ok ps) : ∃ ds, g.Gathers [h] ds := by
  refine propertiesWithin_induction (motive := fun h _ => ∃ ds, g.Gathers [h] ds) ?_ ?_ ?_ hps
  · intro h own hkind hown
    exact ⟨own ++ [], .object hkind hown .nil⟩
  · intro h ms free all hkind hms hall ih
    have hbelow : ∀ m ∈ ms, ∃ ds, g.Gathers [m] ds := by
      intro m hm
      obtain ⟨qs, -, hqs⟩ := exists_mem_of_mapM hall hm
      exact ih m hm qs hqs
    obtain ⟨ds, hds⟩ := gathers_of_members hbelow
    exact ⟨ds ++ [], .intersection hkind hms hds .nil⟩
  · intro h hobject hintersection
    exact ⟨[], .other hobject hintersection .nil⟩

theorem Gathers.exists_merged (hkind : g.kind? h = some .intersection) (hds : g.Gathers [h] ds) :
    ∃ ps, g.properties h = .ok ps ∧ (ps.map Property.name).Nodup ∧ g.Condenses ps ds := by
  cases hds with
  | object hobject _ _ =>
    rw [hkind] at hobject
    cases hobject
  | intersection _ hms hbelow hrest =>
    cases hrest
    rw [List.append_nil]
    exact Graph.exists_merged hkind hms hbelow isUnmet_nodeIds
      fun _ hunmet => hbelow.exists_properties hunmet
  | other _ hintersection _ => exact (hintersection hkind).elim

end Gathering

/-- A property tells of its name what the declarations tell together. -/
theorem Condenses.of_mem {p : Property} (h : g.Condenses ps ds)
    (hnodup : (ps.map Property.name).Nodup) (hp : p ∈ ps) :
    p.optional = (declarationsOf ds p.name).all (·.optional) ∧
      (∀ s, g.text p.type = .ok (.text s) ↔
        g.IsJoinedText ((declarationsOf ds p.name).map Property.type) s) ∧
      ∀ d, declarationsOf ds p.name = [d] → p = d := by
  have hmem : p ∈ declarationsOf ps p.name := mem_declarationsOf.mpr ⟨hp, rfl⟩
  have hone : declarationsOf ps p.name = [p] := by
    unfold declarationsOf at hmem ⊢
    rw [filter_eq_find? hnodup] at hmem ⊢
    rw [Option.mem_toList] at hmem
    rw [hmem]
    rfl
  refine ⟨?_, ?_, ?_⟩
  · rw [← h.optional, hone, List.all_cons, List.all_nil, Bool.and_true]
  · intro s
    rw [← h.text, hone]
    exact isJoinedText_singleton.symm
  · intro d hd
    have hsame := h.single hd
    rw [hone] at hsame
    exact List.singleton_inj.mp hsame

def PrintsAs (g : Graph) (p q : Property) : Prop :=
  p.name = q.name ∧ p.optional = q.optional ∧
    ∀ s, g.text p.type = .ok (.text s) ↔ g.text q.type = .ok (.text s)

theorem Condenses.forall₂_printsAs (hps : g.Condenses ps ds) (hqs : g.Condenses qs ds)
    (hps' : (ps.map Property.name).Nodup) (hqs' : (qs.map Property.name).Nodup) :
    List.Forall₂ g.PrintsAs ps qs := by
  have hnames : ps.map Property.name = qs.map Property.name := by
    rw [← eraseDups_eq_self hps', hps.names, ← hqs.names, eraseDups_eq_self hqs']
  have hsame : List.Forall₂ Eq (ps.map Property.name) (qs.map Property.name) := by
    rw [List.forall₂_eq_eq_eq]
    exact hnames
  have hzip : List.Forall₂ (fun p q : Property => p.name = q.name) ps qs := by
    simpa only [List.forall₂_map_left_iff, List.forall₂_map_right_iff] using hsame
  rw [List.forall₂_iff_zip] at hzip ⊢
  refine ⟨hzip.1, ?_⟩
  intro p q hpq
  obtain ⟨hp, hq⟩ := List.of_mem_zip hpq
  have hname := hzip.2 hpq
  obtain ⟨hpoptional, hptext, -⟩ := hps.of_mem hps' hp
  obtain ⟨hqoptional, hqtext, -⟩ := hqs.of_mem hqs' hq
  refine ⟨hname, ?_, ?_⟩
  · rw [hpoptional, hqoptional, hname]
  · intro s
    rw [hptext, hqtext, hname]

/-- An intersection has properties exactly if it comes to declarations. Every name that is declared
has one of them, in the order in which the names first occur; it is optional if all declarations of
the name are, and its type prints the texts of all their types. So it is only by these declarations
that the properties of intersections differ, not by how their members are nested. -/
theorem properties_merge_declarations (hkind : g.kind? h = some .intersection) :
    (∀ ps, g.properties h = .ok ps → ∃ ds, g.Gathers [h] ds) ∧
      ∀ ds, g.Gathers [h] ds → ∃ ps, g.properties h = .ok ps ∧
        ps.map Property.name = (ds.map Property.name).eraseDups ∧
        (ps.map Property.name).Nodup ∧
        (∀ p ∈ ps,
          (p.optional = true ↔ ∀ d ∈ declarationsOf ds p.name, d.optional = true) ∧
          (∀ s, g.text p.type = .ok (.text s) ↔
            g.IsJoinedText ((declarationsOf ds p.name).map Property.type) s) ∧
          ∀ d, declarationsOf ds p.name = [d] → p = d) ∧
        ∀ h', g.kind? h' = some .intersection → g.Gathers [h'] ds →
          ∃ qs, g.properties h' = .ok qs ∧ List.Forall₂ g.PrintsAs ps qs := by
  refine ⟨fun ps hps => exists_gathers hps, ?_⟩
  intro ds hds
  obtain ⟨ps, hps, hnodup, hcondenses⟩ := hds.exists_merged hkind
  refine ⟨ps, hps, ?_, hnodup, ?_, ?_⟩
  · rw [← hcondenses.names, eraseDups_eq_self hnodup]
  · intro p hp
    obtain ⟨hoptional, htext, hsingle⟩ := hcondenses.of_mem hnodup hp
    refine ⟨?_, htext, hsingle⟩
    rw [hoptional, List.all_eq_true]
  · intro h' hkind' hds'
    obtain ⟨qs, hqs, hnodup', hcondenses'⟩ := hds'.exists_merged hkind'
    exact ⟨qs, hqs, hcondenses.forall₂_printsAs hcondenses' hnodup hnodup'⟩

/-- Three objects that are grouped from the left and from the right. -/
def regrouped : Graph where
  doc := ⟨#[
    .mapping [(.text "kind", .text "intersection"), (.text "members", .node 1)],
    .list [.node 2, .node 8],
    .mapping [(.text "kind", .text "intersection"), (.text "members", .node 3)],
    .list [.node 4, .node 6],
    .mapping [(.text "kind", .text "object"), (.text "properties", .node 5)],
    .mapping [(.text "id", .node 10), (.text "a", .text "number")],
    .mapping [(.text "kind", .text "object"), (.text "properties", .node 7)],
    .mapping [(.text "b", .text "string"), (.text "id", .text "number")],
    .mapping [(.text "kind", .text "object"), (.text "properties", .node 9)],
    .mapping [(.text "id", .text "Id"), (.text "a", .text "bigint")],
    .mapping [(.text "type", .text "string"), (.text "optional", .bool true)],
    .mapping [(.text "kind", .text "intersection"), (.text "members", .node 12)],
    .list [.node 4, .node 13],
    .mapping [(.text "kind", .text "intersection"), (.text "members", .node 14)],
    .list [.node 6, .node 8]]⟩
  source := "<memory>"
  files := []
  declarations := []

def regroupedDeclarations : List Property :=
  [⟨"id", .leaf "string", true⟩, ⟨"a", .leaf "number", false⟩, ⟨"b", .leaf "string", false⟩,
    ⟨"id", .leaf "number", false⟩, ⟨"id", .leaf "Id", false⟩, ⟨"a", .leaf "bigint", false⟩]

theorem gathers_regrouped :
    regrouped.Gathers [.anonymous 0] regroupedDeclarations ∧
      regrouped.Gathers [.anonymous 11] regroupedDeclarations := by
  have hthird : regrouped.Gathers [.anonymous 8] _ := .object (by decide) (by cbv) .nil
  have hsecond : regrouped.Gathers [.anonymous 6] _ := .object (by decide) (by cbv) .nil
  have hfirst : regrouped.Gathers [.anonymous 4] _ := .object (by decide) (by cbv) .nil
  constructor
  · exact .intersection (by decide) (by cbv)
      (.intersection (by decide) (by cbv) (hfirst.append hsecond) hthird) .nil
  · exact .intersection (by decide) (by cbv)
      (hfirst.append (.intersection (by decide) (by cbv) (hsecond.append hthird) .nil)) .nil

/-- A name that all three objects declare. -/
theorem regrouped_merge_alike :
    ∃ ps qs, regrouped.properties (.anonymous 0) = .ok ps ∧
      regrouped.properties (.anonymous 11) = .ok qs ∧
      ps.map Property.name = ["id", "a", "b"] ∧
      (∀ p ∈ ps, p.name = "id" → p.optional = false ∧
        regrouped.text p.type = .ok (.text "string & number & Id")) ∧
      List.Forall₂ regrouped.PrintsAs ps qs := by
  obtain ⟨hleft, hright⟩ := gathers_regrouped
  have hkind : regrouped.kind? (.anonymous 0) = some .intersection := by decide
  obtain ⟨-, hmerge⟩ := properties_merge_declarations hkind
  obtain ⟨ps, hps, hnames, -, hall, hregrouped⟩ := hmerge _ hleft
  obtain ⟨qs, hqs, hprints⟩ := hregrouped (.anonymous 11) (by decide) hright
  refine ⟨ps, qs, hps, hqs, hnames.trans (by decide), ?_, hprints⟩
  intro p hp hname
  obtain ⟨hoptional, htext, -⟩ := hall p hp
  rw [hname] at hoptional htext
  constructor
  · rw [Bool.eq_false_iff, ne_eq, hoptional]
    intro hoptionals
    have hmem : ⟨"id", .leaf "number", false⟩ ∈ declarationsOf regroupedDeclarations "id" := by
      simp [declarationsOf, regroupedDeclarations]
    exact absurd (hoptionals _ hmem) (by decide)
  · rw [htext]
    refine ⟨["string", "number", "Id"], ?_, by decide⟩
    have htypes : (declarationsOf regroupedDeclarations "id").map Property.type =
        [.leaf "string", .leaf "number", .leaf "Id"] := rfl
    rw [htypes]
    simp only [List.mapM_cons, List.mapM_nil, text, textWithin_leaf]
    rfl

end Graph

end RouteCatalog
