import RouteCatalog.Proofs.Expression
import RouteCatalog.Proofs.Normalization

/-! What an intersection shows of its members. Objects that are merged are shown by their properties
only, so that one without a property that can be written is lost, whatever name or text it goes by.
Members that are joined are all shown, except for empty objects. -/

namespace RouteCatalog

open TypeExpr

def Property.isWritten (p : Property) : Bool := !symbolMark.toList.isPrefixOf p.name.toList

namespace Label

theorem exists_mem_distinct {labels : List Label} {l : Label} (h : l ∈ labels) :
    ∃ k ∈ distinct labels, k = l ∨ k.same l = true := by
  have hkept (labels kept : List Label) (h : l ∈ labels ∨ ∃ k ∈ kept, k = l ∨ k.same l = true) :
      ∃ k ∈ labels.foldl (fun kept l => if kept.any (·.same l) then kept else kept ++ [l]) kept,
        k = l ∨ k.same l = true := by
    induction labels generalizing kept with
    | nil => exact h.resolve_left List.not_mem_nil
    | cons first labels ih =>
      rw [List.foldl_cons]
      apply ih
      rcases h with hmem | ⟨k, hk, hsame⟩
      · rcases List.mem_cons.mp hmem with rfl | hmem
        · right
          split_ifs with hany
          · obtain ⟨k, hk, hsame⟩ := List.any_eq_true.mp hany
            exact ⟨k, hk, .inr hsame⟩
          · exact ⟨l, by simp, .inl rfl⟩
        · exact .inl hmem
      · right
        split_ifs
        · exact ⟨k, hk, hsame⟩
        · exact ⟨k, List.mem_append_left _ hk, hsame⟩
  exact hkept labels [] (.inl h)

/-- An intersection that prints a text joins texts. A bare label could only be left alone, and then
it would be printed itself. -/
theorem exists_of_intersection {doc : Document} {labels : List Label} {t : String}
    (h : Label.intersection doc labels = .ok (.text t)) :
    ∃ parts, labels = parts.map .text ∧ t = joinIntersection parts := by
  unfold Label.intersection at h
  split at h
  · rename_i parts hparts
    cases h
    exact ⟨parts, mapM_toText_eq_ok_iff.mp hparts, rfl⟩
  · rename_i e hnone
    obtain ⟨name, hname⟩ : ∃ name, Label.bare name ∈ labels := by
      by_contra hno
      have htexts : ∀ l ∈ labels, l.IsText := by
        intro l hl
        cases l with
        | text s => exact isText s
        | bare name => exact (hno ⟨name, hl⟩).elim
      obtain ⟨parts, hparts⟩ := exists_mapM_toText_eq_ok htexts
      rw [hparts] at hnone
      cases hnone
    have hkept : Label.bare name ∈ labels.filter (!·.isEmptyObject) :=
      List.mem_filter.mpr ⟨hname, rfl⟩
    obtain ⟨k, hk, hsame⟩ := exists_mem_distinct hkept
    unfold joinBare at h
    split_ifs at h
    split at h
    · rename_i l hone
      cases h
      rw [hone, List.mem_singleton] at hk
      subst hk
      rcases hsame with hsame | hsame <;> cases hsame
    · cases h

end Label

namespace Graph

variable {g : Graph} {n : Normalizer} {h m : Handle} {ms : List Handle} {depth : Int}

/-- An object that can be merged: it is no function and does not go by the name of a known
generic. -/
structure IsPlainObject (g : Graph) (h : Handle) : Prop where
  kind : g.kind? h = some .object
  signatures : g.callSignatures h = .ok 0
  name : ∀ name ∈ h.name?, name ∉ knownGenerics

def AreMerged (g : Graph) (ms : List Handle) : Prop :=
  (∀ m ∈ ms, g.IsPlainObject m) ∧
    ∃ m ∈ ms, ∃ ps, g.properties m = .ok ps ∧ ∃ p ∈ ps, p.isWritten = true

/-- How an intersection is written: as one object with an entry for every property, or as operands
with an operator between them. -/
inductive IntersectionForm where
  | literal (entries : List (Property × String))
  | operands (parts : List String)

namespace IntersectionForm

def entryText (e : Property × String) : String :=
  formatKey e.1.name ++ (if e.1.optional then "?" else "") ++ ": " ++ e.2

def text : IntersectionForm → String
  | literal entries => "\x7b " ++ "; ".intercalate (entries.map entryText) ++ " \x7d"
  | operands [] => emptyObject
  | operands parts => joinOperands " & " parts

/-- A member is shown by an entry for one of its properties, or by its own expression. -/
def Shows (g : Graph) (n : Normalizer) (depth : Int) (m : Handle) : IntersectionForm → Prop
  | literal entries => ∃ ps, g.properties m = .ok ps ∧ ∃ p ∈ ps, ∃ e ∈ entries, e.1.name = p.name
  | operands parts => ∃ s, n.normalize g m (depth + 1) = .ok (.text s) ∧ s ∈ parts

theorem text_operands (parts : List String) :
    (operands (intersectionMembers parts)).text = joinIntersection parts := by
  unfold joinIntersection text
  split <;> split <;> simp_all

end IntersectionForm

/-- The form of an intersection at a depth, given its members. -/
inductive IsWrittenAs (g : Graph) (n : Normalizer) (h : Handle) (ms : List Handle) (depth : Int) :
    IntersectionForm → Prop where
  | literal {ps : List Property} {entries : List (Property × String)} :
      g.AreMerged ms → g.properties h = .ok ps →
      entries.map Prod.fst = ps.filter Property.isWritten →
      (∀ e ∈ entries, ∃ l, n.normalize g e.1.type (depth + 1) = .ok l ∧ l.spliced g.doc = e.2) →
      IsWrittenAs g n h ms depth (.literal entries)
  | operands {parts : List String} :
      ¬ g.AreMerged ms → ms.mapM (n.normalize g · (depth + 1)) = .ok (parts.map .text) →
      IsWrittenAs g n h ms depth (.operands (intersectionMembers parts))

section Mergeable

theorem isPlainObject_iff : g.isPlainObject h = .ok true ↔ g.IsPlainObject h := by
  by_cases hkind : g.kind? h = some .object
  · have htest : g.isPlainObject h = g.callSignatures h >>= fun count =>
        if count ≠ 0 then .ok false
        else g.symbol h >>= fun s => (g.knownGeneric? s).map (·.isNone) := by
      unfold isPlainObject
      rw [isKind, hkind]
      rfl
    have hgeneric : g.symbol h >>= (fun s => (g.knownGeneric? s).map (·.isNone)) =
        .ok (decide (∀ name ∈ h.name?, name ∉ knownGenerics)) := by
      rw [symbol_of_object hkind]
      cases h.name? with
      | none => rfl
      | some name =>
        by_cases hname : name ∈ knownGenerics <;>
          simp [hname, knownGeneric?, bind, Except.bind, Except.map]
    rw [htest, hgeneric, bind_eq_ok_iff]
    constructor
    · rintro ⟨count, hcount, htrue⟩
      split_ifs at htrue with hcalled
      · cases htrue
      · obtain rfl : count = 0 := not_not.mp hcalled
        exact ⟨hkind, hcount, by simpa using htrue⟩
    · intro hplain
      refine ⟨0, hplain.signatures, ?_⟩
      simpa using hplain.name
  · constructor
    · intro htrue
      unfold isPlainObject at htrue
      rw [isKind, beq_eq_false_iff_ne.mpr hkind] at htrue
      cases htrue
    · intro hplain
      exact (hkind hplain.kind).elim

theorem allHandles_iff {test : Handle → Except Fault Bool} {b : Bool}
    (hb : allHandles test ms = .ok b) : b = true ↔ ∀ m ∈ ms, test m = .ok true := by
  induction ms generalizing b with
  | nil =>
    cases hb
    simp
  | cons m ms ih =>
    obtain ⟨first, hfirst, hb⟩ := bind_eq_ok_iff.mp hb
    rw [List.forall_mem_cons, hfirst]
    cases first with
    | false =>
      cases hb
      simp
    | true => simpa using ih hb

theorem anyHandle_iff {test : Handle → Except Fault Bool} {b : Bool}
    (hb : anyHandle test ms = .ok b) : b = true ↔ ∃ m ∈ ms, test m = .ok true := by
  induction ms generalizing b with
  | nil =>
    cases hb
    simp
  | cons m ms ih =>
    obtain ⟨first, hfirst, hb⟩ := bind_eq_ok_iff.mp hb
    rw [List.exists_mem_cons_iff, hfirst]
    cases first with
    | true =>
      cases hb
      simp
    | false => simpa using ih hb

/-- Merging objects neither adds names nor leaves any out. -/
theorem exists_name_iff {ps : List Property} (hkind : g.kind? h = some .intersection)
    (hms : g.members h = .ok ms) (hobjects : ∀ m ∈ ms, g.kind? m = some .object)
    (hps : g.properties h = .ok ps) (name : String) :
    (∃ p ∈ ps, p.name = name) ↔
      ∃ m ∈ ms, ∃ qs, g.properties m = .ok qs ∧ ∃ q ∈ qs, q.name = name := by
  rw [properties_of_objects hkind hms hobjects] at hps
  obtain ⟨all, hall, rfl⟩ := map_eq_ok_iff.mp hps
  have hmerged : (∃ p ∈ mergeAll all, p.name = name) ↔ ∃ q ∈ all.flatten, q.name = name := by
    rw [← List.mem_map, mergeAll, Property.names_merge, List.mem_eraseDups, List.mem_map]
  rw [hmerged]
  constructor
  · rintro ⟨q, hq, hname⟩
    obtain ⟨qs, hqs, hmem⟩ := List.mem_flatten.mp hq
    obtain ⟨m, hm, hmqs⟩ := exists_of_mem_mapM hall hqs
    exact ⟨m, hm, qs, hmqs, q, hmem, hname⟩
  · rintro ⟨m, hm, qs, hqs, q, hq, hname⟩
    obtain ⟨qs', hmem, hqs'⟩ := exists_mem_of_mapM hall hm
    rw [hqs] at hqs'
    cases hqs'
    exact ⟨q, List.mem_flatten.mpr ⟨qs, hmem, hq⟩, hname⟩

/-- Members are merged if they all are plain objects and the intersection has a property that can be
written. -/
theorem areMerged_iff {ps : List Property} (hkind : g.kind? h = some .intersection)
    (hms : g.members h = .ok ms) (hplain : ∀ m ∈ ms, g.IsPlainObject m)
    (hps : g.properties h = .ok ps) :
    g.AreMerged ms ↔ ps.filter Property.isWritten ≠ [] := by
  have hname := exists_name_iff hkind hms (fun m hm => (hplain m hm).kind) hps
  rw [ne_eq, List.filter_eq_nil_iff]
  push Not
  constructor
  · rintro ⟨-, m, hm, qs, hqs, q, hq, hwritten⟩
    obtain ⟨p, hp, heq⟩ := (hname q.name).mpr ⟨m, hm, qs, hqs, q, hq, rfl⟩
    refine ⟨p, hp, ?_⟩
    rw [Property.isWritten, heq]
    exact hwritten
  · rintro ⟨p, hp, hwritten⟩
    obtain ⟨m, hm, qs, hqs, q, hq, heq⟩ := (hname p.name).mp ⟨p, hp, rfl⟩
    refine ⟨hplain, m, hm, qs, hqs, q, hq, ?_⟩
    rw [Property.isWritten, heq]
    exact hwritten

theorem areMergeable_cases {b : Bool} (hmany : 2 ≤ ms.length) (hb : g.areMergeable ms = .ok b) :
    (b = true ∧ ∀ m ∈ ms, g.IsPlainObject m) ∨ b = false ∧ ¬ g.AreMerged ms := by
  unfold areMergeable at hb
  rw [if_neg (by omega)] at hb
  obtain ⟨all, hall, hb⟩ := bind_eq_ok_iff.mp hb
  have hplain : all = true ↔ ∀ m ∈ ms, g.IsPlainObject m := by
    simpa only [isPlainObject_iff] using allHandles_iff hall
  cases all with
  | false =>
    cases hb
    right
    refine ⟨rfl, ?_⟩
    intro hmerged
    exact Bool.false_ne_true (hplain.mpr hmerged.1)
  | true =>
    cases b with
    | true => exact .inl ⟨rfl, hplain.mp rfl⟩
    | false =>
      right
      refine ⟨rfl, ?_⟩
      rintro ⟨-, m, hm, ps, hps, p, hp, -⟩
      -- The property that can be written is one property.
      refine Bool.false_ne_true ((anyHandle_iff hb).mpr ⟨m, hm, ?_⟩)
      rw [hps]
      cases ps with
      | nil => cases hp
      | cons q ps => rfl

end Mergeable

section Written

theorem exists_entries {normalize : Handle → Except Fault Label} {ps : List Property}
    {texts : List String}
    (h : List.Forall₂ (fun p text => (do
      let label ← normalize p.type
      return formatKey p.name ++ (if p.optional then "?" else "") ++ ": " ++ label.spliced g.doc) =
        Except.ok text) ps texts) :
    ∃ entries : List (Property × String), entries.map Prod.fst = ps ∧
      (∀ e ∈ entries, ∃ label, normalize e.1.type = .ok label ∧ label.spliced g.doc = e.2) ∧
      texts = entries.map IntersectionForm.entryText := by
  induction h with
  | nil => exact ⟨[], rfl, by simp, rfl⟩
  | @cons p text ps texts htext _ ih =>
    obtain ⟨entries, hfst, hentries, htexts⟩ := ih
    obtain ⟨label, hlabel, heq⟩ := bind_eq_ok_iff.mp htext
    cases heq
    refine ⟨(p, label.spliced g.doc) :: entries, ?_, ?_, ?_⟩
    · rw [List.map_cons, hfst]
    · exact List.forall_mem_cons.mpr ⟨⟨label, hlabel, rfl⟩, hentries⟩
    · rw [htexts]
      rfl

theorem exists_of_objectLiteral {normalize : Handle → Except Fault Label} {ps : List Property}
    {l : Option Label} (hl : g.objectLiteral normalize ps = .ok l) :
    ∃ entries : List (Property × String),
      entries.map Prod.fst = ps.filter Property.isWritten ∧
      (∀ e ∈ entries, ∃ label, normalize e.1.type = .ok label ∧ label.spliced g.doc = e.2) ∧
      l = if entries = [] then none else some (.text (IntersectionForm.literal entries).text) := by
  obtain ⟨texts, htexts, hl⟩ := bind_eq_ok_iff.mp hl
  obtain ⟨entries, hfst, hentries, rfl⟩ := exists_entries (mapM_eq_ok_iff.mp htexts)
  refine ⟨entries, hfst, hentries, ?_⟩
  cases entries <;> cases hl <;> rfl

theorem exists_form (hdepth : depth ≤ n.maxDepth) (hkind : g.kind? h = some .intersection)
    (hms : g.members h = .ok ms) (hmany : 2 ≤ ms.length) {t : String}
    (ht : n.normalize g h depth = .ok (.text t)) :
    ∃ form, g.IsWrittenAs n h ms depth form ∧ form.text = t := by
  rw [Normalizer.normalize_of_le hdepth] at ht
  unfold normalizeNode at ht
  rw [hkind] at ht
  obtain ⟨ms', hms', ht⟩ := bind_eq_ok_iff.mp ht
  rw [hms] at hms'
  cases hms'
  obtain ⟨literal, hliteral, ht⟩ := bind_eq_ok_iff.mp ht
  obtain ⟨b, hb, hliteral⟩ := bind_eq_ok_iff.mp hliteral
  have hjoined (hnot : ¬ g.AreMerged ms) (hnone : literal = none) :
      ∃ form, g.IsWrittenAs n h ms depth form ∧ form.text = t := by
    subst hnone
    obtain ⟨labels, hlabels, ht⟩ := bind_eq_ok_iff.mp ht
    obtain ⟨parts, rfl, rfl⟩ := Label.exists_of_intersection ht
    exact ⟨_, .operands hnot hlabels, IntersectionForm.text_operands parts⟩
  rcases areMergeable_cases hmany hb with ⟨rfl, hplain⟩ | ⟨rfl, hnot⟩
  · obtain ⟨ps, hps, hliteral⟩ := bind_eq_ok_iff.mp hliteral
    obtain ⟨entries, hfst, hentries, heq⟩ := exists_of_objectLiteral hliteral
    have hmerged := areMerged_iff hkind hms hplain hps
    rw [← hfst, ne_eq, List.map_eq_nil_iff] at hmerged
    split_ifs at heq with hnil
    · exact hjoined (fun hyes => hmerged.mp hyes hnil) heq
    · subst heq
      cases ht
      exact ⟨_, .literal (hmerged.mpr hnil) hps hfst hentries, rfl⟩
  · cases hliteral
    exact hjoined hnot rfl

/-- A member that prints more than an empty object is shown, unless members are merged and it has no
property that can be written. -/
theorem IsWrittenAs.shows_iff {form : IntersectionForm} {s : String}
    (hform : g.IsWrittenAs n h ms depth form) (hkind : g.kind? h = some .intersection)
    (hms : g.members h = .ok ms) (hm : m ∈ ms)
    (hs : n.normalize g m (depth + 1) = .ok (.text s)) (hne : s ≠ emptyObject) :
    form.Shows g n depth m ↔ ¬ g.AreMerged ms ∨
      ∃ ps, g.properties m = .ok ps ∧ ∃ p ∈ ps, p.isWritten = true := by
  cases hform with
  | @literal ps entries hmerged hps hfst hentries =>
    have hname := exists_name_iff hkind hms (fun m hm => (hmerged.1 m hm).kind) hps
    have hentry (name : String) : (∃ e ∈ entries, e.1.name = name) ↔
        ∃ p ∈ ps.filter Property.isWritten, p.name = name := by
      rw [← hfst]
      simp
    rw [or_iff_right (not_not.mpr hmerged)]
    constructor
    · rintro ⟨qs, hqs, q, hq, hshown⟩
      obtain ⟨p, hp, heq⟩ := (hentry q.name).mp hshown
      refine ⟨qs, hqs, q, hq, ?_⟩
      rw [Property.isWritten, ← heq]
      exact (List.mem_filter.mp hp).2
    · rintro ⟨qs, hqs, q, hq, hwritten⟩
      obtain ⟨p, hp, heq⟩ := (hname q.name).mpr ⟨m, hm, qs, hqs, q, hq, rfl⟩
      refine ⟨qs, hqs, q, hq, (hentry q.name).mpr ⟨p, List.mem_filter.mpr ⟨hp, ?_⟩, heq⟩⟩
      rw [Property.isWritten, heq]
      exact hwritten
  | @operands parts hnot hparts =>
    refine iff_of_true ⟨s, hs, ?_⟩ (.inl hnot)
    obtain ⟨label, hlabel, hs'⟩ := exists_mem_of_mapM hparts hm
    obtain ⟨part, hpart, rfl⟩ := List.mem_map.mp hlabel
    rw [hs] at hs'
    cases hs'
    exact List.mem_eraseDups.mpr (List.mem_filter.mpr ⟨hpart, by simpa using hne⟩)

end Written

/-- An intersection is written as one object or as operands. Every member that prints more than an
empty object is shown if it has a property that can be written or if members are not merged, and
only then: what else is known of a member that is merged, its name or the text it goes by, is lost.
A well-shaped intersection is always written. -/
theorem member_is_shown_iff (hdepth : depth ≤ n.maxDepth) (hkind : g.kind? h = some .intersection)
    (hms : g.members h = .ok ms) (hmany : 2 ≤ ms.length) :
    (∀ t, n.normalize g h depth = .ok (.text t) →
      ∃ form, g.IsWrittenAs n h ms depth form ∧ form.text = t) ∧
    (∀ form, g.IsWrittenAs n h ms depth form → ∀ m ∈ ms, ∀ s,
      n.normalize g m (depth + 1) = .ok (.text s) → s ≠ emptyObject →
        (form.Shows g n depth m ↔ ¬ g.AreMerged ms ∨
          ∃ ps, g.properties m = .ok ps ∧ ∃ p ∈ ps, p.isWritten = true)) ∧
    (g.HasAcyclicAliases → g.WellShapedFrom h → ∃ t, n.normalize g h depth = .ok (.text t)) := by
  refine ⟨fun t ht => exists_form hdepth hkind hms hmany ht, ?_, ?_⟩
  · intro form hform m hm s hs hne
    exact hform.shows_iff hkind hms hm hs hne
  · intro hacyclic hshape
    obtain ⟨l, hl, t, rfl⟩ := yields_normalizeWithin hacyclic n.detector (n.levels depth) h hshape
    exact ⟨t, hl⟩

/-- An object with a property and one that is known by its name only. -/
def branding : Graph where
  doc := ⟨#[
    .mapping [(.text "kind", .text "intersection"), (.text "members", .node 1)],
    .list [.node 2, .text "Brand"],
    .mapping [(.text "kind", .text "object"), (.text "properties", .node 3)],
    .mapping [(.text "a", .text "string")],
    .mapping [(.text "kind", .text "object")]]⟩
  source := "<memory>"
  files := []
  declarations := [(.text "Brand", .node 4)]

theorem brand_is_lost :
    Normalizer.normalize ⟨.default, 10⟩ branding (.anonymous 0) 0 = .ok (.text "\x7b a: string \x7d") ∧
      branding.members (.anonymous 0) = .ok [.anonymous 2, .declared "Brand" (.node 4)] ∧
      Normalizer.normalize ⟨.default, 10⟩ branding (.declared "Brand" (.node 4)) 1 =
        .ok (.text "Brand") ∧
      ∃ form, branding.IsWrittenAs ⟨.default, 10⟩ (.anonymous 0)
          [.anonymous 2, .declared "Brand" (.node 4)] 0 form ∧
        form.text = "\x7b a: string \x7d" ∧
        ¬ form.Shows branding ⟨.default, 10⟩ 0 (.declared "Brand" (.node 4)) := by
  have hkind : branding.kind? (.anonymous 0) = some .intersection := by decide
  have hms : branding.members (.anonymous 0) = .ok [.anonymous 2, .declared "Brand" (.node 4)] := by
    cbv
  have hplain : ∀ m ∈ [.anonymous 2, .declared "Brand" (.node 4)], branding.IsPlainObject m := by
    simp only [List.forall_mem_cons]
    exact ⟨⟨by decide, rfl, by decide⟩, ⟨by decide, rfl, by decide⟩, by simp⟩
  have hfirst : branding.properties (.anonymous 2) = .ok [⟨"a", .leaf "string", false⟩] :=
    (propertiesWithin_of_object (by decide)).trans rfl
  have hsecond : branding.properties (.declared "Brand" (.node 4)) = .ok [] :=
    (propertiesWithin_of_object (by decide)).trans rfl
  have hproperties : branding.properties (.anonymous 0) =
      .ok [⟨"a", .leaf "string", false⟩] := by
    rw [properties_of_objects hkind hms fun m hm => (hplain m hm).kind]
    simp only [List.mapM_cons, List.mapM_nil, hfirst, hsecond]
    rfl
  have hmergeable : branding.areMergeable
      [.anonymous 2, .declared "Brand" (.node 4)] = .ok true := by
    have hanonymous := isPlainObject_iff.mpr (hplain (.anonymous 2) (by simp))
    have hnamed := isPlainObject_iff.mpr (hplain (.declared "Brand" (.node 4)) (by simp))
    unfold areMergeable
    simp only [allHandles, anyHandle, hanonymous, hnamed, hfirst]
    rfl
  have hliteral (n : Normalizer) : branding.mergedLiteral (n.normalize branding · (0 + 1))
      (.anonymous 0) [.anonymous 2, .declared "Brand" (.node 4)] =
        .ok (some (.text "\x7b a: string \x7d")) := by
    rw [mergedLiteral, hmergeable, hproperties]
    change branding.objectLiteral (n.normalize branding · (0 + 1)) _ = _
    have hfilter : [(⟨"a", .leaf "string", false⟩ : Property)].filter
        (fun p => !symbolMark.toList.isPrefixOf p.name.toList) = [⟨"a", .leaf "string", false⟩] :=
      rfl
    simp only [objectLiteral, hfilter, List.mapM_cons, List.mapM_nil, normalize_leaf]
    rfl
  have hwritten : Normalizer.normalize ⟨.default, 10⟩ branding (.anonymous 0) 0 =
      .ok (.text "\x7b a: string \x7d") :=
    normalize_of_merged (by decide) hkind hms (hliteral _)
  have hbrand : Normalizer.normalize ⟨.default, 10⟩ branding (.declared "Brand" (.node 4)) 1 =
      .ok (.text "Brand") := by
    apply normalize_of_clean (by decide) (by decide) (by decide) rfl
    · exact textWithin_of_name (by cbv) rfl
    · decide +kernel
  have hdepth : 0 ≤ (⟨.default, 10⟩ : Normalizer).maxDepth := by decide
  obtain ⟨hforms, hshown, -⟩ := member_is_shown_iff hdepth hkind hms (by decide)
  obtain ⟨form, hform, htext⟩ := hforms _ hwritten
  refine ⟨hwritten, hms, hbrand, form, hform, htext, ?_⟩
  rw [hshown form hform _ (by simp) _ hbrand (by decide), not_or, not_not]
  constructor
  · exact ⟨hplain, .anonymous 2, by simp, _, hfirst, _, List.mem_singleton_self _, by decide⟩
  · rintro ⟨ps, hps, p, hp, -⟩
    rw [hsecond] at hps
    cases hps
    cases hp

end Graph

end RouteCatalog
