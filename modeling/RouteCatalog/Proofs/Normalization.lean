import RouteCatalog.Graph.Normalization
import RouteCatalog.Proofs.Rendering

/-! Normalization ends with a text for every well-shaped type: it goes down level by level until it
falls back on the raw rendering, and the intersections that it makes on the way are well shaped. -/

namespace RouteCatalog

namespace Label

theorem yields_union (doc : Document) {labels : List Label} (h : ∀ l ∈ labels, l.IsText) :
    Yields (Label.union doc labels) IsText := by
  obtain ⟨texts, htexts⟩ := exists_mapM_toText_eq_ok h
  unfold Label.union
  rw [htexts]
  exact .pure (isText _)

theorem yields_intersection (doc : Document) {labels : List Label} (h : ∀ l ∈ labels, l.IsText) :
    Yields (Label.intersection doc labels) IsText := by
  obtain ⟨texts, htexts⟩ := exists_mapM_toText_eq_ok h
  unfold Label.intersection
  rw [htexts]
  exact .pure (isText _)

end Label

namespace Graph

variable {g : Graph} {h : Handle}

/-- A known generic is written with its arguments, and any other type as `rest` says. -/
def namedOr (g : Graph) (normalize : Handle → Except Fault Label) (h : Handle)
    (rest : Except Fault Label) : Except Fault Label := do
  let symbol ← g.symbol h
  match ← g.knownGeneric? symbol with
  | some name =>
    let arguments := (symbol.map (·.arguments)).getD []
    if arguments.isEmpty then return .text name
    else
      let labels ← arguments.mapM normalize
      return .text (name ++ "<" ++ (← Label.join ", " labels) ++ ">")
  | none => rest

theorem yields_allHandles {test : Handle → Except Fault Bool} {P : Handle → Prop}
    {hs : List Handle} (htest : ∀ e ∈ hs, Yields (test e) fun b => b = true → P e) :
    Yields (allHandles test hs) fun b => b = true → ∀ e ∈ hs, P e := by
  induction hs with
  | nil => exact .pure (by simp)
  | cons e rest ih =>
    refine (htest e List.mem_cons_self).bind fun b hb => ?_
    cases b with
    | false => exact .pure (by simp)
    | true =>
      refine (ih fun e' he' => htest e' (List.mem_cons_of_mem e he')).mono fun b' hb' htrue => ?_
      exact List.forall_mem_cons.mpr ⟨hb rfl, hb' htrue⟩

theorem yields_anyHandle {test : Handle → Except Fault Bool} {hs : List Handle}
    (htest : ∀ e ∈ hs, Yields (test e) fun _ => True) :
    Yields (anyHandle test hs) fun _ => True := by
  induction hs with
  | nil => exact .pure trivial
  | cons e rest ih =>
    refine (htest e List.mem_cons_self).bind fun b _ => ?_
    cases b with
    | false => exact ih fun e' he' => htest e' (List.mem_cons_of_mem e he')
    | true => exact .pure trivial

theorem exists_knownGeneric?_eq_ok {s : Option TypeSymbol}
    (hname : ∀ s' ∈ s, ∃ name, s'.name = .text name) : ∃ r, g.knownGeneric? s = .ok r := by
  cases s with
  | none => exact ⟨none, rfl⟩
  | some s =>
    obtain ⟨name, hname⟩ := hname s rfl
    exact ⟨_, by rw [knownGeneric?, hname]⟩

theorem exists_toChars_eq_ok (doc : Document) {l : Label} (h : l.IsText) :
    ∃ cs, l.toChars doc = .ok cs := by
  obtain ⟨s, rfl⟩ := h
  exact ⟨s.toList, rfl⟩

theorem yields_arrayOf (e : Handle) {inner : Label} (h : inner.IsText) :
    Yields (g.arrayOf e inner) Label.IsText := by
  obtain ⟨cs, hcs⟩ := exists_toChars_eq_ok g.doc h
  unfold arrayOf
  rw [hcs]
  change Yields (if _ then _ else if _ then _ else _) _
  split
  · exact .pure (Label.isText _)
  · split <;> exact .pure (Label.isText _)

theorem yields_objectLiteral {normalize : Handle → Except Fault Label} {ps : List Property}
    (hnormalize : ∀ p ∈ ps, Yields (normalize p.type) Label.IsText) :
    Yields (g.objectLiteral normalize ps) fun l => ∀ l' ∈ l, l'.IsText := by
  unfold objectLiteral
  refine (Yields.mapM (Q := fun _ => True) fun p hp => ?_).bind fun entries _ => ?_
  · exact (hnormalize p (List.mem_of_mem_filter hp)).bind fun _ _ => .pure trivial
  · split
    · exact .pure (by simp)
    · refine .pure fun l hl => ?_
      cases hl
      exact Label.isText _

section Sustained

theorem yields_isPlainObject (hask : g.IsAskable h) :
    Yields (g.isPlainObject h) fun b => b = true → g.kind? h = some .object := by
  unfold isPlainObject
  split
  · exact .pure (by simp)
  · rename_i hkind
    have hobject : g.kind? h = some .object := by simpa [isKind] using hkind
    obtain ⟨n, hn⟩ := hask.signatures hobject
    rw [hn]
    change Yields (if _ then _ else _) _
    split
    · exact .pure (by simp)
    · refine (yields_symbol hask).bind fun s hs => ?_
      obtain ⟨r, hr⟩ := exists_knownGeneric?_eq_ok (g := g) fun s' hs' => (hs.2 s' hs').1
      rw [hr]
      exact .pure fun _ => hobject

theorem yields_areMergeable {ms : List Handle} (hms : ∀ m ∈ ms, g.IsAskable m) :
    Yields (g.areMergeable ms) fun b => b = true → ∀ m ∈ ms, g.kind? m = some .object := by
  unfold areMergeable
  split
  · exact .pure (by simp)
  · refine (yields_allHandles fun m hm => yields_isPlainObject (hms m hm)).bind
      fun b hb => ?_
    cases b with
    | false => exact .pure (by simp)
    | true =>
      refine (yields_anyHandle fun m hm => ?_).mono fun _ _ _ => hb rfl
      exact (yields_properties_of_object (hms m hm) (hb rfl m hm)).bind fun _ _ => .pure trivial

variable {S : Handle → Prop} (hS : g.Sustains S) {normalize : Handle → Except Fault Label}
  (hnormalize : ∀ e, S e → Yields (normalize e) Label.IsText) (hs : S h)
include hS hnormalize hs

theorem yields_normalizeIntersection (hkind : g.kind? h = some .intersection) :
    Yields (g.normalizeIntersection normalize h) Label.IsText := by
  obtain ⟨ms, hms, hanswers⟩ := yields_members (hS.askable h hs)
  have hmembers : ∀ m ∈ ms, S m := fun m hm => hS.answers h m hs (hanswers m hm)
  have hliteral : Yields (g.mergedLiteral normalize h ms) fun l => ∀ l' ∈ l, l'.IsText := by
    refine (yields_areMergeable fun m hm => hS.askable m (hmembers m hm)).bind fun b hb => ?_
    cases b with
    | false => exact .pure (by simp)
    | true =>
      refine (yields_properties_of_objects hS hs hkind hms (hb rfl)).bind fun ps hps => ?_
      exact yields_objectLiteral fun p hp => hnormalize p.type (hps p hp)
  unfold normalizeIntersection
  rw [hms]
  refine hliteral.bind fun l hl => ?_
  cases l with
  | some merged => exact .pure (hl merged rfl)
  | none =>
    refine (Yields.mapM fun m hm => hnormalize m (hmembers m hm)).bind fun labels hlabels => ?_
    exact Label.yields_intersection g.doc hlabels

theorem yields_normalizeObject (d : Detector) (hkind : g.kind? h = some .object) :
    Yields (g.normalizeObject d normalize h) Label.IsText := by
  have hask := hS.askable h hs
  have hproperties : Yields (g.properties h) fun ps => ∀ p ∈ ps, S p.type :=
    (yields_properties_of_object hask hkind).mono fun ps hps p hp => hS.answers h _ hs (hps p hp)
  have hexpanded : Yields (d.expandedElement g h) fun e => ∀ e' ∈ e, S e' := by
    refine (yields_numberIndex hask).bind fun index hindex => ?_
    cases index with
    | none => exact .pure (by simp)
    | some index =>
      refine hproperties.bind fun ps _ => .pure fun e he => ?_
      obtain rfl : index = e := by
        split at he
        · exact Option.some.inj he
        · cases he
      exact hS.answers h index hs (hindex index rfl)
  unfold normalizeObject
  refine hexpanded.bind fun e he => ?_
  cases e with
  | some e => exact (hnormalize e (he e rfl)).bind fun _ _ => .pure (Label.isText _)
  | none =>
    refine (hS.yields_textWithin g.identities h hs).bind fun raw hraw => ?_
    obtain ⟨s, rfl⟩ := hraw
    change Yields (if _ then _ else _) _
    split
    · exact .pure (Label.isText s)
    · obtain ⟨n, hn⟩ := hask.signatures hkind
      rw [hn]
      change Yields (if _ then _ else _) _
      split
      · refine hproperties.bind fun ps hps => ?_
        refine (yields_objectLiteral fun p hp => hnormalize p.type (hps p hp)).bind fun l hl => ?_
        cases l with
        | some literal => exact .pure (hl literal rfl)
        | none => exact .pure (Label.isText s)
      · exact .pure (Label.isText s)

theorem yields_namedOr {rest : Except Fault Label} (hrest : Yields rest Label.IsText) :
    Yields (g.namedOr normalize h rest) Label.IsText := by
  refine (yields_symbol (hS.askable h hs)).bind fun symbol hsymbol => ?_
  obtain ⟨known, hknown⟩ := exists_knownGeneric?_eq_ok (g := g) fun s' hs' => (hsymbol.2 s' hs').1
  rw [hknown]
  change Yields (match known with | some _ => _ | none => _) _
  cases known with
  | none => exact hrest
  | some name =>
    have harguments : ∀ e ∈ (symbol.map (·.arguments)).getD [], S e := by
      cases symbol with
      | none => simp
      | some s => exact fun e he => hS.answers h e hs ((hsymbol.2 s rfl).2 e he)
    simp only
    split
    · exact .pure (Label.isText name)
    · exact yields_joined ", " (fun t => name ++ "<" ++ t ++ ">") fun e he =>
        hnormalize e (harguments e he)

theorem yields_normalizeNode (d : Detector) :
    Yields (g.normalizeNode d normalize h) Label.IsText := by
  have hask := hS.askable h hs
  have hanswer : ∀ e, g.Answers h e → Yields (normalize e) Label.IsText := fun e he =>
    hnormalize e (hS.answers h e hs he)
  have htext := hS.yields_textWithin g.identities h hs
  obtain ⟨kind, hkind⟩ := Option.isSome_iff_exists.mp hask.kind
  unfold normalizeNode
  rw [hkind]
  cases kind with
  | array =>
    refine (yields_element hask).bind fun e he => ?_
    cases e with
    | none => exact .pure (Label.isText _)
    | some e => exact (hanswer e (he e rfl)).bind fun inner hinner => yields_arrayOf e hinner
  | tuple =>
    refine (yields_elements hask).bind fun es hes => ?_
    exact yields_joined ", " (fun s => "[" ++ s ++ "]") fun e he => hanswer e (hes e he)
  | union =>
    refine (yields_members hask).bind fun es hes => ?_
    refine (Yields.mapM fun e he => hanswer e (hes e he)).bind fun labels hlabels => ?_
    exact Label.yields_union g.doc hlabels
  | intersection => exact yields_normalizeIntersection hS hnormalize hs hkind
  | primitive => exact yields_namedOr hS hnormalize hs htext
  | reference => exact yields_namedOr hS hnormalize hs htext
  | object =>
    exact yields_namedOr hS hnormalize hs
      (yields_normalizeObject hS hnormalize hs d hkind)

omit hnormalize hs in
theorem Sustains.yields_normalizeWithin (d : Detector) (levels : Nat) :
    ∀ h, S h → Yields (g.normalizeWithin d levels h) Label.IsText := by
  induction levels with
  | zero => exact hS.yields_textWithin g.identities
  | succ levels ih => exact fun h hs => yields_normalizeNode hS ih hs d

end Sustained

theorem yields_normalizeWithin (hacyclic : g.HasAcyclicAliases) (d : Detector) (levels : Nat) :
    ∀ h, g.WellShapedFrom h → Yields (g.normalizeWithin d levels h) Label.IsText :=
  (sustains_wellShapedFrom hacyclic).yields_normalizeWithin d levels

/-- Whatever cycles the nodes form, raw rendering and normalization end with a text, at every
depth. Raw rendering prints `any` exactly for the handles that are being rendered further up. -/
theorem text_and_normalize_end (hacyclic : g.HasAcyclicAliases) (hs : g.WellShapedFrom h) :
    (∃ s, g.text h = .ok (.text s)) ∧
      (∀ (n : Normalizer) (depth : Int), ∃ s, n.normalize g h depth = .ok (.text s)) ∧
      g.text h = g.textUnder [] h ∧ g.CutsAtRepetition g.textUnder := by
  refine ⟨?_, fun n depth => ?_, rfl, cutsAtRepetition_textUnder⟩
  · obtain ⟨l, hl, s, rfl⟩ := yields_textWithin hacyclic g.identities h hs
    exact ⟨s, hl⟩
  · obtain ⟨l, hl, s, rfl⟩ := yields_normalizeWithin hacyclic n.detector (n.levels depth) h hs
    exact ⟨s, hl⟩

/-- An intersection that contains itself and an object whose property is the intersection. -/
def knotted : Graph where
  doc := ⟨#[
    .mapping [(.text "kind", .text "intersection"), (.text "members", .node 1)],
    .list [.node 0, .node 2],
    .mapping [(.text "kind", .text "object"), (.text "properties", .node 3)],
    .mapping [(.text "self", .node 0)]]⟩
  source := "<memory>"
  files := []
  declarations := []

set_option maxRecDepth 100000 in
theorem knotted_ends :
    knotted.HasAcyclicAliases ∧ knotted.WellShapedFrom (.anonymous 0) ∧
      (∃ s, knotted.text (.anonymous 0) = .ok (.text s)) ∧
      (∀ (n : Normalizer) (depth : Int),
        ∃ s, n.normalize knotted (.anonymous 0) depth = .ok (.text s)) ∧
      knotted.text (.anonymous 0) = .ok (.text "any & \x7b self: any \x7d") := by
  have hacyclic := hasAcyclicAliases_of_no_declarations (g := knotted) rfl
  have hs : knotted.WellShapedFrom (.anonymous 0) := by
    refine wellShapedFrom_of_closed [.anonymous 0, .anonymous 2] (by simp) ?_ ?_
    · simp only [List.forall_mem_cons]
      decide
    · have h0 : knotted.partsOf (.anonymous 0) = [.anonymous 0, .anonymous 2] := rfl
      have h2 : knotted.partsOf (.anonymous 2) = [.anonymous 0] := rfl
      simp [h0, h2]
  obtain ⟨htext, hnormalize, -, -⟩ := text_and_normalize_end hacyclic hs
  exact ⟨hacyclic, hs, htext, hnormalize, by cbv⟩

end Graph

end RouteCatalog
