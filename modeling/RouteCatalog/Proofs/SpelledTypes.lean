import RouteCatalog.Proofs.Rendering

/-! Types that are spelled out. A type prints an overriding text, its name, `any` where it is met
again inside its own rendering, or what its node says; a node's text is put together from the texts
of the parts that its kind prints. -/

namespace RouteCatalog

theorem mem_zipWith_of_mapM {α β γ ε : Type} {f : α → Except ε β} {k : α → β → γ} {as : List α}
    {bs : List β} {a : α} {b : β} (h : as.mapM f = .ok bs) (ha : a ∈ as) (hb : f a = .ok b) :
    k a b ∈ List.zipWith k as bs := by
  rw [mapM_eq_ok_iff] at h
  induction h with
  | nil => cases ha
  | cons hfirst _ ih =>
    rw [List.zipWith_cons_cons]
    rcases List.mem_cons.mp ha with rfl | ha
    · cases hfirst.symm.trans hb
      exact List.mem_cons_self
    · exact List.mem_cons_of_mem _ (ih ha)

theorem exists_of_mem_zipWith {α β γ ε : Type} {f : α → Except ε β} {k : α → β → γ} {as : List α}
    {bs : List β} {c : γ} (h : as.mapM f = .ok bs) (hc : c ∈ List.zipWith k as bs) :
    ∃ a ∈ as, ∃ b, f a = .ok b ∧ c = k a b := by
  rw [mapM_eq_ok_iff] at h
  induction h with
  | nil => cases hc
  | cons hfirst _ ih =>
    rw [List.zipWith_cons_cons] at hc
    rcases List.mem_cons.mp hc with rfl | hc
    · exact ⟨_, List.mem_cons_self, _, hfirst, rfl⟩
    · obtain ⟨a, ha, b, hb, heq⟩ := ih hc
      exact ⟨a, List.mem_cons_of_mem _ ha, b, hb, heq⟩

/-- The handles that are free while the parts of a handle are rendered. -/
def Handle.freeInside (h : Handle) (free : List Identity) : List Identity :=
  match h.identity? with
  | some i => free.erase i
  | none => free

namespace Graph

/-- A handle prints what its node says. -/
structure IsSpelledOut (g : Graph) (free : List Identity) (h : Handle) : Prop where
  override : g.field? h "text" = none
  name : h.name? = none
  free : ∀ i ∈ h.identity?, i ∈ free

/-- The types whose texts the text of a node is put together from. -/
inductive Prints (g : Graph) (h : Handle) : Handle → Prop where
  | element {e : Handle} : g.kind? h = some .array → g.element h = .ok (some e) → Prints g h e
  | inTuple {e : Handle} {es : List Handle} :
      g.kind? h = some .tuple → g.elements h = .ok es → e ∈ es → Prints g h e
  | member {e : Handle} {es : List Handle} :
      g.kind? h = some .union ∨ g.kind? h = some .intersection →
        g.members h = .ok es → e ∈ es → Prints g h e
  | argument {e : Handle} {es : List Handle} :
      g.kind? h = some .reference → g.several h "args" = .ok es → e ∈ es → Prints g h e
  | property {p : Property} {ps : List Property} :
      g.kind? h = some .object → g.properties h = .ok ps → p ∈ ps → Prints g h p.type

def entryText (g : Graph) (p : Property) (l : Label) : String :=
  TypeExpr.rawKey p.name ++ (if p.optional then "?" else "") ++ ": " ++ l.spliced g.doc

/-- The labels that a node can have, given how its parts are rendered. -/
inductive IsRenderedAs (g : Graph) (render : Handle → Except Fault Label) (h : Handle) :
    Label → Prop where
  | value : g.kind? h = some .primitive →
      IsRenderedAs g render h (.text (((g.field? h "value").map g.doc.display).getD "unknown"))
  | openArray : g.kind? h = some .array → g.element h = .ok none →
      IsRenderedAs g render h (.text "unknown[]")
  | array {e : Handle} {l : Label} {s : String} :
      g.kind? h = some .array → g.element h = .ok (some e) → render e = .ok l →
        s = "(" ++ l.spliced g.doc ++ ")[]" ∨ s = l.spliced g.doc ++ "[]" →
        IsRenderedAs g render h (.text s)
  | tuple {es : List Handle} {texts : List String} :
      g.kind? h = some .tuple → g.elements h = .ok es →
        es.mapM render = .ok (texts.map .text) →
        IsRenderedAs g render h (.text ("[" ++ ", ".intercalate texts ++ "]"))
  | union {es : List Handle} {texts : List String} :
      g.kind? h = some .union → g.members h = .ok es → es.mapM render = .ok (texts.map .text) →
        IsRenderedAs g render h (.text (" | ".intercalate texts))
  | intersection {es : List Handle} {texts : List String} :
      g.kind? h = some .intersection → g.members h = .ok es →
        es.mapM render = .ok (texts.map .text) →
        IsRenderedAs g render h (.text (" & ".intercalate texts))
  | name {v : Value} : g.kind? h = some .reference → g.field? h "name" = some v →
      g.several h "args" = .ok [] → IsRenderedAs g render h (.ofValue v)
  | applied {v : Value} {es : List Handle} {texts : List String} :
      g.kind? h = some .reference → g.field? h "name" = some v → g.several h "args" = .ok es →
        es.mapM render = .ok (texts.map .text) →
        IsRenderedAs g render h (.text (g.doc.display v ++ "<" ++ ", ".intercalate texts ++ ">"))
  | empty {s : String} : g.kind? h = none ∨ g.kind? h = some .object →
      g.properties h = .ok [] →
        s = TypeExpr.emptyObject ∨ s = "(...args: any[]) => any" →
        IsRenderedAs g render h (.text s)
  | object {ps : List Property} {labels : List Label} :
      g.kind? h = some .object → g.properties h = .ok ps →
        ps.mapM (render ·.type) = .ok labels →
        IsRenderedAs g render h
          (.text ("\x7b " ++ "; ".intercalate (List.zipWith g.entryText ps labels) ++ " \x7d"))

variable {g : Graph} {h e : Handle} {free : List Identity} {render : Handle → Except Fault Label}
  {l : Label}

theorem Prints.hasPart (he : g.Prints h e) : g.HasPart h e := by
  cases he with
  | element _ he => exact .element he
  | inTuple _ hes he => exact .inTuple hes he
  | member _ hes he => exact .member hes he
  | argument _ hes he => exact .argument hes he
  | property hkind hps hp =>
    rw [properties, propertiesWithin_of_object hkind] at hps
    exact .property hps hp

theorem IsSpelledOut.textWithin_eq (hs : g.IsSpelledOut free h) :
    g.textWithin free h = g.renderNode (g.textWithin (h.freeInside free)) h := by
  cases hi : h.identity? with
  | some i =>
    rw [textWithin_of_identity hs.override hs.name hi, if_pos (hs.free i hi), Handle.freeInside, hi]
  | none =>
    have hinside : h.freeInside free = free := by rw [Handle.freeInside, hi]
    rw [hinside]
    cases h with
    | leaf t =>
      have hkind : g.kind? (.leaf t) = some .primitive := kind?_of_text rfl
      have hvalue : g.field? (.leaf t) "value" = some (.text t) := by
        simp [field?, entries, Entries.get?]
      rw [textWithin_leaf, renderNode, hkind, hvalue]
      rfl
    | merged ms => exact textWithin_merged ms
    | anonymous id => cases hi
    | declared name backing => cases hi

/-- The shapes of a rendering: it is told by an overriding text, a name or a repetition, or the
handle is spelled out, and then its parts are rendered with the handle taken from the free ones. -/
theorem textWithin_induction {motive : List Identity → Handle → Prop}
    (override : ∀ free h v, g.field? h "text" = some v → motive free h)
    (name : ∀ free h name, g.field? h "text" = none → h.name? = some name → motive free h)
    (repetition : ∀ free h, ¬ g.IsSpelledOut free h → g.textWithin free h = .ok (.text "any") →
      motive free h)
    (spelledOut : ∀ free h, g.IsSpelledOut free h →
      (∀ e, g.Prints h e → motive (h.freeInside free) e) → motive free h)
    (free : List Identity) (h : Handle) : motive free h := by
  have hnode {free : List Identity} {h : Handle} {i : Identity} (hv : g.field? h "text" = none)
      (hname : h.name? = none) (hi : h.identity? = some i) (hmem : i ∈ free)
      (ih : ∀ e, motive (free.erase i) e) : motive free h := by
    refine spelledOut free h ⟨hv, hname, fun j hj => ?_⟩ fun e _ => ?_
    · rw [hi] at hj
      cases hj
      exact hmem
    · rw [Handle.freeInside, hi]
      exact ih e
  have hmet {free : List Identity} {h : Handle} {i : Identity} (hv : g.field? h "text" = none)
      (hname : h.name? = none) (hi : h.identity? = some i) (hmem : i ∉ free) : motive free h := by
    refine repetition free h (fun hs => hmem (hs.free i hi)) ?_
    rw [textWithin_of_identity hv hname hi, if_neg hmem]
  induction free, h using textWithin.induct (g := g) with
  | case1 free h v hv => exact override free h v hv
  | case2 free h hv n hname => exact name free h n hv hname
  | case3 free t hv hname =>
    refine spelledOut free _ ⟨hv, hname, fun i hi => by cases hi⟩ fun e he => ?_
    have hkind : g.kind? (.leaf t) = some .primitive := kind?_of_text rfl
    cases he <;> simp_all
  | case4 free ms hv hname ih =>
    refine spelledOut free _ ⟨hv, hname, fun i hi => by cases hi⟩ fun e he => ?_
    exact ih e (hasPart_merged he.hasPart)
  | case5 free id hmem hv hname ih => exact hnode hv hname rfl hmem ih
  | case6 free id hmem hv hname => exact hmet hv hname rfl hmem
  | case7 free n backing hmem hv hname ih => exact hnode hv hname rfl hmem ih
  | case8 free n backing hmem hv hname => exact hmet hv hname rfl hmem

section Node

theorem exists_texts_of_parts {separator : String} (parts : Except Fault (List Handle))
    (combine : String → String) (hl : (do
      let labels ← (← parts).mapM render
      return Label.text (combine (← Label.join separator labels))) = .ok l) :
    ∃ es, ∃ texts : List String, parts = .ok es ∧ es.mapM render = .ok (texts.map .text) ∧
      l = .text (combine (separator.intercalate texts)) := by
  obtain ⟨es, hes, hl⟩ := bind_eq_ok_iff.mp hl
  obtain ⟨labels, hlabels, hl⟩ := bind_eq_ok_iff.mp hl
  obtain ⟨s, hs, hl⟩ := bind_eq_ok_iff.mp hl
  obtain ⟨texts, htexts, hs⟩ := bind_eq_ok_iff.mp hs
  cases hs
  cases hl
  exact ⟨es, texts, hes, Label.mapM_toText_eq_ok_iff.mp htexts ▸ hlabels, rfl⟩

theorem exists_labels_of_entries {ps : List Property} {entries : List String}
    (h : (ps.mapM fun p => do
      let label ← render p.type
      return TypeExpr.rawKey p.name ++ (if p.optional then "?" else "") ++ ": " ++
        label.spliced g.doc) = .ok entries) :
    ∃ labels, ps.mapM (render ·.type) = .ok labels ∧
      entries = List.zipWith g.entryText ps labels := by
  induction ps generalizing entries with
  | nil =>
    cases h
    exact ⟨[], rfl, rfl⟩
  | cons p ps ih =>
    rw [List.mapM_cons] at h
    obtain ⟨entry, hentry, h⟩ := bind_eq_ok_iff.mp h
    obtain ⟨rest, hrest, h⟩ := bind_eq_ok_iff.mp h
    obtain ⟨l, hl, hentry⟩ := bind_eq_ok_iff.mp hentry
    obtain ⟨labels, hlabels, rfl⟩ := ih hrest
    cases h
    cases hentry
    refine ⟨l :: labels, ?_, rfl⟩
    rw [List.mapM_cons, hl, hlabels]
    rfl

/-- Whatever a node is rendered as, its text is put together from those of the parts it prints. -/
theorem isRenderedAs_of_renderNode (hl : g.renderNode render h = .ok l) :
    g.IsRenderedAs render h l := by
  unfold renderNode at hl
  cases hkind : g.kind? h with
  | none =>
    have hnone : g.properties h = .ok [] :=
      propertiesWithin_of_other (by simp [hkind]) (by simp [hkind])
    rw [hkind, hnone] at hl
    obtain ⟨ps, hps, hl⟩ := bind_eq_ok_iff.mp hl
    cases hps
    obtain ⟨n, -, hl⟩ := bind_eq_ok_iff.mp hl
    cases hl
    refine .empty (.inl hkind) hnone ?_
    by_cases hn : n = 0 <;> simp [hn]
  | some kind =>
    rw [hkind] at hl
    cases kind with
    | primitive =>
      cases hl
      exact .value hkind
    | array =>
      obtain ⟨e, he, hl⟩ := bind_eq_ok_iff.mp hl
      cases e with
      | none =>
        cases hl
        exact .openArray hkind he
      | some e =>
        obtain ⟨inner, hinner, hl⟩ := bind_eq_ok_iff.mp hl
        simp only at hl
        split at hl <;> cases hl
        · exact .array hkind he hinner (.inl rfl)
        · exact .array hkind he hinner (.inr rfl)
    | tuple =>
      obtain ⟨es, texts, hes, htexts, rfl⟩ :=
        exists_texts_of_parts _ (fun s => "[" ++ s ++ "]") hl
      exact .tuple hkind hes htexts
    | union =>
      obtain ⟨es, texts, hes, htexts, rfl⟩ := exists_texts_of_parts _ id hl
      exact .union hkind hes htexts
    | intersection =>
      obtain ⟨es, texts, hes, htexts, rfl⟩ := exists_texts_of_parts _ id hl
      exact .intersection hkind hes htexts
    | reference =>
      obtain ⟨s, hs, hl⟩ := bind_eq_ok_iff.mp hl
      rw [symbol, if_pos (by simp [isKind, hkind])] at hs
      obtain ⟨es, hes, hs⟩ := bind_eq_ok_iff.mp hs
      split at hs
      · rename_i v hv
        cases hs
        simp only at hl
        split at hl
        · rename_i hempty
          cases hl
          exact .name hkind hv (List.isEmpty_iff.mp hempty ▸ hes)
        · obtain ⟨_, texts, hes', htexts, rfl⟩ := exists_texts_of_parts (.ok es)
            (fun s => g.doc.display v ++ "<" ++ s ++ ">") hl
          cases hes'
          exact .applied hkind hv hes htexts
      · cases hs
    | object =>
      obtain ⟨ps, hps, hl⟩ := bind_eq_ok_iff.mp hl
      split at hl
      · rename_i hempty
        obtain ⟨n, -, hl⟩ := bind_eq_ok_iff.mp hl
        cases hl
        refine .empty (.inr hkind) (List.isEmpty_iff.mp hempty ▸ hps) ?_
        by_cases hn : n = 0 <;> simp [hn]
      · obtain ⟨entries, hentries, hl⟩ := bind_eq_ok_iff.mp hl
        obtain ⟨labels, hlabels, rfl⟩ := exists_labels_of_entries hentries
        cases hl
        exact .object hkind hps hlabels

theorem exists_labels_of_object {ps : List Property} (hkind : g.kind? h = some .object)
    (hps : g.properties h = .ok ps) (hne : ps ≠ []) (hl : g.renderNode render h = .ok l) :
    ∃ labels, ps.mapM (render ·.type) = .ok labels ∧
      l = .text ("\x7b " ++ "; ".intercalate (List.zipWith g.entryText ps labels) ++ " \x7d") := by
  cases isRenderedAs_of_renderNode hl with
  | object _ hps' hlabels =>
    cases hps.symm.trans hps'
    exact ⟨_, hlabels, rfl⟩
  | empty _ hps' _ =>
    cases hps.symm.trans hps'
    exact (hne rfl).elim
  | value hk => cases hkind.symm.trans hk
  | openArray hk => cases hkind.symm.trans hk
  | array hk => cases hkind.symm.trans hk
  | tuple hk => cases hkind.symm.trans hk
  | union hk => cases hkind.symm.trans hk
  | intersection hk => cases hkind.symm.trans hk
  | name hk => cases hkind.symm.trans hk
  | applied hk => cases hkind.symm.trans hk

end Node

end Graph

end RouteCatalog
