import RouteCatalog.Proofs.Property

/-! Raw rendering ends with a text for every well-shaped type, whatever cycles its nodes form. The
rendering is also told by the handles that are being rendered further up instead of those that are
still free: it prints `any` exactly for a handle that is among them. -/

namespace RouteCatalog

def Label.IsText (l : Label) : Prop := ∃ s, l = .text s

theorem Label.isText (s : String) : (Label.text s).IsText := ⟨s, rfl⟩

theorem Label.exists_mapM_toText_eq_ok {labels : List Label} (h : ∀ l ∈ labels, l.IsText) :
    ∃ texts, labels.mapM Label.toText = .ok texts :=
  exists_mapM_eq_ok fun l hl => by
    obtain ⟨s, rfl⟩ := h l hl
    exact ⟨s, rfl⟩

theorem Label.mapM_toText_eq_ok_iff {labels : List Label} {texts : List String} :
    labels.mapM Label.toText = .ok texts ↔ labels = texts.map .text := by
  constructor
  · intro h
    rw [mapM_eq_ok_iff] at h
    induction h with
    | nil => rfl
    | @cons label text labels texts hlabel _ ih =>
      cases label with
      | text s =>
        cases hlabel
        rw [List.map_cons, ih]
      | bare name => cases hlabel
  · rintro rfl
    exact Label.mapM_toText_map_text texts

theorem Label.exists_join_eq_ok (separator : String) {labels : List Label}
    (h : ∀ l ∈ labels, l.IsText) : ∃ s, Label.join separator labels = .ok s := by
  obtain ⟨texts, htexts⟩ := exists_mapM_toText_eq_ok h
  exact ⟨separator.intercalate texts, by rw [Label.join, htexts]; rfl⟩

namespace Graph

variable {g : Graph}

theorem yields_joined {render : Handle → Except Fault Label} {es : List Handle}
    (separator : String) (combine : String → String)
    (h : ∀ e ∈ es, Yields (render e) Label.IsText) :
    Yields (do
      let labels ← es.mapM render
      return Label.text (combine (← Label.join separator labels))) Label.IsText := by
  refine (Yields.mapM h).bind fun labels hlabels => ?_
  obtain ⟨s, hs⟩ := Label.exists_join_eq_ok separator hlabels
  rw [hs]
  exact .pure (Label.isText _)

theorem yields_renderNode {h : Handle} (hask : g.IsAskable h)
    {render : Handle → Except Fault Label}
    (hrender : ∀ e, g.Answers h e → Yields (render e) Label.IsText) :
    Yields (g.renderNode render h) Label.IsText := by
  obtain ⟨kind, hkind⟩ := Option.isSome_iff_exists.mp hask.kind
  unfold renderNode
  rw [hkind]
  cases kind with
  | primitive => exact .pure (Label.isText _)
  | array =>
    refine (yields_element hask).bind fun e he => ?_
    cases e with
    | none => exact .pure (Label.isText _)
    | some e =>
      refine (hrender e (he e rfl)).bind fun l _ => ?_
      simp only
      split <;> exact .pure (Label.isText _)
  | tuple =>
    refine (yields_elements hask).bind fun es hes => ?_
    exact yields_joined ", " (fun s => "[" ++ s ++ "]") fun e he => hrender e (hes e he)
  | union =>
    refine (yields_members hask).bind fun es hes => ?_
    exact yields_joined " | " id fun e he => hrender e (hes e he)
  | intersection =>
    refine (yields_members hask).bind fun es hes => ?_
    exact yields_joined " & " id fun e he => hrender e (hes e he)
  | reference =>
    refine (yields_symbol hask).bind fun s hs => ?_
    obtain ⟨hsome, hsymbol⟩ := hs
    obtain ⟨s, rfl⟩ := Option.isSome_iff_exists.mp (hsome hkind)
    obtain ⟨⟨name, hname⟩, hargs⟩ := hsymbol s rfl
    simp only
    split
    · rw [hname]
      exact .pure (Label.isText name)
    · exact yields_joined ", " (fun t => g.doc.display s.name ++ "<" ++ t ++ ">")
        fun e he => hrender e (hargs e he)
  | object =>
    refine (yields_properties_of_object hask hkind).bind fun ps hps => ?_
    split
    · obtain ⟨n, hn⟩ := hask.signatures hkind
      rw [hn]
      exact .pure (Label.isText _)
    · refine (Yields.mapM (Q := fun _ => True) fun p hp => ?_).bind fun _ _ =>
        .pure (Label.isText _)
      exact (hrender p.type (hps p hp)).bind fun _ _ => .pure trivial

section Equations

variable {free : List Identity} {h : Handle}

theorem textWithin_of_override {v : Value} (hv : g.field? h "text" = some v) :
    g.textWithin free h = .ok (.text (g.doc.display v)) := by
  unfold textWithin
  simp only [hv]

theorem textWithin_of_name {name : String} (hv : g.field? h "text" = none)
    (hname : h.name? = some name) : g.textWithin free h = .ok (.text name) := by
  unfold textWithin
  simp only [hv, hname]

theorem textWithin_leaf (t : String) : g.textWithin free (.leaf t) = .ok (.text t) := by
  have hv : g.field? (.leaf t) "text" = none := by simp [field?, entries, Entries.get?]
  unfold textWithin
  simp only [hv, Handle.name?]

theorem textWithin_merged (ms : List Handle) :
    g.textWithin free (.merged ms) = g.renderNode (g.textWithin free) (.merged ms) := by
  have hv : g.field? (.merged ms) "text" = none := field?_merged (by decide)
  unfold textWithin renderNode
  simp only [hv, Handle.name?, kind?_merged, members]
  rw [List.mapM_subtype (g := g.textWithin free) (fun _ _ => rfl), List.unattach_attach]
  rfl

theorem textWithin_of_identity {i : Identity} (hv : g.field? h "text" = none)
    (hname : h.name? = none) (hi : h.identity? = some i) :
    g.textWithin free h =
      if i ∈ free then g.renderNode (g.textWithin (free.erase i)) h
      else .ok (.text "any") := by
  cases h with
  | leaf t => cases hi
  | merged ms => cases hi
  | anonymous id =>
    cases hi
    rw [textWithin]
    by_cases hmem : Identity.node id ∈ free <;> simp [hv, hname, hmem]
  | declared name backing =>
    cases hi
    rw [textWithin]
    by_cases hmem : Identity.declaration name ∈ free <;> simp [hv, hname, hmem]

end Equations

/-- Rendering takes a handle from the free ones before it goes deeper, and a merged type consists
of smaller ones. -/
theorem Sustains.yields_textWithin {S : Handle → Prop} (hS : g.Sustains S) (free : List Identity)
    (h : Handle) (hs : S h) : Yields (g.textWithin free h) Label.IsText := by
  have hnode (h : Handle) (free : List Identity) (hs : S h)
      (ih : ∀ e, S e → Yields (g.textWithin free e) Label.IsText) :
      Yields (g.renderNode (g.textWithin free) h) Label.IsText :=
    yields_renderNode (hS.askable h hs) fun e he => ih e (hS.answers h e hs he)
  induction free, h using textWithin.induct (g := g) with
  | case1 free h v hv =>
    rw [textWithin_of_override hv]
    exact .pure (Label.isText _)
  | case2 free h hv name hname =>
    rw [textWithin_of_name hv hname]
    exact .pure (Label.isText _)
  | case3 free t =>
    rw [textWithin_leaf]
    exact .pure (Label.isText _)
  | case4 free ms _ _ ih =>
    -- The properties of a merged type need not be smaller; only its members are asked for.
    rw [textWithin_merged, renderNode, kind?_merged]
    exact yields_joined " & " id fun e he => ih e he (hS.answers _ e hs (.member rfl he))
  | case5 free id hmem hv hname ih =>
    rw [textWithin_of_identity hv hname rfl, if_pos hmem]
    exact hnode _ _ hs ih
  | case6 free id hmem hv hname =>
    rw [textWithin_of_identity hv hname rfl, if_neg hmem]
    exact .pure (Label.isText _)
  | case7 free name backing hmem hv hname ih =>
    rw [textWithin_of_identity hv hname rfl, if_pos hmem]
    exact hnode _ _ hs ih
  | case8 free name backing hmem hv hname =>
    rw [textWithin_of_identity hv hname rfl, if_neg hmem]
    exact .pure (Label.isText _)

theorem yields_textWithin (hacyclic : g.HasAcyclicAliases) (free : List Identity) (h : Handle)
    (hs : g.WellShapedFrom h) : Yields (g.textWithin free h) Label.IsText :=
  (sustains_wellShapedFrom hacyclic).yields_textWithin free h hs

/-- The handle stands for itself among those that can be met again: it goes by no name and belongs
to a mapping or to a declaration. -/
structure IsNameless (g : Graph) (h : Handle) (i : Identity) : Prop where
  identity : h.identity? = some i
  name : h.name? = none
  mapping : ∀ id, h = .anonymous id → (g.doc.mapping? (.node id)).isSome

/-- How a rendering has to depend on the handles that are being rendered further up. -/
structure CutsAtRepetition (g : Graph) (render : List Identity → Handle → Except Fault Label) :
    Prop where
  override : ∀ above h v, g.field? h "text" = some v →
    render above h = .ok (.text (g.doc.display v))
  named : ∀ above h name, g.field? h "text" = none → h.name? = some name →
    render above h = .ok (.text name)
  leaf : ∀ above t, render above (.leaf t) = .ok (.text t)
  merged : ∀ above ms, render above (.merged ms) = g.renderNode (render above) (.merged ms)
  nameless : ∀ above h i, g.field? h "text" = none → g.IsNameless h i →
    render above h =
      if i ∈ above then .ok (.text "any") else g.renderNode (render (i :: above)) h

/-- The label of a type inside the rendering of the handles `above`. -/
def textUnder (g : Graph) (above : List Identity) (h : Handle) : Except Fault Label :=
  g.textWithin (g.identities.diff above) h

theorem nodup_identities : g.identities.Nodup := by
  unfold identities Document.nodeIds
  refine List.nodup_cons.mpr ⟨by simp, ?_⟩
  exact List.nodup_range.map fun a b hab => by cases hab; rfl

theorem IsNameless.mem_identities {h : Handle} {i : Identity} (hi : g.IsNameless h i) :
    i ∈ g.identities := by
  have hidentity := hi.identity
  cases h with
  | leaf t => cases hidentity
  | merged ms => cases hidentity
  | anonymous id =>
    cases hidentity
    exact List.mem_cons_of_mem _ (List.mem_map_of_mem (mem_nodeIds (hi.mapping id rfl)))
  | declared name backing =>
    cases hidentity
    have hname : name = "" := by simpa [Handle.name?] using hi.name
    exact hname ▸ List.mem_cons_self

theorem cutsAtRepetition_textUnder : g.CutsAtRepetition g.textUnder where
  override _ _ _ hv := textWithin_of_override hv
  named _ _ _ hv hname := textWithin_of_name hv hname
  leaf _ t := textWithin_leaf t
  merged _ ms := textWithin_merged ms
  nameless above h i hv hi := by
    have hfree : i ∈ g.identities.diff above ↔ i ∉ above := by
      rw [nodup_identities.mem_sdiff_iff]
      exact and_iff_right hi.mem_identities
    unfold textUnder
    rw [textWithin_of_identity hv hi.name hi.identity, ← List.diff_cons_right]
    by_cases hmem : i ∈ above <;> simp [hfree, hmem]

end Graph

end RouteCatalog
