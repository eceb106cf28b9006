import RouteCatalog.Proofs.HandleQuestions
import RouteCatalog.Proofs.Rendering

/-! Rendering objects and rendering handles. The objects that are marked are those that are being
rendered, so that one that is met again is known by its mark; the mark is taken off in the end, also
if the rendering fails. -/

namespace RouteCatalog

variable {g : Graph} {s s' : HandleStore} {o : ObjectId}

namespace HandleStore

/-- Of what can be met again inside its own rendering, that is free which is not marked. -/
structure HasFree (g : Graph) (s : HandleStore) (free : List Identity) : Prop where
  nodup : free.Nodup
  marked : ∀ o < s.size, ∀ i ∈ g.identities, (s.object o).identity? = some i →
    ((s.object o).isMarked = true ↔ i ∉ free)
  taken : ∀ i ∈ g.identities, i ∉ free → ∃ o < s.size, (s.object o).identity? = some i

variable {free : List Identity} {i : Identity}

theorem HasFree.of_unmarked (h : ∀ o, (s.object o).isMarked = false) : HasFree g s g.identities := by
  refine ⟨Graph.nodup_identities, ?_, ?_⟩
  · intro o _ i hi _
    simp [h o, hi]
  · intro i hi hnot
    exact (hnot hi).elim

/-- An object that is added has an identity that is free, since no two objects have the same. -/
theorem HasFree.grows (hfree : HasFree g s free) (hs' : s'.IsSound g) (h : s.Grows s') :
    HasFree g s' free := by
  refine ⟨hfree.nodup, ?_, ?_⟩
  · intro o ho i hi hidentity
    by_cases hold : o < s.size
    · rw [h.object o hold] at hidentity ⊢
      exact hfree.marked o hold i hi hidentity
    · have hmark := h.unmarked o (Nat.le_of_not_lt hold)
      have hmem : i ∈ free := by
        by_contra hnot
        -- An identity that is taken belongs to an older object, which would be the new one.
        obtain ⟨o', ho', hidentity'⟩ := hfree.taken i hi hnot
        rw [← h.object o' ho'] at hidentity'
        have heq := hs'.eq_of_identity ho (ho'.trans_le h.size) hidentity hidentity'
        exact hold (heq ▸ ho')
      simp [hmark, hmem]
  · intro i hi hnot
    obtain ⟨o, ho, hidentity⟩ := hfree.taken i hi hnot
    exact ⟨o, ho.trans_le h.size, by rw [h.object o ho, hidentity]⟩

/-- An object that is marked takes its identity from the free ones. -/
theorem HasFree.setMark (hfree : HasFree g s free) (hs : s.IsSound g) (ho : o < s.size)
    (hi : (s.object o).identity? = some i) : HasFree g (s.setMark o true) (free.erase i) := by
  refine ⟨hfree.nodup.erase i, ?_, ?_⟩
  · intro o' ho' i' hi' hidentity
    rw [size_setMark] at ho'
    rw [identity?_setMark ho] at hidentity
    rw [object_setMark ho]
    split_ifs with heq
    · subst heq
      rw [hi] at hidentity
      cases hidentity
      simp [hfree.nodup.mem_erase_iff]
    · have hne : i' ≠ i := by
        rintro rfl
        exact heq (hs.eq_of_identity ho' ho hidentity hi)
      rw [hfree.marked o' ho' i' hi' hidentity, List.mem_erase_of_ne hne]
  · intro i' hi' hnot
    rw [size_setMark]
    by_cases heq : i' = i
    · subst heq
      exact ⟨o, ho, by rw [identity?_setMark ho, hi]⟩
    · rw [List.mem_erase_of_ne heq] at hnot
      obtain ⟨o', ho', hidentity⟩ := hfree.taken i' hi' hnot
      exact ⟨o', ho', by rw [identity?_setMark ho, hidentity]⟩

theorem HasFree.setMark_of_made (hfree : HasFree g s free) (ho : o < s.size)
    (hmade : (s.object o).identity? = none) (b : Bool) : HasFree g (s.setMark o b) free := by
  refine ⟨hfree.nodup, ?_, ?_⟩
  · intro o' ho' i hi hidentity
    rw [size_setMark] at ho'
    rw [identity?_setMark ho] at hidentity
    have hne : o' ≠ o := by
      rintro rfl
      rw [hmade] at hidentity
      cases hidentity
    rw [object_setMark ho, if_neg hne]
    exact hfree.marked o' ho' i hi hidentity
  · intro i hi hnot
    obtain ⟨o', ho', hidentity⟩ := hfree.taken i hi hnot
    exact ⟨o', by rwa [size_setMark], by rw [identity?_setMark ho, hidentity]⟩

/-- An object without a name that has an identity can be met again inside its own rendering. -/
theorem IsSound.isNameless (hs : s.IsSound g) (ho : o < s.size)
    (hi : (s.object o).identity? = some i) (hname : (s.object o).shownName? = none) :
    g.IsNameless (s.view o) i := by
  refine ⟨by rw [hs.identity?_view ho, hi], by rw [hs.name?_view ho, hname], ?_⟩
  intro id hview
  cases hnode : (s.object o).node with
  | document id' =>
    rw [view_of_document hnode] at hview
    cases hdeclared : (s.object o).name <;> rw [hdeclared] at hview <;> cases hview
    exact (hs.fits o ho).mapping id hnode
  | literal origin text =>
    rw [view_of_literal hnode] at hview
    cases hdeclared : (s.object o).name <;> rw [hdeclared] at hview <;> cases hview
  | merged origin ms =>
    rw [hs.view_merged ho hnode] at hview
    cases hview

end HandleStore

namespace Mirrors

variable {α : Type}

/-- What is asked while an object is marked mirrors what is asked of handles, and takes the mark off
again. -/
theorem whileMarked {c : Asking α} {p : Except Fault α} (ho : o < s.size)
    (hmark : (s.object o).isMarked = false) (h : Mirrors (.plain g α) (s.setMark o true) c p) :
    Mirrors (.plain g α) s (Asking.whileMarked o c) p := by
  have hgrows := HandleStore.Grows.of_setMark ho hmark h.grows
  have hlt : o < (c.outcome (s.setMark o true)).2.size := by
    have hsize := hgrows.size
    rw [HandleStore.size_setMark] at hsize
    exact ho.trans_le hsize
  exact ⟨hgrows, h.sound.setMark hlt false, fun _ _ => trivial, h.answer⟩

end Mirrors

def Reading.before (g : Graph) (o : ObjectId) : Reading g ObjectId Handle where
  read := HandleStore.view
  Holds s m := (object g).Holds s m ∧ m < o
  read_eq h hm := (object g).read_eq h hm.1
  grows hs h hm := ⟨(object g).grows hs h hm.1, hm.2⟩

section Nodes

variable {R : Reading g ObjectId Handle} {render : ObjectId → Asking Label}
  {render' : Handle → Except Fault Label}

theorem mirrors_joined {c : Asking (List ObjectId)} {p : Except Fault (List Handle)}
    (separator : String) (combine : String → String) (hc : Mirrors R.list s c p)
    (hrender : ∀ m s', s.Grows s' → s'.IsSound g → R.Holds s' m →
      Mirrors (.plain g Label) s' (render m) (render' (R.read s' m))) :
    Mirrors (.plain g Label) s
      (do
        let labels ← (← c).mapM render
        return .text (combine (← Asking.lift (Label.join separator labels))))
      (do
        let labels ← (← p).mapM render'
        return .text (combine (← Label.join separator labels))) := by
  refine hc.bind ?_
  intro os s₁ hgrows₁ hs₁ hos
  have hlabels := Mirrors.mapM (R := R) (T := .plain g Label) (q := render') hs₁ os hos
    fun m _ s₂ hgrows₂ hs₂ hm => hrender m s₂ (hgrows₁.trans hgrows₂) hs₂ hm
  refine hlabels.of_list.bind ?_
  intro labels s₂ _ hs₂ _
  refine (Mirrors.lift hs₂).bind ?_
  intro text s₃ _ hs₃ _
  exact .plain hs₃

theorem mirrors_entries (hs : s.IsSound g) {ps : List ObjectProperty}
    (hps : (Reading.property g).list.Holds s ps)
    (hrender : ∀ m s', s.Grows s' → s'.IsSound g → (Reading.object g).Holds s' m →
      Mirrors (.plain g Label) s' (render m) (render' (s'.view m)))
    (spell : String → Bool → Label → String) :
    Mirrors (.plain g (List String)) s
      (ps.mapM fun p => do
        let label ← render p.type
        return spell p.name p.optional label)
      (((Reading.property g).list.read s ps).mapM fun p => do
        let label ← render' p.type
        return spell p.name p.optional label) := by
  refine (Mirrors.mapM (R := .property g) (T := .plain g String) hs ps hps ?_).of_list
  intro p _ s' hgrows hs' hp
  refine (hrender p.type s' hgrows hs' hp).bind ?_
  intro label s'' _ hs'' _
  exact .plain hs''

theorem mirrors_renderNode (hs : s.IsSound g) (ho : o < s.size) (hparts : s.HasIdleParts o)
    (hrender : ∀ m s', s.Grows s' → s'.IsSound g → (Reading.object g).Holds s' m →
      Mirrors (.plain g Label) s' (render m) (render' (s'.view m))) :
    Mirrors (.plain g Label) s (Asking.renderNode g render o)
      (g.renderNode render' (s.view o)) := by
  unfold Asking.renderNode Graph.renderNode
  rw [HandleStore.kind?_view, HandleStore.field?_view]
  refine .look ?_
  match Asking.kind? g (s.object o) with
  | some .primitive => exact .plain hs
  | some .array =>
    refine (mirrors_single hs "element").bind ?_
    intro e s₁ hgrows₁ hs₁ he
    cases e with
    | none => exact .plain hs₁
    | some e =>
      refine (hrender e s₁ hgrows₁ hs₁ (he e rfl)).bind ?_
      intro label s₂ hgrows₂ hs₂ _
      refine .look ?_
      have hread : (Reading.object g).read s₁ e = s₁.view e := rfl
      rw [hread, hgrows₂.object e (he e rfl).1, HandleStore.isKind_view, HandleStore.isKind_view]
      split_ifs <;> exact .plain hs₂
  | some .tuple =>
    exact mirrors_joined ", " (fun t => "[" ++ t ++ "]") (mirrors_several hs "elements") hrender
  | some .union => exact mirrors_joined " | " id (mirrors_members hs ho hparts) hrender
  | some .intersection => exact mirrors_joined " & " id (mirrors_members hs ho hparts) hrender
  | some .reference =>
    refine (mirrors_symbol hs ho).bind ?_
    intro x s₁ hgrows₁ hs₁ hx
    cases x with
    | none => exact .throw hs₁
    | some x =>
      have hempty : (x.arguments.map s₁.view).isEmpty = x.arguments.isEmpty := List.isEmpty_map
      dsimp only [Reading.option, Reading.symbol, Option.map_some]
      rw [hempty]
      split_ifs
      · exact .plain hs₁
      · refine mirrors_joined ", " (fun t => g.doc.display x.name ++ "<" ++ t ++ ">")
          (.pure (R := (Reading.object g).list) hs₁ (hx x rfl) rfl) ?_
        intro m s₂ hgrows₂ hs₂ hm
        exact hrender m s₂ (hgrows₁.trans hgrows₂) hs₂ hm
  | none | some .object =>
    refine (mirrors_properties hs ho hparts).bind ?_
    intro ps s₁ hgrows₁ hs₁ hps
    have hempty : ((Reading.property g).list.read s₁ ps).isEmpty = ps.isEmpty := List.isEmpty_map
    rw [hempty]
    split_ifs
    · rw [← hgrows₁.view_eq ho]
      refine (mirrors_callSignatures hs₁).bind ?_
      intro n s₂ _ hs₂ _
      exact .plain hs₂
    · refine (mirrors_entries hs₁ hps ?_ fun name optional label =>
        TypeExpr.rawKey name ++ (if optional then "?" else "") ++ ": " ++
          label.spliced g.doc).bind ?_
      · intro m s₂ hgrows₂ hs₂ hm
        exact hrender m s₂ (hgrows₁.trans hgrows₂) hs₂ hm
      · intro entries s₂ _ hs₂ _
        exact .plain hs₂

/-- An object that others were merged to is rendered by rendering those, which were there before. -/
theorem mirrors_renderNode_of_merged {origin : ObjectId} {ms : List ObjectId} (hs : s.IsSound g)
    (ho : o < s.size) (hparts : s.HasIdleParts o) (hnode : (s.object o).node = .merged origin ms)
    (hrender : ∀ m s', s.Grows s' → s'.IsSound g → m < o → (Reading.object g).Holds s' m →
      Mirrors (.plain g Label) s' (render m) (render' (s'.view m))) :
    Mirrors (.plain g Label) s (Asking.renderNode g render o)
      (g.renderNode render' (s.view o)) := by
  have hkind : Asking.kind? g (s.object o) = some .intersection := by
    rw [← HandleStore.kind?_view, hs.view_merged ho hnode]
    exact Graph.kind?_merged
  have hmembers : Mirrors (Reading.before g o).list s (Asking.members g o)
      (g.members (s.view o)) := by
    have hfits := (hs.fits o ho).members
    rw [HandleStore.HasIdleParts, hnode] at hparts
    rw [hnode] at hfits
    unfold Asking.members
    refine .look ?_
    rw [hs.view_merged ho hnode, hnode]
    exact .pure hs (fun m hm => ⟨hparts m hm, hfits m hm⟩) rfl
  unfold Asking.renderNode Graph.renderNode
  rw [HandleStore.kind?_view]
  refine .look ?_
  rw [hkind]
  refine mirrors_joined " & " id hmembers ?_
  intro m s' hgrows hs' hm
  exact hrender m s' hgrows hs' hm.2 hm.1

end Nodes

section Texts

variable {free : List Identity}

theorem mirrors_renderNode_of_literal {render : ObjectId → Asking Label} {origin : ObjectId}
    {text : String} (hs : s.IsSound g) (hnode : (s.object o).node = .literal origin text) :
    Mirrors (.plain g Label) s (Asking.renderNode g render o) (.ok (.text text)) := by
  have hentries : Asking.entries g (s.object o).node =
      [(.text "kind", .text "primitive"), (.text "value", .text text)] := by
    rw [hnode]
    rfl
  have hkind : Asking.kind? g (s.object o) = some .primitive := by
    rw [← HandleStore.kind?_view]
    exact Graph.kind?_of_text (by rw [HandleStore.entries_view, hentries])
  have hvalue : Asking.field? g (s.object o) "value" = some (.text text) := by
    rw [Asking.field?, hentries]
    rfl
  unfold Asking.renderNode
  refine .look ?_
  rw [hkind, hvalue]
  exact .plain hs

/-- An object with an identity is rendered with that taken from the free ones. -/
theorem mirrors_renderKnown {render : ObjectId → Asking Label} {i : Identity}
    {render' : Handle → Except Fault Label} (hs : s.IsSound g) (hfree : s.HasFree g free)
    (hlt : o < s.size) (hunmarked : (s.object o).isMarked = false)
    (hi : (s.object o).identity? = some i)
    (hrender : ∀ m s', s'.IsSound g → s'.HasFree g (free.erase i) → (Reading.object g).Holds s' m →
      Mirrors (.plain g Label) s' (render m) (render' (s'.view m))) :
    Mirrors (.plain g Label) s (Asking.whileMarked o (Asking.renderNode g render o))
      (g.renderNode render' (s.view o)) := by
  apply Mirrors.whileMarked hlt hunmarked
  have hs₁ := hs.setMark hlt true
  have hfree₁ := hfree.setMark hs hlt hi
  have hlt₁ : o < (s.setMark o true).size := by rwa [HandleStore.size_setMark]
  have hidle₁ : (s.setMark o true).IsIdle o :=
    .known (i := i) (by rw [HandleStore.identity?_setMark hlt, hi])
  rw [← HandleStore.view_setMark hlt true]
  apply mirrors_renderNode hs₁ hlt₁ (hidle₁.hasIdleParts hs₁ hlt₁)
  intro m s' hgrows hs' hm
  exact hrender m s' hs' (hfree₁.grows hs' hgrows) hm

/-- An object that was made anew is a text, or it is rendered by rendering those that it was merged
from. It is never met inside its own rendering, since it is younger than these. -/
theorem mirrors_renderMade {render : ObjectId → Asking Label} (hs : s.IsSound g)
    (hfree : s.HasFree g free) (hlt : o < s.size) (hidle : s.IsIdle o)
    (hunmarked : (s.object o).isMarked = false) (hi : (s.object o).identity? = none)
    (hrender : ∀ m s', s'.IsSound g → s'.HasFree g free → m < o → (Reading.object g).Holds s' m →
      Mirrors (.plain g Label) s' (render m) (g.textWithin free (s'.view m))) :
    Mirrors (.plain g Label) s (Asking.whileMarked o (Asking.renderNode g render o))
      (g.textWithin free (s.view o)) := by
  apply Mirrors.whileMarked hlt hunmarked
  have hs₁ := hs.setMark hlt true
  obtain ⟨-, hnode₁⟩ := HandleStore.same_setMark hlt true o
  obtain ⟨hanonymous, hmade⟩ := HandleObject.identity?_eq_none_iff.mp hi
  cases hnode : (s.object o).node with
  | document id => exact (hmade id hnode).elim
  | literal origin text =>
    rw [HandleStore.view_of_literal hnode, hanonymous]
    change Mirrors _ _ _ (g.textWithin free (.leaf text))
    rw [Graph.textWithin_leaf]
    exact mirrors_renderNode_of_literal hs₁ (by rw [hnode₁, hnode])
  | merged origin ms =>
    have hfree₁ := hfree.setMark_of_made hlt hi true
    have hlt₁ : o < (s.setMark o true).size := by rwa [HandleStore.size_setMark]
    have hparts₁ : (s.setMark o true).HasIdleParts o := by
      intro m hm
      rw [hnode₁] at hm
      have hmo := (hs.fits o hlt).members m hm
      obtain ⟨hm', hidle'⟩ := hidle.hasIdleParts hs hlt m hm
      rw [HandleStore.size_setMark]
      exact ⟨hm', hidle'.setMark hs hlt true hm' (.inl hmo)⟩
    have hview := hs.view_merged hlt hnode
    rw [hview, Graph.textWithin_merged, ← hview, ← HandleStore.view_setMark hlt true]
    apply mirrors_renderNode_of_merged hs₁ hlt₁ hparts₁ (by rw [hnode₁, hnode])
    intro m s' hgrows hs' hmo hm
    exact hrender m s' hs' (hfree₁.grows hs' hgrows) hmo hm

theorem mirrors_textWithin {s : HandleStore} (free : List Identity) (o : ObjectId)
    (hs : s.IsSound g) (hfree : s.HasFree g free) (ho : (Reading.object g).Holds s o) :
    Mirrors (.plain g Label) s (Asking.textWithin g free o) (g.textWithin free (s.view o)) := by
  obtain ⟨hlt, hidle⟩ := ho
  rw [Asking.textWithin]
  refine .look ?_
  cases hv : Asking.field? g (s.object o) "text" with
  | some v =>
    rw [Graph.textWithin_of_override (by rw [HandleStore.field?_view, hv])]
    exact .plain hs
  | none =>
    have hv' : g.field? (s.view o) "text" = none := by rw [HandleStore.field?_view, hv]
    cases hname : (s.object o).shownName? with
    | some name =>
      rw [Graph.textWithin_of_name hv' (by rw [hs.name?_view hlt, hname])]
      exact .plain hs
    | none =>
      cases hi : (s.object o).identity? with
      | some i =>
        have hnameless := hs.isNameless hlt hi hname
        -- The mark of the object says of its identity what the list of free ones says.
        have hmark := hfree.marked o hlt i hnameless.mem_identities hi
        rw [Graph.textWithin_of_identity hv' hnameless.name hnameless.identity]
        by_cases hmem : i ∈ free
        · have hunmarked : (s.object o).isMarked = false := by simpa [hmem] using hmark
          dsimp only
          rw [if_neg (by simp [hunmarked]), dif_pos hmem, if_pos hmem]
          apply mirrors_renderKnown hs hfree hlt hunmarked hi
          intro m s' hs' hfree' hm
          exact mirrors_textWithin (free.erase i) m hs' hfree' hm
        · have hmarked : (s.object o).isMarked = true := hmark.mpr hmem
          dsimp only
          rw [if_pos hmarked, if_neg hmem]
          exact .plain hs
      | none =>
        have hunmarked : (s.object o).isMarked = false := by
          cases hidle with
          | known hi' =>
            rw [hi] at hi'
            cases hi'
          | made hmark _ => exact hmark
        dsimp only
        rw [if_neg (by simp [hunmarked])]
        apply mirrors_renderMade hs hfree hlt hidle hunmarked hi
        intro m s' hs' hfree' hmo hm
        rw [dif_pos hmo]
        exact mirrors_textWithin free m hs' hfree' hm
termination_by (free.length, o)
decreasing_by
  · apply Prod.Lex.right
    exact hmo
  · apply Prod.Lex.left
    rw [List.length_erase_of_mem hmem]
    have := List.length_pos_of_mem hmem
    omega

/-- Where nothing is being rendered, an object is rendered like its handle. -/
theorem mirrors_text (hs : s.IsSound g) (hrest : ∀ o, (s.object o).isMarked = false)
    (ho : (Reading.object g).Holds s o) :
    Mirrors (.plain g Label) s (Asking.text g o) (g.text (s.view o)) :=
  mirrors_textWithin g.identities o hs (.of_unmarked hrest) ho

end Texts

end RouteCatalog
