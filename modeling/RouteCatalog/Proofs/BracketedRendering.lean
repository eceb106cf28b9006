import RouteCatalog.Proofs.Rendering
import RouteCatalog.Proofs.WholeText

/-! Raw rendering keeps brackets and literals together. If every text that a type takes from its
document is whole, then so is its rendering, and the same goes for every property of texts that is
kept when texts are put together and into brackets. Property names may be any texts, since a name
that is no identifier is printed as a literal. -/

namespace RouteCatalog

open TypeExpr

namespace Label

def Prints (P : List Char → Prop) (doc : Document) (l : Label) : Prop := P (l.spliced doc).toList

def IsWhole (doc : Document) (l : Label) : Prop := TypeExpr.IsWhole (l.spliced doc).toList

variable {P : List Char → Prop} {doc : Document} {labels : List Label} {separator : String}

theorem ensures_mapM_toText (h : ∀ l ∈ labels, l.Prints P doc) :
    Ensures (labels.mapM toText) fun texts => ∀ t ∈ texts, P t.toList := by
  refine .mapM fun l hl t ht => ?_
  cases l with
  | text s =>
    cases ht
    exact h _ hl
  | bare v => cases ht

theorem ensures_join (hP : IsBracketing P) (hseparator : P separator.toList)
    (h : ∀ l ∈ labels, l.Prints P doc) :
    Ensures (join separator labels) fun s => P s.toList :=
  (ensures_mapM_toText h).bind fun _ htexts => .pure (hP.intercalateText hseparator htexts)

theorem ensures_joinBare (h : ∀ l ∈ labels, l.Prints P doc) :
    Ensures (joinBare doc labels) (Prints P doc) := by
  intro l hl
  unfold joinBare at hl
  split at hl
  · split at hl
    · rename_i only honly
      cases hl
      exact h _ (mem_of_mem_distinct (honly ▸ List.mem_singleton_self _))
    · cases hl
  · cases hl

theorem ensures_union (hP : IsBracketing P) (h : ∀ l ∈ labels, l.Prints P doc) :
    Ensures (union doc labels) (Prints P doc) := by
  unfold union
  split
  · rename_i parts hparts
    refine .pure (hP.joinOperands (hP.word (by simp [printedWords])) fun p hp => ?_)
    rcases mem_of_mem_unionMembers hp with hp | rfl
    · exact ensures_mapM_toText h parts hparts p hp
    · exact hP.word (by simp [printedWords])
  · exact ensures_joinBare h

theorem ensures_intersection (hP : IsBracketing P) (h : ∀ l ∈ labels, l.Prints P doc) :
    Ensures (intersection doc labels) (Prints P doc) := by
  unfold intersection
  split
  · rename_i parts hparts
    refine .pure ?_
    change P (joinIntersection parts).toList
    unfold joinIntersection
    split
    · exact hP.word (by simp [printedWords])
    · refine hP.joinOperands (hP.word (by simp [printedWords])) fun p hp => ?_
      exact ensures_mapM_toText h parts hparts p (mem_of_mem_intersectionMembers hp)
  · exact ensures_joinBare fun l hl => h l (List.mem_of_mem_filter hl)

end Label

namespace Graph

/-- Every text that a type takes from its document by itself has a property: the text that overrides
its rendering, its name, the value of a primitive and the name of a reference. -/
structure HasTexts (P : List Char → Prop) (g : Graph) (h : Handle) : Prop where
  override : ∀ v ∈ g.field? h "text", P (g.doc.display v).toList
  name : ∀ name ∈ h.name?, P name.toList
  value : g.kind? h = some .primitive → ∀ v ∈ g.field? h "value", P (g.doc.display v).toList
  reference : g.kind? h = some .reference → ∀ v ∈ g.field? h "name", P (g.doc.display v).toList

instance (P : List Char → Prop) [DecidablePred P] (g : Graph) (h : Handle) :
    Decidable (g.HasTexts P h) :=
  decidable_of_iff
    ((∀ v ∈ g.field? h "text", P (g.doc.display v).toList) ∧
      (∀ name ∈ h.name?, P name.toList) ∧
      (g.kind? h = some .primitive → ∀ v ∈ g.field? h "value", P (g.doc.display v).toList) ∧
      (g.kind? h = some .reference → ∀ v ∈ g.field? h "name", P (g.doc.display v).toList))
    ⟨fun ⟨o, n, v, r⟩ => ⟨o, n, v, r⟩, fun ⟨o, n, v, r⟩ => ⟨o, n, v, r⟩⟩

abbrev HasWholeTexts (g : Graph) (h : Handle) : Prop := g.HasTexts IsWhole h

variable {P : List Char → Prop} {g : Graph} {h : Handle} {ms : List Handle}

theorem HasTexts.mono {Q : List Char → Prop} (hw : g.HasTexts P h) (hPQ : ∀ cs, P cs → Q cs) :
    g.HasTexts Q h where
  override v hv := hPQ _ (hw.override v hv)
  name name hname := hPQ _ (hw.name name hname)
  value hkind v hv := hPQ _ (hw.value hkind v hv)
  reference hkind v hv := hPQ _ (hw.reference hkind v hv)

theorem hasTexts_merged (ms : List Handle) : g.HasTexts P (.merged ms) where
  override v hv := by
    rw [field?_merged (by decide)] at hv
    cases hv
  name v hv := by cases hv
  value hkind := by
    rw [kind?_merged] at hkind
    cases hkind
  reference hkind := by
    rw [kind?_merged] at hkind
    cases hkind

section Pieces

variable {part : String} (hP : IsBracketing P)
include hP

theorem prints_bracketed (hpart : P part.toList) : P ("[" ++ part ++ "]").toList := by
  have henclosed := hP.enclosed (o := '[') (c := ']') rfl rfl hpart
  simpa using henclosed

theorem prints_braced (hpart : P part.toList) : P ("\x7b " ++ part ++ " \x7d").toList := by
  have hblank : P " ".toList := hP.word (by simp [printedWords])
  have henclosed := hP.enclosed (o := '{') (c := '}') rfl rfl
    (hP.append (hP.append hblank hpart) hblank)
  simpa using henclosed

theorem prints_applied {name : String} (hname : P name.toList) (hpart : P part.toList) :
    P (name ++ "<" ++ part ++ ">").toList := by
  have henclosed := hP.append hname (hP.enclosed (o := '<') (c := '>') rfl rfl hpart)
  simpa using henclosed

theorem prints_suffixed (hpart : P part.toList) : P (part ++ "[]").toList := by
  have hbrackets : P "[]".toList := hP.word (by simp [printedWords])
  rw [String.toList_append]
  exact hP.append hpart hbrackets

theorem prints_parenthesized (hpart : P part.toList) : P ("(" ++ part ++ ")[]").toList := by
  have hgrouped : P ("(" ++ part ++ ")").toList := by
    have henclosed := hP.enclosed (o := '(') (c := ')') rfl rfl hpart
    simpa using henclosed
  simpa using prints_suffixed hP hgrouped

theorem prints_entry {key : String} (hkey : P key.toList) (optional : Bool)
    (hpart : P part.toList) : P (key ++ (if optional then "?" else "") ++ ": " ++ part).toList := by
  have hmark : P (if optional then "?" else "").toList := by
    cases optional <;> exact hP.word (by simp [printedWords])
  have hcolon : P ": ".toList := hP.word (by simp [printedWords])
  simp only [String.toList_append]
  exact hP.append (hP.append (hP.append hkey hmark) hcolon) hpart

end Pieces

section Rendering

theorem ensures_symbol : Ensures (g.symbol h) fun s => ∀ s' ∈ s,
    (g.HasTexts P h → P (g.doc.display s'.name).toList) ∧
      ∀ e ∈ s'.arguments, g.HasPart h e := by
  unfold symbol
  split
  · rename_i hkind
    intro s hs
    obtain ⟨es, hes, hs⟩ := bind_eq_ok_iff.mp hs
    split at hs
    · rename_i name hname
      cases hs
      rintro s' hs'
      cases hs'
      exact ⟨fun hw => hw.reference (by simpa [isKind] using hkind) name hname,
        fun e he => .argument hes he⟩
    · cases hs
  · refine .pure fun s' hs' => ?_
    obtain ⟨name, hname, rfl⟩ := Option.map_eq_some_iff.mp hs'
    exact ⟨fun hw => hw.name name hname, by simp⟩

variable {render : Handle → Except Fault Label} (hP : IsBracketing P)
include hP

theorem ensures_joined {es : List Handle} {separator : String} {combine : String → String}
    (hseparator : P separator.toList) (hcombine : ∀ s, P s.toList → P (combine s).toList)
    (h : ∀ e ∈ es, Ensures (render e) (Label.Prints P g.doc)) :
    Ensures (do
      let labels ← es.mapM render
      return Label.text (combine (← Label.join separator labels))) (Label.Prints P g.doc) :=
  (Ensures.mapM h).bind fun _ hlabels =>
    (Label.ensures_join hP hseparator hlabels).bind fun s hs => .pure (hcombine s hs)

theorem ensures_entries {ps : List Property} {key : String → String}
    (hkey : ∀ name, P (key name).toList)
    (h : ∀ p ∈ ps, Ensures (render p.type) (Label.Prints P g.doc)) :
    Ensures (ps.mapM fun p => do
      let label ← render p.type
      return key p.name ++ (if p.optional then "?" else "") ++ ": " ++ label.spliced g.doc)
      fun entries => P ("\x7b " ++ "; ".intercalate entries ++ " \x7d").toList := by
  intro entries hentries
  have hwhole : ∀ e ∈ entries, P e.toList := by
    refine Ensures.mapM (fun p hp => ?_) entries hentries
    exact (h p hp).bind fun l hl => .pure (prints_entry hP (hkey p.name) p.optional hl)
  exact prints_braced hP (hP.intercalateText (hP.word (by simp [printedWords])) hwhole)

theorem ensures_renderObject
    (hproperties : ∀ ps, g.properties h = .ok ps →
      ∀ p ∈ ps, Ensures (render p.type) (Label.Prints P g.doc)) :
    Ensures (do
      let properties ← g.properties h
      if properties.isEmpty then
        return Label.text (if (← g.callSignatures h) = 0 then emptyObject
          else "(...args: any[]) => any")
      else
        let entries ← properties.mapM fun p => do
          let label ← render p.type
          return rawKey p.name ++ (if p.optional then "?" else "") ++ ": " ++ label.spliced g.doc
        return Label.text ("\x7b " ++ "; ".intercalate entries ++ " \x7d"))
      (Label.Prints P g.doc) := by
  intro l hl
  obtain ⟨ps, hps, hl⟩ := bind_eq_ok_iff.mp hl
  split at hl
  · obtain ⟨n, -, hl⟩ := bind_eq_ok_iff.mp hl
    cases hl
    by_cases hn : n = 0
    · rw [if_pos hn]
      exact hP.word (s := emptyObject) (by simp [printedWords])
    · rw [if_neg hn]
      exact hP.word (s := "(...args: any[]) => any") (by simp [printedWords])
  · obtain ⟨entries, hentries, hl⟩ := bind_eq_ok_iff.mp hl
    cases hl
    exact ensures_entries hP (fun name => hP.whole (isWhole_rawKey name)) (hproperties ps hps)
      entries hentries

theorem ensures_renderNode (hw : g.HasTexts P h)
    (hrender : ∀ e, g.HasPart h e → Ensures (render e) (Label.Prints P g.doc)) :
    Ensures (g.renderNode render h) (Label.Prints P g.doc) := by
  have hunknown : P "unknown".toList := hP.word (by simp [printedWords])
  have hmembers {operator : String} (hoperator : P operator.toList) :
      Ensures (do
        let labels ← (← g.members h).mapM render
        return Label.text (← Label.join operator labels)) (Label.Prints P g.doc) := by
    have hid : ∀ s : String, P s.toList → P (id s).toList := fun _ hs => hs
    intro l hl
    obtain ⟨es, hes, hl⟩ := bind_eq_ok_iff.mp hl
    exact ensures_joined hP hoperator hid (fun e he => hrender e (.member hes he)) l hl
  unfold renderNode
  cases hkind : g.kind? h with
  | none =>
    refine ensures_renderObject hP fun ps hps => ?_
    rw [properties, propertiesWithin_of_other (by simp [hkind]) (by simp [hkind])] at hps
    cases hps
    simp
  | some kind =>
    cases kind with
    | primitive =>
      refine .pure ?_
      cases hv : g.field? h "value" with
      | none => exact hunknown
      | some v => exact hw.value hkind v hv
    | array =>
      intro l hl
      obtain ⟨e, he, hl⟩ := bind_eq_ok_iff.mp hl
      cases e with
      | none =>
        cases hl
        exact prints_suffixed hP hunknown
      | some e =>
        obtain ⟨inner, hinner, hl⟩ := bind_eq_ok_iff.mp hl
        have hpart := hrender e (.element he) inner hinner
        simp only at hl
        split at hl <;> cases hl
        · exact prints_parenthesized hP hpart
        · exact prints_suffixed hP hpart
    | tuple =>
      intro l hl
      obtain ⟨es, hes, hl⟩ := bind_eq_ok_iff.mp hl
      exact ensures_joined hP (hP.word (by simp [printedWords])) (fun _ => prints_bracketed hP)
        (fun e he => hrender e (.inTuple hes he)) l hl
    | union => exact hmembers (hP.word (by simp [printedWords]))
    | intersection => exact hmembers (hP.word (by simp [printedWords]))
    | reference =>
      intro l hl
      obtain ⟨s, hs, hl⟩ := bind_eq_ok_iff.mp hl
      cases s with
      | none => cases hl
      | some s =>
        obtain ⟨hname, harguments⟩ := ensures_symbol _ hs s rfl
        simp only at hl
        split at hl
        · cases hl
          rw [Label.Prints, Label.spliced_ofValue]
          exact hname hw
        · exact ensures_joined hP (hP.word (by simp [printedWords]))
            (fun _ => prints_applied hP (hname hw))
            (fun e he => hrender e (harguments e he)) l hl
    | object =>
      refine ensures_renderObject hP fun ps hps p hp => ?_
      rw [properties, propertiesWithin_of_object hkind] at hps
      exact hrender p.type (.property hps hp)

theorem ensures_textWithin (free : List Identity) (h : Handle)
    (hs : g.Throughout (g.HasTexts P) h) :
    Ensures (g.textWithin free h) (Label.Prints P g.doc) := by
  have hany : P "any".toList := hP.word (by simp [printedWords])
  -- A handle is taken from the free ones before its parts are rendered, and a merged type consists
  -- of smaller ones.
  induction free, h using textWithin.induct (g := g) with
  | case1 free h v hv =>
    rw [textWithin_of_override hv]
    exact .pure (hs.self.override v hv)
  | case2 free h hv name hname =>
    rw [textWithin_of_name hv hname]
    exact .pure (hs.self.name name hname)
  | case3 free t =>
    rw [textWithin_leaf]
    exact .pure (hs.self.value (kind?_of_text rfl) (.text t) (by simp [field?, entries, Entries.get?]))
  | case4 free ms _ _ ih =>
    rw [textWithin_merged]
    exact ensures_renderNode hP hs.self fun e he => ih e (hasPart_merged he) (hs.part he)
  | case5 free id hmem hv hname ih =>
    rw [textWithin_of_identity hv hname rfl, if_pos hmem]
    exact ensures_renderNode hP hs.self fun e he => ih e (hs.part he)
  | case6 free id hmem hv hname =>
    rw [textWithin_of_identity hv hname rfl, if_neg hmem]
    exact .pure hany
  | case7 free name backing hmem hv hname ih =>
    rw [textWithin_of_identity hv hname rfl, if_pos hmem]
    exact ensures_renderNode hP hs.self fun e he => ih e (hs.part he)
  | case8 free name backing hmem hv hname =>
    rw [textWithin_of_identity hv hname rfl, if_neg hmem]
    exact .pure hany

end Rendering

end Graph

end RouteCatalog
