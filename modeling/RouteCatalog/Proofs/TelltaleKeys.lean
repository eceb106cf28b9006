import RouteCatalog.Proofs.ExpansionNoise
import RouteCatalog.Proofs.SpelledTypes

/-! What makes a rendering look like an expanded array. If no text is overridden and every leaf is a
name, the texts of all types stand alone, so that the signs of a rendering are those of the keys that
it shows: a type shows one exactly if it spells out an object with a telltale key, however deep. -/

namespace RouteCatalog.Graph

open TypeExpr

/-- What is printed inside a rendering: the type itself and, as long as types are spelled out, those
they print, each with the handles that are free there. -/
inductive Unfolds (g : Graph) : List Identity → Handle → List Identity → Handle → Prop where
  | refl (free : List Identity) (h : Handle) : Unfolds g free h free h
  | part {free free' : List Identity} {h e o : Handle} : g.IsSpelledOut free h → g.Prints h e →
      Unfolds g (h.freeInside free) e free' o → Unfolds g free h free' o

/-- The type is printed as it stands, and if it is a leaf, it is printed as a name. -/
structure HasPlainLeaves (g : Graph) (h : Handle) : Prop where
  override : g.field? h "text" = none
  name : ∀ n ∈ h.name?, isRawKey n.toList = true
  value : h.name? = none → g.kind? h = some .primitive →
    ∀ v ∈ g.field? h "value", isRawKey (g.doc.display v).toList = true
  symbol : h.name? = none → g.kind? h = some .reference →
    ∀ v ∈ g.field? h "name", isRawKey (g.doc.display v).toList = true

/-- An object that is spelled out in the rendering has a property of the name. -/
def ShowsKey (g : Graph) (free : List Identity) (h : Handle) (name : String) : Prop :=
  ∃ free' o ps, g.Unfolds free h free' o ∧ g.IsSpelledOut free' o ∧ g.kind? o = some .object ∧
    g.properties o = .ok ps ∧ ∃ p ∈ ps, p.name = name

/-- The rendering shows a key that is taken for a member of an expanded array. -/
def ShowsTelltale (g : Graph) (free : List Identity) (h : Handle) : Prop :=
  ∃ name, g.ShowsKey free h name ∧ isTelltale name = true

variable {g : Graph} {h e : Handle} {free free' : List Identity} {es : List Handle}
  {ps : List Property} {texts : List String} {P : Handle → Prop}

theorem Unfolds.throughout (hu : g.Unfolds free h free' e) (hP : g.Throughout P h) : P e := by
  induction hu with
  | refl => exact hP.self
  | part _ he _ ih => exact ih (hP.part he.hasPart)

section Shown

theorem not_showsTelltale (hs : ¬ g.IsSpelledOut free h) : ¬ g.ShowsTelltale free h := by
  rintro ⟨_, ⟨_, _, _, hu, hout, _⟩, _⟩
  cases hu with
  | refl => exact hs hout
  | part hself => exact hs hself

/-- A telltale key is the type's own, or it is shown by what the type prints. -/
theorem IsSpelledOut.showsTelltale_iff (hs : g.IsSpelledOut free h) :
    g.ShowsTelltale free h ↔
      (g.kind? h = some .object ∧ ∃ ps, g.properties h = .ok ps ∧
        ∃ p ∈ ps, isTelltale p.name = true) ∨
      ∃ e, g.Prints h e ∧ g.ShowsTelltale (h.freeInside free) e := by
  constructor
  · rintro ⟨name, ⟨free', o, ps, hu, hout, hkind, hps, p, hp, rfl⟩, htelltale⟩
    cases hu with
    | refl => exact .inl ⟨hkind, ps, hps, p, hp, htelltale⟩
    | part _ he hu =>
      exact .inr ⟨_, he, p.name, ⟨free', o, ps, hu, hout, hkind, hps, p, hp, rfl⟩, htelltale⟩
  · rintro (⟨hkind, ps, hps, p, hp, htelltale⟩ | ⟨e, he, name, ⟨free', o, ps, hu, hshown⟩, htelltale⟩)
    · exact ⟨p.name, ⟨free, h, ps, .refl free h, hs, hkind, hps, p, hp, rfl⟩, htelltale⟩
    · exact ⟨name, ⟨free', o, ps, .part hs he hu, hshown⟩, htelltale⟩

end Shown

section Texts

/-- A text of a type that stands alone and has a sign exactly if the type shows a telltale key. -/
structure IsToldBy (g : Graph) (free : List Identity) (h : Handle) (t : List Char) : Prop where
  alone : StandsAlone t
  noise : hasExpansionNoise t = true ↔ g.ShowsTelltale free h

variable {render : Handle → Except Fault Label} {l : Label}

theorem IsToldBy.of_same {t u : List Char} (ht : g.IsToldBy free h t)
    (hu : StandsAlone u ∧ hasExpansionNoise u = hasExpansionNoise t) : g.IsToldBy free h u :=
  ⟨hu.1, hu.2 ▸ ht.noise⟩

theorem IsSpelledOut.showsTelltale_iff_of_parts (hs : g.IsSpelledOut free h)
    (hkind : g.kind? h ≠ some .object) (hprints : ∀ e, g.Prints h e ↔ e ∈ es) :
    g.ShowsTelltale free h ↔ ∃ e ∈ es, g.ShowsTelltale (h.freeInside free) e := by
  rw [hs.showsTelltale_iff]
  simp [hkind, hprints]

theorem prints_element_iff (hkind : g.kind? h = some .array) {e' : Handle}
    (he : g.element h = .ok (some e')) : g.Prints h e ↔ e ∈ [e'] := by
  rw [List.mem_singleton]
  refine ⟨fun hprints => by cases hprints <;> simp_all, ?_⟩
  rintro rfl
  exact .element hkind he

theorem prints_elements_iff (hkind : g.kind? h = some .tuple) (hes : g.elements h = .ok es) :
    g.Prints h e ↔ e ∈ es :=
  ⟨fun hprints => by cases hprints <;> simp_all, .inTuple hkind hes⟩

theorem prints_members_iff (hkind : g.kind? h = some .union ∨ g.kind? h = some .intersection)
    (hes : g.members h = .ok es) : g.Prints h e ↔ e ∈ es :=
  ⟨fun hprints => by rcases hkind with hkind | hkind <;> cases hprints <;> simp_all,
    .member hkind hes⟩

theorem prints_arguments_iff (hkind : g.kind? h = some .reference)
    (hes : g.several h "args" = .ok es) : g.Prints h e ↔ e ∈ es :=
  ⟨fun hprints => by cases hprints <;> simp_all, .argument hkind hes⟩

theorem prints_properties_iff (hkind : g.kind? h = some .object) (hps : g.properties h = .ok ps) :
    g.Prints h e ↔ ∃ p ∈ ps, p.type = e := by
  constructor
  · intro hprints
    cases hprints with
    | property _ hps' hp =>
      cases hps.symm.trans hps'
      exact ⟨_, hp, rfl⟩
    | _ => simp_all
  · rintro ⟨p, hp, rfl⟩
    exact .property hkind hps hp

theorem isToldBy_of_silent (hs : g.IsSpelledOut free h)
    (hproperties : g.kind? h = some .object → g.properties h = .ok [])
    (hnone : ∀ e, ¬ g.Prints h e) {t : List Char}
    (ht : StandsAlone t ∧ hasExpansionNoise t = false) : g.IsToldBy free h t := by
  have hshows : ¬ g.ShowsTelltale free h := by
    rw [hs.showsTelltale_iff]
    rintro (⟨hkind, ps, hps, p, hp, -⟩ | ⟨e, he, -⟩)
    · cases (hproperties hkind).symm.trans hps
      cases hp
    · exact hnone e he
  exact ⟨ht.1, by simp [ht.2, hshows]⟩

theorem isToldBy_of_joined (hs : g.IsSpelledOut free h) (hkind : g.kind? h ≠ some .object)
    (hprints : ∀ e, g.Prints h e ↔ e ∈ es) (htexts : es.mapM render = .ok (texts.map .text))
    (htold : ∀ e, g.Prints h e → ∀ l, render e = .ok l →
      g.IsToldBy (h.freeInside free) e (l.spliced g.doc).toList)
    (separator : String) (hseparator : IsJoint separator.toList) :
    g.IsToldBy free h (separator.intercalate texts).toList := by
  have htext : ∀ s ∈ texts, ∃ e ∈ es, g.IsToldBy (h.freeInside free) e s.toList := by
    intro s hs
    obtain ⟨e, he, hl⟩ := exists_of_mem_mapM htexts (List.mem_map_of_mem hs)
    exact ⟨e, he, htold e ((hprints e).mpr he) _ hl⟩
  have halone : ∀ t ∈ texts.map String.toList, StandsAlone t := by
    intro t ht
    obtain ⟨s, hs, rfl⟩ := List.mem_map.mp ht
    obtain ⟨e, -, htext⟩ := htext s hs
    exact htext.alone
  rw [String.toList_intercalate]
  obtain ⟨hjoined, hnoise⟩ := standsAlone_intercalate hseparator halone
  refine ⟨hjoined, ?_⟩
  rw [hnoise, List.any_eq_true, hs.showsTelltale_iff_of_parts hkind hprints]
  constructor
  · rintro ⟨t, ht, hsign⟩
    obtain ⟨s, hs, rfl⟩ := List.mem_map.mp ht
    obtain ⟨e, he, htext⟩ := htext s hs
    exact ⟨e, he, htext.noise.mp hsign⟩
  · rintro ⟨e, he, hshows⟩
    obtain ⟨l, hl, hrender⟩ := exists_mem_of_mapM htexts he
    obtain ⟨s, hs, rfl⟩ := List.mem_map.mp hl
    exact ⟨s.toList, List.mem_map_of_mem hs,
      (htold e ((hprints e).mpr he) _ hrender).noise.mpr hshows⟩

end Texts

section Nodes

variable {render : Handle → Except Fault Label} {l : Label}

/-- An object that is spelled out shows the keys of its properties and what these show. -/
theorem isToldBy_of_object (hs : g.IsSpelledOut free h) (hkind : g.kind? h = some .object)
    (hps : g.properties h = .ok ps) {labels : List Label}
    (hlabels : ps.mapM (render ·.type) = .ok labels)
    (htold : ∀ e, g.Prints h e → ∀ l, render e = .ok l →
      g.IsToldBy (h.freeInside free) e (l.spliced g.doc).toList) :
    g.IsToldBy free h ("\x7b " ++ "; ".intercalate (List.zipWith g.entryText ps labels) ++
      " \x7d").toList := by
  have hprints {p : Property} (hp : p ∈ ps) : g.Prints h p.type := .property hkind hps hp
  have hentry {p : Property} {l : Label} (hp : p ∈ ps) (hl : render p.type = .ok l) :
      IsApart (g.entryText p l).toList ∧ (hasExpansionNoise (g.entryText p l).toList = true ↔
        isTelltale p.name = true ∨ g.ShowsTelltale (h.freeInside free) p.type) := by
    have hpart := htold p.type (hprints hp) l hl
    obtain ⟨hapart, hnoise⟩ := isApart_entry p.name p.optional hpart.alone.apart
    have htext : (g.entryText p l).toList = (rawKey p.name).toList ++
        ((if p.optional then ['?'] else []) ++ ':' :: ' ' :: (l.spliced g.doc).toList) := by
      unfold entryText
      cases p.optional <;> simp
    rw [htext, hnoise, Bool.or_eq_true, hpart.noise]
    exact ⟨hapart, Iff.rfl⟩
  have hentries : ∀ t ∈ (List.zipWith g.entryText ps labels).map String.toList, IsApart t := by
    intro t ht
    obtain ⟨s, hs, rfl⟩ := List.mem_map.mp ht
    obtain ⟨p, hp, l, hl, rfl⟩ := exists_of_mem_zipWith hlabels hs
    exact (hentry hp hl).1
  obtain ⟨hjoined, hnoise⟩ := isApart_intercalate (isJoint_of_mem (t := [';', ' ']) (by simp))
    hentries
  obtain ⟨hclosed, hclosing⟩ := hjoined.append_joint (isJoint_of_mem (t := [' ', '\x7d']) (by simp))
  obtain ⟨halone, hopening⟩ := hclosed.prepend '\x7b' [' '] (by simp [punctuation])
    (by decide)
  have htext : ("\x7b " ++ "; ".intercalate (List.zipWith g.entryText ps labels) ++ " \x7d").toList =
      ['\x7b', ' '] ++ ([';', ' '].intercalate
        ((List.zipWith g.entryText ps labels).map String.toList) ++ [' ', '\x7d']) := by
    simp [String.toList_intercalate]
  rw [htext]
  refine ⟨halone, ?_⟩
  rw [hopening, hclosing, hnoise, List.any_eq_true, hs.showsTelltale_iff]
  constructor
  · rintro ⟨t, ht, hsign⟩
    obtain ⟨s, hs, rfl⟩ := List.mem_map.mp ht
    obtain ⟨p, hp, l, hl, rfl⟩ := exists_of_mem_zipWith hlabels hs
    rcases (hentry hp hl).2.mp hsign with htelltale | hshows
    · exact .inl ⟨hkind, ps, hps, p, hp, htelltale⟩
    · exact .inr ⟨p.type, hprints hp, hshows⟩
  · intro hshows
    have hown : ∃ p ∈ ps, isTelltale p.name = true ∨
        g.ShowsTelltale (h.freeInside free) p.type := by
      rcases hshows with ⟨_, _, hps', p, hp, htelltale⟩ | ⟨e, he, hshows⟩
      · cases hps.symm.trans hps'
        exact ⟨p, hp, .inl htelltale⟩
      · obtain ⟨p, hp, rfl⟩ := (prints_properties_iff hkind hps).mp he
        exact ⟨p, hp, .inr hshows⟩
    obtain ⟨p, hp, hown⟩ := hown
    obtain ⟨l, -, hl⟩ := exists_mem_of_mapM hlabels hp
    exact ⟨_, List.mem_map_of_mem (mem_zipWith_of_mapM hlabels hp hl), (hentry hp hl).2.mpr hown⟩

theorem isToldBy_of_isRenderedAs (hs : g.IsSpelledOut free h) (hplain : g.HasPlainLeaves h)
    (hl : g.IsRenderedAs render h l)
    (htold : ∀ e, g.Prints h e → ∀ l, render e = .ok l →
      g.IsToldBy (h.freeInside free) e (l.spliced g.doc).toList) :
    g.IsToldBy free h (l.spliced g.doc).toList := by
  have hname := hs.name
  cases hl with
  | value hkind =>
    refine isToldBy_of_silent hs (by simp [hkind]) (fun e he => by cases he <;> simp_all) ?_
    cases hv : g.field? h "value" with
    | none => exact standsAlone_of_isIdentifier "unknown".toList (by decide)
    | some v => exact standsAlone_of_isRawKey (hplain.value hname hkind v hv)
  | openArray hkind he =>
    refine isToldBy_of_silent hs (by simp [hkind]) (fun e he => by cases he <;> simp_all) ?_
    exact standsAlone_unknownList
  | @array e l s hkind he hl htext =>
    have helement := htold e (.element hkind he) l hl
    have hiff := hs.showsTelltale_iff_of_parts (by simp [hkind]) fun e =>
      prints_element_iff hkind he
    have hinner : g.IsToldBy free h (l.spliced g.doc).toList := by
      refine ⟨helement.alone, ?_⟩
      rw [hiff, helement.noise]
      simp
    rcases htext with rfl | rfl
    · obtain ⟨hclosed, hclosing⟩ := hinner.alone.append_joint
        (isJoint_of_mem (t := [')', '[', ']']) (by simp))
      obtain ⟨hwhole, hopening⟩ := hclosed.apart.prepend '(' []
        (by simp [punctuation]) (by decide)
      exact hinner.of_same (by simpa [Label.spliced] using And.intro hwhole (hopening.trans hclosing))
    · exact hinner.of_same (by simpa [Label.spliced] using hinner.alone.append_joint isJoint_brackets)
  | @tuple es texts hkind hes htexts =>
    have hjoined := isToldBy_of_joined hs (by simp [hkind]) (fun e => prints_elements_iff hkind hes)
      htexts htold ", " (isJoint_of_mem (by simp))
    obtain ⟨hclosed, hclosing⟩ := hjoined.alone.append_joint (isJoint_of_mem (t := [']']) (by simp))
    obtain ⟨hwhole, hopening⟩ := hclosed.prepend_bracket
    exact hjoined.of_same (by simpa [Label.spliced] using And.intro hwhole (hopening.trans hclosing))
  | union hkind hes htexts =>
    exact isToldBy_of_joined hs (by simp [hkind]) (fun e => prints_members_iff (.inl hkind) hes)
      htexts htold _ (isJoint_of_mem (by simp))
  | intersection hkind hes htexts =>
    exact isToldBy_of_joined hs (by simp [hkind]) (fun e => prints_members_iff (.inr hkind) hes)
      htexts htold _ (isJoint_of_mem (by simp))
  | name hkind hv hes =>
    rw [Label.spliced_ofValue]
    refine isToldBy_of_silent hs (by simp [hkind]) (fun e he => ?_)
      (standsAlone_of_isRawKey (hplain.symbol hname hkind _ hv))
    rw [prints_arguments_iff hkind hes] at he
    cases he
  | applied hkind hv hes htexts =>
    have hjoined := isToldBy_of_joined hs (by simp [hkind]) (fun e => prints_arguments_iff hkind hes)
      htexts htold ", " (isJoint_of_mem (by simp))
    obtain ⟨hkey, hsilent⟩ := standsAlone_of_isRawKey (hplain.symbol hname hkind _ hv)
    exact hjoined.of_same
      (by simpa [Label.spliced] using hkey.append_arguments hsilent hjoined.alone.apart)
  | empty hkind hps htext =>
    refine isToldBy_of_silent hs (fun _ => hps) (fun e he => ?_) ?_
    · rcases hkind with hkind | hkind <;> cases he <;> simp_all
    · rcases htext with rfl | rfl
      · exact standsAlone_emptyObject
      · exact standsAlone_signature
  | object hkind hps hlabels => exact isToldBy_of_object hs hkind hps hlabels htold

end Nodes

/-- Whatever a type is rendered as, if what it prints has plain leaves. -/
theorem isToldBy_of_textWithin (hplain : ∀ free' e, g.Unfolds free h free' e → g.HasPlainLeaves e)
    {l : Label} (hl : g.textWithin free h = .ok l) :
    g.IsToldBy free h (l.spliced g.doc).toList := by
  induction free, h using textWithin_induction (g := g) generalizing l with
  | override free h v hv =>
    have hnone := (hplain free h (.refl free h)).override
    rw [hv] at hnone
    cases hnone
  | name free h n hv hname =>
    rw [textWithin_of_name hv hname] at hl
    cases hl
    have hkey := standsAlone_of_isRawKey ((hplain free h (.refl free h)).name n hname)
    refine ⟨hkey.1, ?_⟩
    have hshows : ¬ g.ShowsTelltale free h := not_showsTelltale fun hs => by
      rw [hs.name] at hname
      cases hname
    simp [Label.spliced, hkey.2, hshows]
  | repetition free h hs htext =>
    rw [htext] at hl
    cases hl
    have hany := standsAlone_of_isIdentifier "any".toList (by decide)
    exact ⟨hany.1, by simpa [Label.spliced, not_showsTelltale hs] using hany.2⟩
  | spelledOut free h hs ih =>
    rw [hs.textWithin_eq] at hl
    refine isToldBy_of_isRenderedAs hs (hplain free h (.refl free h))
      (isRenderedAs_of_renderNode hl) fun e he l hl => ?_
    exact ih e he (fun free' o hu => hplain free' o (.part hs he hu)) hl

/-- If every leaf that is printed is a name and no text is overridden, a rendering has signs of an
expanded array exactly if it shows a telltale key. A well-shaped type has a rendering. -/
theorem expansion_noise_iff_shows_telltale
    (hplain : ∀ free e, g.Unfolds g.identities h free e → g.HasPlainLeaves e) :
    (∀ s, g.text h = .ok (.text s) → (hasExpansionNoise s.toList = true ↔
      ∃ name, g.ShowsKey g.identities h name ∧ isTelltale name = true)) ∧
    (g.HasAcyclicAliases → g.WellShapedFrom h → ∃ s, g.text h = .ok (.text s)) := by
  constructor
  · intro s hs
    exact (isToldBy_of_textWithin hplain hs).noise
  · intro hacyclic hshaped
    obtain ⟨l, hl, s, rfl⟩ := yields_textWithin hacyclic g.identities h hshaped
    exact ⟨s, hl⟩

/-- An object whose only property ends in the name of an array method. -/
def confectionery : Graph where
  doc := ⟨#[
    .mapping [(.text "kind", .text "object"), (.text "properties", .node 1)],
    .mapping [(.text "lollipop", .text "string")]]⟩
  source := "<memory>"
  files := []
  declarations := []

set_option maxRecDepth 100000 in
theorem lollipop_is_taken_for_method :
    (∀ free e, confectionery.Unfolds confectionery.identities (.anonymous 0) free e →
      confectionery.HasPlainLeaves e) ∧
    confectionery.text (.anonymous 0) = .ok (.text "\x7b lollipop: string \x7d") ∧
    hasExpansionNoise "\x7b lollipop: string \x7d".toList = true ∧
    (∀ name, confectionery.ShowsKey confectionery.identities (.anonymous 0) name →
      name.toList ∉ telltaleMethods) := by
  have hkind : confectionery.kind? (.anonymous 0) = some .object := by cbv
  have htypes : confectionery.Throughout (fun e => confectionery.HasPlainLeaves e ∧
      (confectionery.kind? e = some .object →
        confectionery.properties e = .ok [⟨"lollipop", .leaf "string", false⟩])) (.anonymous 0) := by
    have hparts : ∀ e ∈ [Handle.anonymous 0, .leaf "string"],
        ∀ p ∈ confectionery.partsOf e, p ∈ [Handle.anonymous 0, .leaf "string"] := by
      have hleaf : confectionery.partsOf (.leaf "string") = [] := rfl
      have hobject : confectionery.partsOf (.anonymous 0) = [.leaf "string"] := rfl
      simp [hleaf, hobject]
    refine throughout_of_closed [.anonymous 0, .leaf "string"] (by simp) ?_ hparts
    simp only [List.forall_mem_cons]
    have hproperties : confectionery.properties (.anonymous 0) =
        .ok [⟨"lollipop", .leaf "string", false⟩] := (propertiesWithin_of_object hkind).trans (by cbv)
    have hprimitive : confectionery.kind? (.leaf "string") = some .primitive := kind?_of_text rfl
    have hword : isRawKey "string".toList = true := (isIdentifier_iff.mp (by decide)).1
    refine ⟨⟨⟨by cbv, by simp [Handle.name?], by simp [hkind], by simp [hkind]⟩, fun _ => hproperties⟩,
      ⟨⟨by cbv, by simp [Handle.name?], ?_, by simp [hprimitive]⟩, by simp [hprimitive]⟩, by simp⟩
    intro _ _ v hv
    cases hv
    exact hword
  have hplain : ∀ free e, confectionery.Unfolds confectionery.identities (.anonymous 0) free e →
      confectionery.HasPlainLeaves e := fun free e hu => (hu.throughout htypes).1
  have htext : confectionery.text (.anonymous 0) = .ok (.text "\x7b lollipop: string \x7d") := by
    cbv
  have hshows : confectionery.ShowsKey confectionery.identities (.anonymous 0) "lollipop" :=
    ⟨_, _, _, .refl _ _, ⟨by cbv, rfl, by decide⟩, hkind, htypes.self.2 hkind, _,
      List.mem_singleton_self _, rfl⟩
  have htelltale : isTelltale "lollipop" = true := by
    rw [isTelltale, if_pos (isIdentifier_iff.mp (by decide)).1]
    decide
  refine ⟨hplain, htext, ?_, ?_⟩
  · rw [(expansion_noise_iff_shows_telltale hplain).1 _ htext]
    exact ⟨"lollipop", hshows, htelltale⟩
  · rintro name ⟨free', o, ps, hu, -, hkind, hps, p, hp, rfl⟩
    cases ((hu.throughout htypes).2 hkind).symm.trans hps
    rw [List.mem_singleton] at hp
    subst hp
    decide

end RouteCatalog.Graph
