import RouteCatalog.Proofs.Expression
import RouteCatalog.Proofs.NestingHeight
import RouteCatalog.Proofs.Normalization

/-! The depth bound cuts only types that are nested deeper. How many levels may be taken apart
matters, not from which depth on; and as soon as there are as many as a type has, every bound gives
the expression that normalization without a bound gives. -/

namespace RouteCatalog.Graph

open TypeExpr

/-- The expression of the second type is asked for when the first is put together. -/
inductive TakesApart (g : Graph) (d : Detector) (h : Handle) : Handle → Prop where
  | element {e : Handle} : g.kind? h = some .array → g.element h = .ok (some e) → TakesApart g d h e
  | inTuple {e : Handle} {es : List Handle} :
      g.kind? h = some .tuple → g.elements h = .ok es → e ∈ es → TakesApart g d h e
  | alternative {m : Handle} {ms : List Handle} :
      g.kind? h = some .union → g.members h = .ok ms → m ∈ ms → TakesApart g d h m
  | member {m : Handle} {ms : List Handle} :
      g.kind? h = some .intersection → g.members h = .ok ms → m ∈ ms → TakesApart g d h m
  | merged {ms : List Handle} {p : Property} {ps : List Property} :
      g.kind? h = some .intersection → g.members h = .ok ms → g.areMergeable ms = .ok true →
      g.properties h = .ok ps → p ∈ ps → TakesApart g d h p.type
  | argument {e : Handle} {s : TypeSymbol} {name : String} :
      g.symbol h = .ok (some s) → g.knownGeneric? (some s) = .ok (some name) → e ∈ s.arguments →
      TakesApart g d h e
  | collapsed {e : Handle} :
      g.kind? h = some .object → d.expandedElement g h = .ok (some e) → TakesApart g d h e
  | property {s : String} {p : Property} {ps : List Property} :
      g.kind? h = some .object → d.expandedElement g h = .ok none → g.text h = .ok (.text s) →
      isClean s.toList = false → g.properties h = .ok ps → p ∈ ps → TakesApart g d h p.type

def IsUnbounded (g : Graph) (d : Detector) (h : Handle) (f : Handle → Except Fault Label) : Prop :=
  ∀ e, Relation.ReflTransGen (g.TakesApart d) h e → f e = g.normalizeNode d f e

variable {g : Graph} {d : Detector} {h e : Handle} {n levels : Nat}
  {f f' : Handle → Except Fault Label}

section Congruence

theorem objectLiteral_congr {ps : List Property} (h : ∀ p ∈ ps, f p.type = f' p.type) :
    g.objectLiteral f ps = g.objectLiteral f' ps := by
  unfold objectLiteral
  refine congrArg (· >>= _) (mapM_congr ?_)
  intro p hp
  rw [h p (List.mem_of_mem_filter hp)]

theorem normalizeIntersection_congr (hkind : g.kind? h = some .intersection)
    (hparts : ∀ e, g.TakesApart d h e → f e = f' e) :
    g.normalizeIntersection f h = g.normalizeIntersection f' h := by
  unfold normalizeIntersection
  apply bind_congr_of_ok
  intro ms hms
  have hliteral : g.mergedLiteral f h ms = g.mergedLiteral f' h ms := by
    unfold mergedLiteral
    apply bind_congr_of_ok
    intro b hb
    cases b with
    | false => rfl
    | true =>
      apply bind_congr_of_ok
      intro ps hps
      apply objectLiteral_congr
      intro p hp
      exact hparts p.type (.merged hkind hms hb hps hp)
  rw [hliteral]
  apply bind_congr_of_ok
  intro literal _
  cases literal with
  | some merged => rfl
  | none =>
    have hmembers : ms.mapM f = ms.mapM f' :=
      mapM_congr fun m hm => hparts m (.member hkind hms hm)
    simp only [hmembers]

theorem normalizeObject_congr (hkind : g.kind? h = some .object)
    (hparts : ∀ e, g.TakesApart d h e → f e = f' e) :
    g.normalizeObject d f h = g.normalizeObject d f' h := by
  unfold normalizeObject
  apply bind_congr_of_ok
  intro element helement
  cases element with
  | some e =>
    simp only [hparts e (.collapsed hkind helement)]
  | none =>
    apply bind_congr_of_ok
    intro raw hraw
    apply bind_congr_of_ok
    intro s hs
    cases raw with
    | bare name => cases hs
    | text t =>
      cases hs
      split_ifs with hclean
      · rfl
      · apply bind_congr_of_ok
        intro count _
        split_ifs
        · apply bind_congr_of_ok
          intro ps hps
          rw [objectLiteral_congr fun p hp => hparts p.type
            (.property hkind helement hraw (Bool.eq_false_iff.mpr hclean) hps hp)]
        · rfl

theorem namedOr_congr {rest rest' : Except Fault Label} (hrest : rest = rest')
    (hparts : ∀ e, g.TakesApart d h e → f e = f' e) :
    g.namedOr f h rest = g.namedOr f' h rest' := by
  subst hrest
  apply bind_congr_of_ok
  intro symbol hsymbol
  apply bind_congr_of_ok
  intro known hknown
  cases known with
  | none => rfl
  | some name =>
    have harguments : ((symbol.map (·.arguments)).getD []).mapM f =
        ((symbol.map (·.arguments)).getD []).mapM f' := by
      cases symbol with
      | none => rfl
      | some s =>
        apply mapM_congr
        intro e he
        exact hparts e (.argument hsymbol hknown he)
    simp only [harguments]

/-- Putting a type together depends on the expressions of its parts only. -/
theorem normalizeNode_congr (hparts : ∀ e, g.TakesApart d h e → f e = f' e) :
    g.normalizeNode d f h = g.normalizeNode d f' h := by
  unfold normalizeNode
  cases hkind : g.kind? h with
  | none => exact namedOr_congr rfl hparts
  | some kind =>
    cases kind with
    | array =>
      apply bind_congr_of_ok
      intro element helement
      cases element with
      | none => rfl
      | some e => simp only [hparts e (.element hkind helement)]
    | tuple =>
      apply bind_congr_of_ok
      intro es hes
      have hlabels : es.mapM f = es.mapM f' :=
        mapM_congr fun e he => hparts e (.inTuple hkind hes he)
      simp only [hlabels]
    | union =>
      apply bind_congr_of_ok
      intro ms hms
      have hlabels : ms.mapM f = ms.mapM f' :=
        mapM_congr fun m hm => hparts m (.alternative hkind hms hm)
      simp only [hlabels]
    | intersection => exact normalizeIntersection_congr hkind hparts
    | primitive => exact namedOr_congr rfl hparts
    | reference => exact namedOr_congr rfl hparts
    | object =>
      apply namedOr_congr _ hparts
      exact normalizeObject_congr hkind hparts

end Congruence

section Stability

/-- Levels beyond the height of a type are not used. -/
theorem normalizeWithin_eq (hh : EndsWithin (g.TakesApart d) n h) (hlevels : n < levels) :
    g.normalizeWithin d levels h = g.normalizeWithin d (n + 1) h := by
  induction n using Nat.strong_induction_on generalizing h levels with
  | _ n ih =>
    obtain ⟨below, rfl⟩ : ∃ below, levels = below + 1 := ⟨levels - 1, by omega⟩
    apply normalizeNode_congr
    intro e he
    obtain ⟨k, rfl, hk⟩ := endsWithin_iff.mp hh e he
    exact ih k (by omega) hk (by omega)

theorem isUnbounded_normalizeWithin (hh : EndsWithin (g.TakesApart d) n h) :
    g.IsUnbounded d h (g.normalizeWithin d (n + 1)) := by
  intro e he
  exact (normalizeWithin_eq (hh.of_reachable he) (by omega : n < n + 2)).symm

theorem IsUnbounded.part (hf : g.IsUnbounded d h f) (he : g.TakesApart d h e) :
    g.IsUnbounded d e f := fun e' he' => hf e' (.head he he')

theorem IsUnbounded.eq_normalizeWithin (hf : g.IsUnbounded d h f)
    (hh : EndsWithin (g.TakesApart d) n h) : f h = g.normalizeWithin d (n + 1) h := by
  induction n using Nat.strong_induction_on generalizing h with
  | _ n ih =>
    rw [hf h .refl]
    apply normalizeNode_congr
    intro e he
    obtain ⟨k, rfl, hk⟩ := endsWithin_iff.mp hh e he
    exact ih k (by omega) (hf.part he) hk

theorem TakesApart.endsWithin (he : g.TakesApart d h e) (hh : EndsWithin g.HasPart n h) :
    ∃ k, n = k + 1 ∧ EndsWithin g.HasPart k e := by
  have hpart := endsWithin_iff.mp hh
  cases he with
  | element _ he => exact hpart e (.element he)
  | inTuple _ hes he => exact hpart e (.inTuple hes he)
  | alternative _ hms hm => exact hpart e (.member hms hm)
  | member _ hms hm => exact hpart e (.member hms hm)
  | merged _ _ _ hps hp => exact type_endsWithin hps hh _ hp
  | argument hs _ he =>
    rcases symbol_cases hs with ⟨-, hes⟩ | hnil
    · exact hpart e (.argument hes he)
    · rw [hnil] at he
      cases he
  | collapsed _ he =>
    refine hpart e (.index ?_)
    obtain ⟨index, hindex, he⟩ := bind_eq_ok_iff.mp he
    cases index with
    | none => cases he
    | some index =>
      obtain ⟨ps, -, he⟩ := bind_eq_ok_iff.mp he
      obtain rfl : index = e := by
        split_ifs at he
        · exact Option.some.inj (Except.ok.inj he)
        · cases he
      exact hindex
  | property _ _ _ _ hps hp => exact type_endsWithin hps hh _ hp

/-- What is taken apart lies deeper, so that the height of a type bounds the levels it has. -/
theorem EndsWithin.takesApart (hh : EndsWithin g.HasPart n h) :
    EndsWithin (g.TakesApart d) n h := by
  induction n using Nat.strong_induction_on generalizing h with
  | _ n ih =>
    rw [endsWithin_iff]
    intro e he
    obtain ⟨k, rfl, hk⟩ := he.endsWithin hh
    exact ⟨k, rfl, ih k (by omega) hk⟩

theorem normalize_shift (maxDepth depth k : Int) :
    Normalizer.normalize ⟨d, maxDepth + k⟩ g h (depth + k) =
      Normalizer.normalize ⟨d, maxDepth⟩ g h depth := by
  have hlevels : Normalizer.levels ⟨d, maxDepth + k⟩ (depth + k) =
      Normalizer.levels ⟨d, maxDepth⟩ depth := by
    unfold Normalizer.levels
    simp only
    omega
  rw [Normalizer.normalize, Normalizer.normalize, hlevels]

end Stability

/-- Raising the bound and the depth together changes nothing. A type that is not met again inside
itself has a nesting height, and whatever has one is given the same expression by every bound that
leaves room for it, which is the one that normalization without a bound gives. -/
theorem depth_bound_is_invisible (g : Graph) (d : Detector) (h : Handle) :
    (∀ maxDepth depth k : Int, Normalizer.normalize ⟨d, maxDepth + k⟩ g h (depth + k) =
      Normalizer.normalize ⟨d, maxDepth⟩ g h depth) ∧
    (g.IsAcyclicFrom h → ∃ height, EndsWithin (g.TakesApart d) height h) ∧
    ∀ height, EndsWithin (g.TakesApart d) height h → ∃ l,
      (∀ maxDepth depth : Int, depth + height ≤ maxDepth →
        Normalizer.normalize ⟨d, maxDepth⟩ g h depth = l) ∧
      (∃ f, g.IsUnbounded d h f) ∧ (∀ f, g.IsUnbounded d h f → f h = l) ∧
      (g.HasAcyclicAliases → g.WellShapedFrom h → ∃ s, l = .ok (.text s)) := by
  refine ⟨normalize_shift, ?_, ?_⟩
  · intro hacyclic
    obtain ⟨n, hn⟩ := isAcyclicFrom_iff.mp hacyclic
    exact ⟨n, hn.takesApart⟩
  · intro height hh
    refine ⟨g.normalizeWithin d (height + 1) h, ?_, ⟨_, isUnbounded_normalizeWithin hh⟩, ?_, ?_⟩
    · intro maxDepth depth hroom
      apply normalizeWithin_eq hh
      unfold Normalizer.levels
      simp only
      omega
    · intro f hf
      exact hf.eq_normalizeWithin hh
    · intro hacyclic hshape
      obtain ⟨l, hl, s, rfl⟩ := yields_normalizeWithin hacyclic d (height + 1) h hshape
      exact ⟨s, hl⟩

/-- An array of a type that states one member twice. -/
def doubled : Graph where
  doc := ⟨#[
    .mapping [(.text "kind", .text "array"), (.text "element", .node 1)],
    .mapping [(.text "kind", .text "union"), (.text "members", .node 2)],
    .list [.text "string", .text "string"]]⟩
  source := "<memory>"
  files := []
  declarations := []

theorem endsWithin_doubled : EndsWithin doubled.HasPart 2 (.anonymous 0) := by
  have harray : doubled.partsOf (.anonymous 0) = [.anonymous 1] := rfl
  have hunion : doubled.partsOf (.anonymous 1) = [.leaf "string", .leaf "string"] := rfl
  have hleaf : doubled.partsOf (.leaf "string") = [] := rfl
  intro e he
  have hmem := mem_partsOf he
  rw [harray, List.mem_singleton] at hmem
  subst hmem
  intro e he
  have hmem := mem_partsOf he
  rw [hunion] at hmem
  obtain rfl : e = .leaf "string" := by simpa using hmem
  intro e he
  have hmem := mem_partsOf he
  rw [hleaf] at hmem
  cases hmem

/-- Two levels are enough for it, and without them the union is cut. -/
theorem doubled_is_cut_only_without_room :
    doubled.IsAcyclicFrom (.anonymous 0) ∧
      (∃ height, EndsWithin (doubled.TakesApart .default) height (.anonymous 0)) ∧
      (∀ maxDepth depth : Int, depth + 2 ≤ maxDepth →
        Normalizer.normalize ⟨.default, maxDepth⟩ doubled (.anonymous 0) depth =
          .ok (.text "string[]")) ∧
      Normalizer.normalize ⟨.default, 0⟩ doubled (.anonymous 0) 0 =
        .ok (.text "Array<string | string>") := by
  have hacyclic := isAcyclicFrom_iff.mpr ⟨2, endsWithin_doubled⟩
  obtain ⟨-, hheight, hroom⟩ := depth_bound_is_invisible doubled .default (.anonymous 0)
  obtain ⟨l, hl, -⟩ := hroom 2 endsWithin_doubled.takesApart
  have helement : doubled.element (.anonymous 0) = .ok (some (.anonymous 1)) := by cbv
  have hms : doubled.members (.anonymous 1) = .ok [.leaf "string", .leaf "string"] := by cbv
  have hunion : Normalizer.normalize ⟨.default, 2⟩ doubled (.anonymous 1) 1 =
      .ok (.text (canonicalUnion ["string", "string"])) := by
    apply normalize_of_union (by decide) (by decide) hms
    simp only [List.mapM_cons, List.mapM_nil, normalize_leaf]
    rfl
  have hwhole : Normalizer.normalize ⟨.default, 2⟩ doubled (.anonymous 0) 0 =
      .ok (.text "string[]") := by
    have hjoined : canonicalUnion ["string", "string"] = "string" := by decide +kernel
    rw [normalize_of_array (by decide) (by decide) helement, Int.zero_add, hunion, hjoined]
    cbv
  have hcut : Normalizer.normalize ⟨.default, 0⟩ doubled (.anonymous 0) 0 =
      .ok (.text "Array<string | string>") := by
    have htext : doubled.text (.anonymous 1) = .ok (.text "string | string") := by
      rw [text, textWithin_of_identity (by cbv) rfl rfl, if_pos (by decide), renderNode]
      have hkind : doubled.kind? (.anonymous 1) = some .union := by decide
      simp only [hkind, hms, bind, Except.bind, List.mapM_cons, List.mapM_nil, textWithin_leaf]
      rfl
    have hraw : Normalizer.normalize ⟨.default, 0⟩ doubled (.anonymous 1) (0 + 1) =
        .ok (.text "string | string") := htext
    rw [normalize_of_array (by decide) (by decide) helement, hraw]
    cbv
  refine ⟨hacyclic, hheight hacyclic, ?_, hcut⟩
  intro maxDepth depth hdepth
  rw [hl maxDepth depth hdepth, ← hl 2 0 (by decide), hwhole]

end RouteCatalog.Graph
