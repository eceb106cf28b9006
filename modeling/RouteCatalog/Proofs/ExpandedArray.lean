import RouteCatalog.Proofs.Expression

/-! Expanded arrays beside arrays. An array wraps an element that shows an operator or an arrow; an
expanded array puts the brackets behind whatever its element prints, so the two differ exactly where
an array would wrap. -/

namespace RouteCatalog.Graph

open TypeExpr

variable {g : Graph} {n : Normalizer} {h a e : Handle} {depth : Int}

/-- What an element prints stands before the brackets of an array as it is. -/
def StandsBare (g : Graph) (e : Handle) (l : Label) : Prop :=
  ∃ cs, l.toChars g.doc = .ok cs ∧
    ((g.isKind .union e || g.isKind .intersection e) && isCompound cs) = false ∧
    isFunction cs = false

theorem wrapped_ne_bare {opening closing : String} (h : 2 < opening.length + closing.length)
    (t : String) : opening ++ t ++ closing ≠ t ++ "[]" := by
  intro heq
  have hlength := congrArg String.length heq
  have hbrackets : "[]".length = 2 := rfl
  simp only [String.length_append, hbrackets] at hlength
  omega

theorem arrayOf_eq_iff_standsBare (l : Label) :
    g.arrayOf e l = .ok (.text (l.spliced g.doc ++ "[]")) ↔ g.StandsBare e l := by
  unfold arrayOf StandsBare
  cases l.toChars g.doc with
  | error fault => simp [bind, Except.bind]
  | ok cs =>
    have hangle := wrapped_ne_bare (by decide : 2 < "Array<".length + ">".length) (l.spliced g.doc)
    have hround := wrapped_ne_bare (by decide : 2 < "(".length + ")[]".length) (l.spliced g.doc)
    simp only [bind, Except.bind, Except.ok.injEq, exists_eq_left']
    generalize ((g.isKind .union e || g.isKind .intersection e) && isCompound cs) = compound
    cases compound with
    | true => simp [pure, Except.pure, hangle]
    | false => cases isFunction cs <;> simp [pure, Except.pure, hround]

/-- An expanded array prints its element with brackets behind it, and like the array of that element
exactly if the element needs nothing around it there. -/
theorem expanded_prints_like_array_iff (hdepth : depth ≤ n.maxDepth)
    (hkind : g.kind? h = some .object) (hname : ∀ name ∈ h.name?, name ∉ knownGenerics)
    (hexpanded : n.detector.expandedElement g h = .ok (some e))
    (harray : g.kind? a = some .array) (helement : g.element a = .ok (some e)) :
    n.normalize g h depth =
        (n.normalize g e (depth + 1)).map (fun l => .text (l.spliced g.doc ++ "[]")) ∧
      (n.normalize g h depth = n.normalize g a depth ↔
        ∀ l, n.normalize g e (depth + 1) = .ok l → g.StandsBare e l) := by
  have hcollapsed := normalize_of_expanded hdepth hkind hname hexpanded
  refine ⟨hcollapsed, ?_⟩
  rw [hcollapsed, normalize_of_array hdepth harray helement]
  cases n.normalize g e (depth + 1) with
  | error fault => simp [Except.map, bind, Except.bind]
  | ok l =>
    simp only [Except.map, bind, Except.bind, Except.ok.injEq, forall_eq']
    rw [eq_comm, arrayOf_eq_iff_standsBare]

def spread : Graph where
  doc := ⟨#[
    .mapping [(.text "kind", .text "object"), (.text "number_index", .node 2),
      (.text "properties", .node 1)],
    .mapping [(.text "length", .text "number"), (.text "push", .text "any")],
    .mapping [(.text "kind", .text "union"), (.text "members", .node 3)],
    .list [.text "string", .text "number"],
    .mapping [(.text "kind", .text "array"), (.text "element", .node 2)]]⟩
  source := "<memory>"
  files := []
  declarations := []

def spreadNormalizer : Normalizer := ⟨⟨["length", "push", "pop"], .real 0.5⟩, 10⟩

set_option maxRecDepth 100000 in
theorem spread_differs :
    (0 : Int) ≤ spreadNormalizer.maxDepth ∧ spread.kind? (.anonymous 0) = some .object ∧
      (∀ name ∈ (Handle.anonymous 0).name?, name ∉ knownGenerics) ∧
      spreadNormalizer.detector.expandedElement spread (.anonymous 0) =
        .ok (some (.anonymous 2)) ∧
      spread.kind? (.anonymous 4) = some .array ∧
      spread.element (.anonymous 4) = .ok (some (.anonymous 2)) ∧
      spreadNormalizer.normalize spread (.anonymous 0) 0 = .ok (.text "string | number[]") ∧
      spreadNormalizer.normalize spread (.anonymous 0) 0 ≠
        spreadNormalizer.normalize spread (.anonymous 4) 0 := by
  have hdepth : (0 : Int) ≤ spreadNormalizer.maxDepth := by decide
  have hkind : spread.kind? (.anonymous 0) = some .object := by cbv
  have hname : ∀ name ∈ (Handle.anonymous 0).name?, name ∉ knownGenerics := by simp [Handle.name?]
  have hexpanded : spreadNormalizer.detector.expandedElement spread (.anonymous 0) =
      .ok (some (.anonymous 2)) := by
    have hindex : spread.numberIndex (.anonymous 0) = .ok (some (.anonymous 2)) := by cbv
    have hproperties : spread.properties (.anonymous 0) =
        .ok [⟨"length", .leaf "number", false⟩, ⟨"push", .leaf "any", false⟩] := by cbv
    have hrecognized :
        spreadNormalizer.detector.recognizes ["length", "push"] = true := by decide +kernel
    unfold Detector.expandedElement
    rw [hindex]
    simp only [bind, Except.bind, hproperties, List.map_cons, List.map_nil, hrecognized]
    rfl
  have harray : spread.kind? (.anonymous 4) = some .array := by cbv
  have helement : spread.element (.anonymous 4) = .ok (some (.anonymous 2)) := by cbv
  have hunion : spreadNormalizer.normalize spread (.anonymous 2) 1 =
      .ok (.text "string | number") := by
    have hms : spread.members (.anonymous 2) = .ok [.leaf "string", .leaf "number"] := by cbv
    have htext : canonicalUnion ["string", "number"] = "string | number" := by decide +kernel
    rw [← htext]
    refine normalize_of_union (by decide) (by cbv) hms ?_
    simp only [List.mapM_cons, normalize_leaf]
    rfl
  obtain ⟨hcollapsed, hiff⟩ :=
    expanded_prints_like_array_iff hdepth hkind hname hexpanded harray helement
  refine ⟨hdepth, hkind, hname, hexpanded, harray, helement, ?_, ?_⟩
  · rw [hcollapsed, Int.zero_add, hunion]
    exact congrArg (Except.ok ∘ Label.text) (by decide +kernel)
  · rw [Ne, hiff]
    intro hbare
    obtain ⟨cs, hcs, hoperator, -⟩ := hbare _ hunion
    cases hcs
    revert hoperator
    decide +kernel

end RouteCatalog.Graph
