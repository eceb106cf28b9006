import RouteCatalog.Graph.Normalization
import RouteCatalog.Proofs.Rendering

/-! The expression of a type, kind by kind, in terms of the expressions of its parts. -/

namespace RouteCatalog.Graph

open TypeExpr

variable {g : Graph} {n : Normalizer} {h : Handle} {depth : Int} {ms : List Handle}
  {parts : List String}

theorem normalize_leaf (t : String) : n.normalize g (.leaf t) depth = .ok (.text t) := by
  have hkind : g.kind? (.leaf t) = some .primitive := kind?_of_text rfl
  have htext : g.text (.leaf t) = .ok (.text t) := textWithin_leaf t
  unfold Normalizer.normalize
  cases n.levels depth with
  | zero => exact htext
  | succ levels =>
    have hsymbol : g.symbol (.leaf t) = .ok none := by
      unfold symbol
      rw [isKind, hkind]
      rfl
    unfold normalizeWithin normalizeNode
    rw [hkind, hsymbol]
    exact htext

theorem normalize_of_array {e : Handle} (hdepth : depth ≤ n.maxDepth)
    (hkind : g.kind? h = some .array) (helement : g.element h = .ok (some e)) :
    n.normalize g h depth = n.normalize g e (depth + 1) >>= g.arrayOf e := by
  rw [Normalizer.normalize_of_le hdepth]
  unfold normalizeNode
  rw [hkind, helement]
  rfl

theorem normalize_of_union (hdepth : depth ≤ n.maxDepth) (hkind : g.kind? h = some .union)
    (hms : g.members h = .ok ms)
    (hparts : ms.mapM (n.normalize g · (depth + 1)) = .ok (parts.map .text)) :
    n.normalize g h depth = .ok (.text (canonicalUnion parts)) := by
  rw [Normalizer.normalize_of_le hdepth]
  unfold normalizeNode
  rw [hkind]
  simp only [hms, hparts, bind, Except.bind]
  exact Label.union_map_text g.doc parts

theorem normalize_of_intersection (hdepth : depth ≤ n.maxDepth)
    (hkind : g.kind? h = some .intersection) (hms : g.members h = .ok ms)
    (hmerged : g.mergedLiteral (n.normalize g · (depth + 1)) h ms = .ok none)
    (hparts : ms.mapM (n.normalize g · (depth + 1)) = .ok (parts.map .text)) :
    n.normalize g h depth = .ok (.text (joinIntersection parts)) := by
  rw [Normalizer.normalize_of_le hdepth]
  unfold normalizeNode normalizeIntersection
  rw [hkind]
  simp only [hms, hmerged, hparts, bind, Except.bind]
  exact Label.intersection_map_text g.doc parts

theorem normalize_of_merged {l : Label} (hdepth : depth ≤ n.maxDepth)
    (hkind : g.kind? h = some .intersection) (hms : g.members h = .ok ms)
    (hmerged : g.mergedLiteral (n.normalize g · (depth + 1)) h ms = .ok (some l)) :
    n.normalize g h depth = .ok l := by
  rw [Normalizer.normalize_of_le hdepth]
  unfold normalizeNode normalizeIntersection
  rw [hkind]
  simp only [hms, hmerged, bind, Except.bind]
  rfl

theorem symbol_of_object (hkind : g.kind? h = some .object) :
    g.symbol h = .ok (h.name?.map fun name => ⟨.text name, []⟩) := by
  unfold symbol
  rw [isKind, hkind]
  rfl

theorem knownGeneric?_of_name (hname : ∀ name ∈ h.name?, name ∉ knownGenerics) :
    g.knownGeneric? (h.name?.map fun name => ⟨.text name, []⟩) = .ok none := by
  cases hn : h.name? with
  | none => rfl
  | some name => simp [knownGeneric?, hname name hn]

theorem normalize_of_object (hdepth : depth ≤ n.maxDepth) (hkind : g.kind? h = some .object)
    (hname : ∀ name ∈ h.name?, name ∉ knownGenerics) :
    n.normalize g h depth = g.normalizeObject n.detector (n.normalize g · (depth + 1)) h := by
  rw [Normalizer.normalize_of_le hdepth]
  unfold normalizeNode
  rw [hkind]
  simp only [symbol_of_object hkind, knownGeneric?_of_name hname, bind, Except.bind, if_true]

/-- An object that is no known generic prints as its element with brackets behind it if it is an
expanded array. -/
theorem normalize_of_expanded {e : Handle} (hdepth : depth ≤ n.maxDepth)
    (hkind : g.kind? h = some .object) (hname : ∀ name ∈ h.name?, name ∉ knownGenerics)
    (helement : n.detector.expandedElement g h = .ok (some e)) :
    n.normalize g h depth =
      (n.normalize g e (depth + 1)).map fun l => .text (l.spliced g.doc ++ "[]") := by
  rw [normalize_of_object hdepth hkind hname, normalizeObject, helement]
  simp only [bind, Except.bind]
  cases n.normalize g e (depth + 1) <;> rfl

/-- An object that is neither a known generic nor an expanded array keeps its raw rendering while
that is clean. -/
theorem normalize_of_clean {s : String} (hdepth : depth ≤ n.maxDepth)
    (hkind : g.kind? h = some .object) (hname : ∀ name ∈ h.name?, name ∉ knownGenerics)
    (helement : n.detector.expandedElement g h = .ok none) (htext : g.text h = .ok (.text s))
    (hclean : isClean s.toList = true) : n.normalize g h depth = .ok (.text s) := by
  rw [normalize_of_object hdepth hkind hname, normalizeObject, helement, htext]
  simp only [bind, Except.bind, Label.toText, hclean, if_true]
  rfl

/-- Where the raw rendering is not clean, an object that is no function is written out, if one of its
properties can be. -/
theorem normalize_of_noisy {s : String} {ps : List Property} {l : Label}
    (hdepth : depth ≤ n.maxDepth) (hkind : g.kind? h = some .object)
    (hname : ∀ name ∈ h.name?, name ∉ knownGenerics)
    (helement : n.detector.expandedElement g h = .ok none) (htext : g.text h = .ok (.text s))
    (hnoisy : isClean s.toList = false) (hcalls : g.callSignatures h = .ok 0)
    (hps : g.properties h = .ok ps)
    (hliteral : g.objectLiteral (n.normalize g · (depth + 1)) ps = .ok (some l)) :
    n.normalize g h depth = .ok l := by
  rw [normalize_of_object hdepth hkind hname, normalizeObject, helement, htext]
  simp only [bind, Except.bind, Label.toText, hnoisy, Bool.false_eq_true, if_false, hcalls, if_true,
    hps, hliteral]
  rfl

end RouteCatalog.Graph
