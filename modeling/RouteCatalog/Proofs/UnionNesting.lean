import RouteCatalog.Proofs.Expression
import RouteCatalog.Proofs.UnionTree

/-! How nested unions print. Normalization prints what the tree of the unions inside one another
shows, which is told apart here from the canonical order of all the alternatives. -/

namespace RouteCatalog

open TypeExpr

def Graph.alternativeWithin (g : Graph) (d : Detector) (levels : Nat) (h : Handle) :
    Except Fault (UnionTree (Handle × String)) := do
  return .alternative (h, ← (← g.normalizeWithin d levels h).toText)

/-- The unions that normalization takes a type apart into, down to alternatives with what each of
them prints where it stands. -/
def Graph.unionTreeWithin (g : Graph) (d : Detector) :
    Nat → Handle → Except Fault (UnionTree (Handle × String))
  | 0, h => g.alternativeWithin d 0 h
  | levels + 1, h =>
    if g.isKind .union h then do
      return .union (← (← g.members h).mapM (unionTreeWithin g d levels))
    else g.alternativeWithin d (levels + 1) h

def Normalizer.unionTree (n : Normalizer) (g : Graph) (h : Handle) (depth : Int) :
    Except Fault (UnionTree (Handle × String)) :=
  g.unionTreeWithin n.detector (n.levels depth) h

namespace Graph

variable {g : Graph} {d : Detector} {n : Normalizer} {h f : Handle} {depth : Int}
  {ms : List Handle} {t : UnionTree (Handle × String)}

theorem alternativeWithin_eq_ok_iff {levels : Nat} :
    g.alternativeWithin d levels h = .ok t ↔
      ∃ s, g.normalizeWithin d levels h = .ok (.text s) ∧ t = .alternative (h, s) := by
  constructor
  · intro ht
    obtain ⟨l, hl, ht⟩ := bind_eq_ok_iff.mp ht
    obtain ⟨s, hs, ht⟩ := bind_eq_ok_iff.mp ht
    cases ht
    cases l with
    | text s' =>
      cases hs
      exact ⟨_, hl, rfl⟩
    | bare v => cases hs
  · rintro ⟨s, hs, rfl⟩
    unfold alternativeWithin
    rw [hs]
    rfl

theorem unionTree_of_union (hdepth : depth ≤ n.maxDepth) (hkind : g.kind? h = some .union)
    (hms : g.members h = .ok ms) :
    n.unionTree g h depth = (ms.mapM (n.unionTree g · (depth + 1))).map .union := by
  have hunion : g.isKind .union h = true := by simp [isKind, hkind]
  unfold Normalizer.unionTree
  rw [Normalizer.levels_of_le hdepth, unionTreeWithin, if_pos hunion, hms]
  rfl

theorem unionTree_leaf (text : String) :
    n.unionTree g (.leaf text) depth = .ok (.alternative (.leaf text, text)) := by
  have hkind : g.isKind .union (.leaf text) = false := by
    rw [isKind, kind?_of_text rfl]
    rfl
  have htext : g.alternativeWithin n.detector (n.levels depth) (.leaf text) =
      .ok (.alternative (.leaf text, text)) :=
    alternativeWithin_eq_ok_iff.mpr ⟨text, normalize_leaf text, rfl⟩
  unfold Normalizer.unionTree
  cases hlevels : n.levels depth with
  | zero => rwa [hlevels] at htext
  | succ levels =>
    rw [hlevels] at htext
    rwa [unionTreeWithin, hkind, if_neg (by decide)]

/-- A union prints the alternatives that its members show, whatever unions there are among them. -/
theorem normalizeWithin_eq_shown {levels : Nat} (ht : g.unionTreeWithin d levels h = .ok t)
    (hinhabited : t.IsInhabited) (halternative : ∀ a ∈ t.leaves, IsAlternative a.2) :
    g.normalizeWithin d levels h = .ok (.text (alternation (t.shown Prod.snd))) := by
  induction levels generalizing h t with
  | zero =>
    obtain ⟨s, hs, rfl⟩ := alternativeWithin_eq_ok_iff.mp ht
    exact hs
  | succ levels ih =>
    unfold unionTreeWithin at ht
    split at ht
    · rename_i hkind
      have hunion : g.kind? h = some .union := by simpa [isKind] using hkind
      obtain ⟨ms, hms, ht⟩ := bind_eq_ok_iff.mp ht
      obtain ⟨ts, hts, ht⟩ := bind_eq_ok_iff.mp ht
      cases ht
      have hparts : ms.mapM (g.normalizeWithin d levels) =
          .ok (ts.map fun t => .text (alternation (t.shown Prod.snd))) := by
        cases hinhabited with
        | union _ hinhabited =>
          refine mapM_eq_ok_map hts fun m t ht hm => ih hm (hinhabited t ht) fun a ha => ?_
          exact halternative a (UnionTree.mem_leaves_union ht ha)
      unfold normalizeWithin normalizeNode
      rw [hunion]
      simp only [hms, hparts, bind, Except.bind]
      rw [UnionTree.alternation_shown_union hinhabited halternative, ← Label.union_map_text,
        List.map_map]
      rfl
    · obtain ⟨s, hs, rfl⟩ := alternativeWithin_eq_ok_iff.mp ht
      exact hs

/-- A union with unions among its members prints like the flat union of all the alternatives exactly
if the same operands are written in both. If the alternatives can be told apart, the nested union
shows each of them, only truth values may be folded elsewhere, and it prints like the flat one if
those of the unions inside it stay put. -/
theorem union_nesting_shows_iff (hdepth : depth ≤ n.maxDepth)
    (htree : n.unionTree g h depth = .ok t) (hinhabited : t.IsInhabited)
    (hflat : g.kind? f = some .union) (hmembers : g.members f = .ok (t.leaves.map Prod.fst))
    (hprinted : ∀ a ∈ t.leaves, n.normalize g a.1 (depth + 1) = .ok (.text a.2))
    (halternative : ∀ a ∈ t.leaves, IsAlternative a.2) :
    (n.normalize g h depth = .ok (.text (alternation (t.shown Prod.snd))) ∧
      n.normalize g f depth = .ok (.text (canonicalUnion (t.leaves.map Prod.snd)))) ∧
    (n.normalize g h depth = n.normalize g f depth ↔
      written (t.shown Prod.snd) = written (unionMembers (t.leaves.map Prod.snd))) ∧
    (AreApart (t.leaves.map Prod.snd) →
      (∀ p, p ∉ truthValues → (p ∈ t.shown Prod.snd ↔ p ∈ t.leaves.map Prod.snd)) ∧
      ((∀ m ∈ t.members, m.isUnion = true → ∀ p ∈ m.leaves.map Prod.snd,
          StaysPut (t.leaves.map Prod.snd) p) →
        n.normalize g h depth = n.normalize g f depth)) := by
  have hnested : n.normalize g h depth = .ok (.text (alternation (t.shown Prod.snd))) :=
    normalizeWithin_eq_shown htree hinhabited halternative
  have hcanonical :
      n.normalize g f depth = .ok (.text (canonicalUnion (t.leaves.map Prod.snd))) := by
    have hparts : (t.leaves.map Prod.fst).mapM (n.normalize g · (depth + 1)) =
        .ok ((t.leaves.map Prod.snd).map .text) := by
      rw [mapM_eq_ok_iff, List.forall₂_map_left_iff, List.forall₂_map_right_iff,
        List.forall₂_map_right_iff, List.forall₂_same]
      exact hprinted
    exact normalize_of_union hdepth hflat hmembers hparts
  have hshown : ∀ p ∈ t.shown Prod.snd, IsAlternative p := fun p hp =>
    UnionTree.isAlternative_of_mem_shown halternative hp
  have hunion : ∀ p ∈ unionMembers (t.leaves.map Prod.snd), IsAlternative p := by
    intro p hp
    rcases mem_of_mem_unionMembers hp with hp | rfl
    · obtain ⟨a, ha, rfl⟩ := List.mem_map.mp hp
      exact halternative a ha
    · exact isAlternative_boolean
  refine ⟨⟨hnested, hcanonical⟩, ?_, fun hapart => ⟨fun p hp => ?_, fun hstays => ?_⟩⟩
  · have hleaves : t.leaves.map Prod.snd ≠ [] := by simpa using UnionTree.leaves_ne_nil hinhabited
    rw [hnested, hcanonical, ← alternation_eq_iff (UnionTree.shown_ne_nil hinhabited)
      (unionMembers_ne_nil hleaves) hshown hunion]
    simp only [Except.ok.injEq, Label.text.injEq]
    rfl
  · exact UnionTree.mem_shown_iff hinhabited hapart hp
  · rw [hnested, hcanonical, UnionTree.shown_eq_unionMembers hinhabited hapart hstays]
    rfl

/-- Two unions that share `null`, as the members of a union, and the union of their members. -/
def halves : Graph where
  doc := ⟨#[
    .mapping [(.text "kind", .text "union"), (.text "members", .node 1)],
    .list [.node 2, .node 4],
    .mapping [(.text "kind", .text "union"), (.text "members", .node 3)],
    .list [.text "string", .text "null"],
    .mapping [(.text "kind", .text "union"), (.text "members", .node 5)],
    .list [.text "null", .text "number"],
    .mapping [(.text "kind", .text "union"), (.text "members", .node 7)],
    .list [.text "string", .text "null", .text "null", .text "number"]]⟩
  source := "<memory>"
  files := []
  declarations := []

def halvesTree : UnionTree (Handle × String) :=
  let leaf (text : String) := UnionTree.alternative (Handle.leaf text, text)
  .union [.union [leaf "string", leaf "null"], .union [leaf "null", leaf "number"]]

set_option maxRecDepth 100000 in
theorem halves_repeat_null :
    Normalizer.unionTree ⟨.default, 10⟩ halves (.anonymous 0) 0 = .ok halvesTree ∧
      halvesTree.IsInhabited ∧ halves.kind? (.anonymous 6) = some .union ∧
      halves.members (.anonymous 6) = .ok (halvesTree.leaves.map Prod.fst) ∧
      (∀ a ∈ halvesTree.leaves, Normalizer.normalize ⟨.default, 10⟩ halves a.1 1 = .ok (.text a.2)) ∧
      (∀ a ∈ halvesTree.leaves, IsAlternative a.2) ∧
      Normalizer.normalize ⟨.default, 10⟩ halves (.anonymous 0) 0 =
        .ok (.text "string | null | number | null") ∧
      Normalizer.normalize ⟨.default, 10⟩ halves (.anonymous 6) 0 =
        .ok (.text "string | number | null") := by
  have hleft : Normalizer.unionTree ⟨.default, 10⟩ halves (.anonymous 2) 1 =
      .ok (.union [.alternative (.leaf "string", "string"), .alternative (.leaf "null", "null")]) := by
    have hms : halves.members (.anonymous 2) = .ok [.leaf "string", .leaf "null"] := by cbv
    rw [unionTree_of_union (by decide) (by cbv) hms]
    simp only [List.mapM_cons, unionTree_leaf]
    rfl
  have hright : Normalizer.unionTree ⟨.default, 10⟩ halves (.anonymous 4) 1 =
      .ok (.union [.alternative (.leaf "null", "null"), .alternative (.leaf "number", "number")]) := by
    have hms : halves.members (.anonymous 4) = .ok [.leaf "null", .leaf "number"] := by cbv
    rw [unionTree_of_union (by decide) (by cbv) hms]
    simp only [List.mapM_cons, unionTree_leaf]
    rfl
  have htree : Normalizer.unionTree ⟨.default, 10⟩ halves (.anonymous 0) 0 = .ok halvesTree := by
    have hms : halves.members (.anonymous 0) = .ok [.anonymous 2, .anonymous 4] := by cbv
    rw [unionTree_of_union (by decide) (by cbv) hms]
    simp only [List.mapM_cons, Int.zero_add, hleft, hright]
    rfl
  have hinhabited : halvesTree.IsInhabited := by
    have hleaf (text : String) :
        (UnionTree.alternative (Handle.leaf text, text)).IsInhabited := .alternative _
    refine .union (by simp) ?_
    simp only [List.forall_mem_cons]
    refine ⟨.union (by simp) ?_, .union (by simp) ?_, by simp⟩ <;> simp [hleaf]
  have hflat : halves.kind? (.anonymous 6) = some .union := by cbv
  have hmembers : halves.members (.anonymous 6) = .ok (halvesTree.leaves.map Prod.fst) := by cbv
  have hprinted : ∀ a ∈ halvesTree.leaves,
      Normalizer.normalize ⟨.default, 10⟩ halves a.1 1 = .ok (.text a.2) := by
    have hleaves : halvesTree.leaves = [(.leaf "string", "string"), (.leaf "null", "null"),
      (.leaf "null", "null"), (.leaf "number", "number")] := rfl
    simp [hleaves, normalize_leaf]
  have halternative : ∀ a ∈ halvesTree.leaves, IsAlternative a.2 := by decide +kernel
  obtain ⟨⟨hnested, hcanonical⟩, -, -⟩ :=
    union_nesting_shows_iff (by decide) htree hinhabited hflat hmembers hprinted halternative
  have hshown : alternation (halvesTree.shown Prod.snd) = "string | null | number | null" := by
    decide +kernel
  have hunion : canonicalUnion (halvesTree.leaves.map Prod.snd) = "string | number | null" := by
    decide +kernel
  refine ⟨htree, hinhabited, hflat, hmembers, hprinted, halternative, ?_, ?_⟩
  · rw [hnested, hshown]
  · rw [hcanonical, hunion]

end Graph

end RouteCatalog
