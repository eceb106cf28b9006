import RouteCatalog.Proofs.UnionGroups

/-! Unions with unions among their members. Each of them is put in canonical order and printed
before the one above sees it, so what the outermost union shows is not the canonical order of all the
alternatives: a union inside it moves as one member. -/

namespace RouteCatalog.TypeExpr

variable {α : Type} {p : String}

/-- A union whose members may be unions in turn, down to alternatives that are none. -/
inductive UnionTree (α : Type) where
  | alternative (a : α)
  | union (members : List (UnionTree α))

namespace UnionTree

@[induction_eliminator]
theorem induction {motive : UnionTree α → Prop}
    (alternative : ∀ a, motive (.alternative a))
    (union : ∀ ts, (∀ t ∈ ts, motive t) → motive (.union ts)) (t : UnionTree α) : motive t :=
  @UnionTree.rec α motive (fun ts => ∀ t ∈ ts, motive t) alternative union (by simp)
    (fun _ _ ht hts => List.forall_mem_cons.mpr ⟨ht, hts⟩) t

def members : UnionTree α → List (UnionTree α)
  | alternative _ => []
  | union ts => ts

def isUnion : UnionTree α → Bool
  | alternative _ => false
  | union _ => true

mutual

def leaves : UnionTree α → List α
  | alternative a => [a]
  | union ts => leavesOf ts

def leavesOf : List (UnionTree α) → List α
  | [] => []
  | t :: ts => t.leaves ++ leavesOf ts

end

mutual

/-- The alternatives that a printed union shows. Its members are put in canonical order as they are
printed, and each of them brings along what it shows by itself. -/
def shown (print : α → String) : UnionTree α → List String
  | alternative a => [print a]
  | union ts =>
    (unionMembers ((shownOf print ts).map alternation)).flatMap (regroup (shownOf print ts))

def shownOf (print : α → String) : List (UnionTree α) → List (List String)
  | [] => []
  | t :: ts => t.shown print :: shownOf print ts

end

inductive IsInhabited : UnionTree α → Prop where
  | alternative (a : α) : IsInhabited (.alternative a)
  | union {ts : List (UnionTree α)} : ts ≠ [] → (∀ t ∈ ts, IsInhabited t) → IsInhabited (.union ts)

variable {print : α → String} {t : UnionTree α} {ts : List (UnionTree α)}

theorem leaves_union (ts : List (UnionTree α)) : (union ts).leaves = ts.flatMap leaves := by
  change leavesOf ts = _
  induction ts with
  | nil => rfl
  | cons t ts ih => rw [leavesOf, ih, List.flatMap_cons]

theorem shownOf_eq (print : α → String) (ts : List (UnionTree α)) :
    shownOf print ts = ts.map (shown print) := by
  induction ts with
  | nil => rfl
  | cons t ts ih => rw [shownOf, ih, List.map_cons]

theorem shown_union (print : α → String) (ts : List (UnionTree α)) :
    (union ts).shown print =
      (unionMembers ((ts.map (shown print)).map alternation)).flatMap
        (regroup (ts.map (shown print))) := by
  rw [shown, shownOf_eq]

theorem mem_leaves_union {a : α} (ht : t ∈ ts) (ha : a ∈ t.leaves) : a ∈ (union ts).leaves := by
  rw [leaves_union]
  exact List.mem_flatMap.mpr ⟨t, ht, ha⟩

/-- What a union shows comes from one of its members, unless it is what two truth values make. -/
theorem mem_shown_union (hp : p ∈ (union ts).shown print) :
    (∃ t ∈ ts, p ∈ t.shown print) ∨ p = "boolean" := by
  rw [shown_union] at hp
  obtain ⟨u, hu, hp⟩ := List.mem_flatMap.mp hp
  rcases regroup_cases hu with ⟨hgroup, -⟩ | ⟨-, hboolean⟩
  · obtain ⟨t, ht, heq⟩ := List.mem_map.mp hgroup
    exact .inl ⟨t, ht, heq ▸ hp⟩
  · rw [hboolean] at hp
    exact .inr (List.mem_singleton.mp hp)

theorem mem_of_mem_shown (hp : p ∈ t.shown print) : p ∈ t.leaves.map print ∨ p = "boolean" := by
  induction t with
  | alternative a => exact .inl hp
  | union ts ih =>
    rcases mem_shown_union hp with ⟨t, ht, hp⟩ | h
    · refine (ih t ht hp).imp_left fun hleaf => ?_
      obtain ⟨a, ha, rfl⟩ := List.mem_map.mp hleaf
      exact List.mem_map_of_mem (mem_leaves_union ht ha)
    · exact .inr h

theorem shown_ne_nil (ht : t.IsInhabited) : t.shown print ≠ [] := by
  induction t with
  | alternative a => simp [shown]
  | union ts ih =>
    cases ht with
    | union hne hts =>
      rw [shown_union, Ne, List.flatMap_eq_nil_iff]
      intro hnil
      have hmembers : unionMembers ((ts.map (shown print)).map alternation) ≠ [] :=
        unionMembers_ne_nil (by simpa using hne)
      obtain ⟨u, hu⟩ := List.exists_mem_of_ne_nil _ hmembers
      have hempty := hnil u hu
      rcases regroup_cases hu with ⟨hgroup, -⟩ | ⟨-, hboolean⟩
      · obtain ⟨t, ht, heq⟩ := List.mem_map.mp hgroup
        exact ih t ht (hts t ht) (heq.trans hempty)
      · simp [hempty] at hboolean

theorem leaves_ne_nil (ht : t.IsInhabited) : t.leaves ≠ [] := by
  induction t with
  | alternative a => simp [leaves]
  | union ts ih =>
    cases ht with
    | union hne hts =>
      obtain ⟨t, ht⟩ := List.exists_mem_of_ne_nil _ hne
      obtain ⟨a, ha⟩ := List.exists_mem_of_ne_nil _ (ih t ht (hts t ht))
      exact List.ne_nil_of_mem (mem_leaves_union ht ha)

theorem isAlternative_of_mem_shown (hleaves : ∀ a ∈ t.leaves, IsAlternative (print a))
    (hp : p ∈ t.shown print) : IsAlternative p := by
  rcases mem_of_mem_shown hp with h | rfl
  · obtain ⟨a, ha, rfl⟩ := List.mem_map.mp h
    exact hleaves a ha
  · exact isAlternative_boolean

theorem alternation_shown_union (ht : (union ts).IsInhabited)
    (hleaves : ∀ a ∈ (union ts).leaves, IsAlternative (print a)) :
    alternation ((union ts).shown print) =
      canonicalUnion (ts.map fun t => alternation (t.shown print)) := by
  cases ht with
  | union _ hts =>
    have hgroup {u : String} (hu : u ∈ unionMembers ((ts.map (shown print)).map alternation)) :
        regroup (ts.map (shown print)) u ≠ [] ∧
          alternation (regroup (ts.map (shown print)) u) = u ∧
          ∀ p ∈ regroup (ts.map (shown print)) u, isBalanced p.toList = true := by
      rcases regroup_cases hu with ⟨hgroup, htext⟩ | ⟨rfl, hboolean⟩
      · obtain ⟨t, ht, heq⟩ := List.mem_map.mp hgroup
        refine ⟨heq ▸ shown_ne_nil (hts t ht), htext, fun p hp => ?_⟩
        rw [← heq] at hp
        exact (isAlternative_of_mem_shown
          (fun a ha => hleaves a (mem_leaves_union ht ha)) hp).balanced
      · rw [hboolean]
        refine ⟨by simp, rfl, fun p hp => ?_⟩
        rw [List.mem_singleton.mp hp]
        exact isAlternative_boolean.balanced
    rw [shown_union, alternation_flatMap (fun u hu => (hgroup hu).1) (fun u hu => (hgroup hu).2.1)
      fun u hu => (hgroup hu).2.2, List.map_map]
    rfl

theorem map_leaves_union (print : α → String) (ts : List (UnionTree α)) :
    (union ts).leaves.map print = (ts.map fun t => t.leaves.map print).flatten := by
  rw [leaves_union, List.map_flatMap, List.flatMap_def]

theorem leaves_sublist (print : α → String) (ht : t ∈ ts) :
    (t.leaves.map print).Sublist ((union ts).leaves.map print) := by
  rw [map_leaves_union]
  exact List.sublist_flatten_of_mem (List.mem_map_of_mem (f := fun t => t.leaves.map print) ht)

theorem forall_mem_map_shown (print : α → String) (hts : ∀ t ∈ ts, t.IsInhabited) :
    ∀ g ∈ ts.map (shown print),
      g ≠ [] ∧ g ⊆ "boolean" :: (union ts).leaves.map print := by
  intro g hg
  obtain ⟨t, ht, rfl⟩ := List.mem_map.mp hg
  refine ⟨shown_ne_nil (hts t ht), fun p hp => ?_⟩
  rcases mem_of_mem_shown hp with h | rfl
  · exact List.mem_cons_of_mem _ ((leaves_sublist print ht).subset h)
  · exact List.mem_cons_self

theorem mem_shown_iff (ht : t.IsInhabited) (hapart : AreApart (t.leaves.map print))
    (hp : p ∉ truthValues) : p ∈ t.shown print ↔ p ∈ t.leaves.map print := by
  constructor
  · intro hshown
    refine (mem_of_mem_shown hshown).resolve_right ?_
    rintro rfl
    exact hp (by decide)
  · induction t with
    | alternative a => exact id
    | union ts ih =>
      cases ht with
      | union hne hts =>
        intro hleaf
        rw [map_leaves_union] at hleaf
        obtain ⟨leaves, hleaves, hleaf⟩ := List.mem_flatten.mp hleaf
        obtain ⟨t, ht, rfl⟩ := List.mem_map.mp hleaves
        have hpt : p ∈ t.shown print :=
          ih t ht (hts t ht) (hapart.of_subset (leaves_sublist print ht).subset) hleaf
        have hgroups := forall_mem_map_shown print hts
        have hgroup : t.shown print ∈ ts.map (shown print) := List.mem_map_of_mem ht
        -- A member that prints as a truth value shows nothing else.
        have htext : alternation (t.shown print) ∉ truthValues := by
          intro htruth
          have hone := eq_singleton_of_printed hapart.cons_boolean hgroups hgroup
            (truthValues_subset htruth) rfl
          rw [hone, List.mem_singleton] at hpt
          exact hp (hpt ▸ htruth)
        rw [shown_union]
        refine List.mem_flatMap.mpr ⟨alternation (t.shown print), ?_, ?_⟩
        · exact mem_unionMembers_of_mem htext (List.mem_map_of_mem hgroup)
        · rwa [regroup_alternation hapart.cons_boolean hgroups hgroup]

theorem shown_union_eq (hts : ∀ t ∈ ts, t.IsInhabited)
    (hapart : AreApart ((union ts).leaves.map print))
    (hshown : ∀ t ∈ ts, t.shown print = t.leaves.map print)
    (hstays : ∀ t ∈ ts, t.isUnion = true → ∀ p ∈ t.leaves.map print,
      StaysPut ((union ts).leaves.map print) p) :
    (union ts).shown print = unionMembers ((union ts).leaves.map print) := by
  have hgroups : ts.map (shown print) = ts.map fun t => t.leaves.map print :=
    List.map_congr_left hshown
  have hsettled : AreSettled (ts.map (shown print)) := by
    rw [hgroups]
    intro g hg
    obtain ⟨t, ht, rfl⟩ := List.mem_map.mp hg
    cases t with
    | alternative a => exact .inl ⟨print a, rfl⟩
    | union us => exact .inr fun p hp => map_leaves_union print ts ▸ hstays _ ht rfl p hp
  rw [shown_union, unionMembers_regroup hapart.cons_boolean (forall_mem_map_shown print hts)
    hsettled, hgroups, map_leaves_union]

theorem shown_eq_leaves (ht : t.IsInhabited) (hapart : AreApart (t.leaves.map print))
    (hnodup : (t.leaves.map print).Nodup) (hleaves : ∀ p ∈ t.leaves.map print, p ∉ remarkable) :
    t.shown print = t.leaves.map print := by
  induction t with
  | alternative a => rfl
  | union ts ih =>
    cases ht with
    | union hne hts =>
      have hshown : ∀ t ∈ ts, t.shown print = t.leaves.map print := by
        intro t ht
        have hsub := leaves_sublist print ht
        exact ih t ht (hts t ht) (hapart.of_subset hsub.subset) (hnodup.sublist hsub)
          fun p hp => hleaves p (hsub.subset hp)
      rw [shown_union_eq hts hapart hshown, unionMembers_eq_self hnodup hleaves]
      intro t ht _ p hp
      have hmem := (leaves_sublist print ht).subset hp
      exact ⟨hleaves p hmem, List.count_eq_one_of_mem hnodup hmem⟩

/-- If the alternatives of the unions among the members stay put, a union shows what the union of
all the alternatives shows. -/
theorem shown_eq_unionMembers (ht : t.IsInhabited) (hapart : AreApart (t.leaves.map print))
    (hstays : ∀ m ∈ t.members, m.isUnion = true → ∀ p ∈ m.leaves.map print,
      StaysPut (t.leaves.map print) p) :
    t.shown print = unionMembers (t.leaves.map print) := by
  cases ht with
  | alternative a => exact (unionMembers_singleton (print a)).symm
  | @union ts hne hts =>
    refine shown_union_eq hts hapart (fun m hm => ?_) hstays
    -- Below the outermost union nothing is folded, moved or repeated, so its members show their
    -- alternatives as they are.
    cases hkind : m.isUnion with
    | false =>
      cases m with
      | alternative a => rfl
      | union us => cases hkind
    | true =>
      have hput := hstays m hm hkind
      have hsub := leaves_sublist print hm
      exact shown_eq_leaves (hts m hm) (hapart.of_subset hsub.subset) (nodup_of_staysPut hsub hput)
        fun p hp => (hput p hp).1

example : (union [union [alternative "A", alternative "B"], alternative "null"]).shown id =
    ["A", "B", "null"] := by decide +kernel

end UnionTree

end RouteCatalog.TypeExpr
