import RouteCatalog.Proofs.Alternatives
import RouteCatalog.Proofs.Repetition

/-! Printed unions as members of a union. A member that is a printed union brings its alternatives
along, but it is moved, folded and compared as one text. -/

namespace RouteCatalog.TypeExpr

def truthValues : List String := ["true", "false", "boolean"]

theorem truthValues_subset : truthValues ⊆ "boolean" :: remarkable := by decide

variable {α : Type} {parts as : List String} {p : String}

section Members

theorem mem_unionMembers_of_mem (hp : p ∉ truthValues) (h : p ∈ parts) :
    p ∈ unionMembers parts := by
  simp only [truthValues, List.mem_cons, List.not_mem_nil, or_false, not_or] at hp
  have hmem : p ∈ parts.eraseDups := List.mem_eraseDups.mpr h
  unfold unionMembers
  rw [mem_nullishLast]
  unfold foldBoolean
  split
  · exact List.mem_append_left _ (List.mem_filter.mpr ⟨hmem, by simp [hp]⟩)
  · exact hmem

theorem unionMembers_ne_nil (h : parts ≠ []) : unionMembers parts ≠ [] := by
  obtain ⟨p, hp⟩ := List.exists_mem_of_ne_nil parts h
  have hmem : p ∈ parts.eraseDups := List.mem_eraseDups.mpr hp
  have hfold : ∃ q, q ∈ foldBoolean parts.eraseDups := by
    unfold foldBoolean
    split
    · exact ⟨"boolean", by simp⟩
    · exact ⟨p, hmem⟩
  obtain ⟨q, hq⟩ := hfold
  exact List.ne_nil_of_mem (mem_nullishLast.mpr hq)

end Members

section Replacement

theorem intercalate_flatMap {separator : String} {us : List α} {e : α → List String}
    (hne : ∀ u ∈ us, e u ≠ []) : separator.intercalate (us.flatMap e) =
      separator.intercalate (us.map fun u => separator.intercalate (e u)) := by
  induction us with
  | nil => rfl
  | cons u us ih =>
    obtain ⟨hu, hus⟩ := List.forall_mem_cons.mp hne
    cases us with
    | nil => simp
    | cons v us =>
      have hrest : (v :: us).flatMap e ≠ [] := by
        simp [hne v (by simp)]
      rw [List.flatMap_cons, String.intercalate_append_of_ne_nil hu hrest, ih hus, List.map_cons,
        List.map_cons, List.map_cons, String.intercalate_cons_cons]

theorem operand_alternation {group : List String}
    (hbalanced : ∀ p ∈ group, isBalanced p.toList = true) (hmany : 2 ≤ group.length) :
    operand (alternation group) = alternation group :=
  operand_of_not_isFunction (isFunction_joinOperands rfl isSeparator_bar hbalanced hmany)

/-- Members that are printed unions can be replaced by their alternatives. -/
theorem alternation_flatMap {us : List String} {e : String → List String}
    (hne : ∀ u ∈ us, e u ≠ []) (htext : ∀ u ∈ us, alternation (e u) = u)
    (hbalanced : ∀ u ∈ us, ∀ p ∈ e u, isBalanced p.toList = true) :
    alternation (us.flatMap e) = alternation us := by
  -- A member of several alternatives is no function, so it stands bare, as they do inside it.
  have hoperand : ∀ u ∈ us, " | ".intercalate ((e u).map operand) = operand u := by
    intro u hu
    have hu' := htext u hu
    by_cases hone : (e u).length = 1
    · obtain ⟨p, hp⟩ := List.length_eq_one_iff.mp hone
      rw [hp] at hu' ⊢
      rw [← hu']
      exact String.intercalate_singleton
    · have hpos := List.length_pos_iff.mpr (hne u hu)
      have hself := operand_alternation (hbalanced u hu) (by omega)
      rw [hu'] at hself
      rw [← written_of_ne_one hone, ← alternation_eq_intercalate, hu', hself]
  rcases us with _ | ⟨u, _ | ⟨v, rest⟩⟩
  · rfl
  · rw [List.flatMap_singleton]
    exact htext u (by simp)
  · have hlong : ((u :: v :: rest).flatMap e).length ≠ 1 := by
      have hu := List.length_pos_iff.mpr (hne u (by simp))
      have hv := List.length_pos_iff.mpr (hne v (by simp))
      simp only [List.flatMap_cons, List.length_append]
      omega
    have hmapped : ∀ w ∈ u :: v :: rest, (e w).map operand ≠ [] := by
      intro w hw
      simpa using hne w hw
    rw [alternation_eq_intercalate, alternation_eq_intercalate, written_of_ne_one hlong,
      written_of_ne_one (by simp), List.map_flatMap, intercalate_flatMap hmapped]
    exact congrArg _ (List.map_congr_left hoperand)

end Replacement

section Expanded

variable {us : List String} {e : String → List String}

theorem filter_flatMap_of_forall {f f' : String → Bool} (h : ∀ u ∈ us, ∀ p ∈ e u, f p = f' u) :
    (us.flatMap e).filter f = (us.filter f').flatMap e := by
  induction us with
  | nil => rfl
  | cons u us ih =>
    obtain ⟨hu, hus⟩ := List.forall_mem_cons.mp h
    rw [List.flatMap_cons, List.filter_append, ih hus, List.filter_cons]
    cases hf : f' u with
    | true =>
      rw [List.filter_eq_self.mpr fun p hp => (hu p hp).trans hf, if_pos rfl, List.flatMap_cons]
    | false =>
      have hnone : (e u).filter f = [] := by
        rw [List.filter_eq_nil_iff]
        intro p hp
        rw [hu p hp, hf]
        decide
      rw [hnone, if_neg (by decide), List.nil_append]

theorem eraseDups_flatMap (us : List String) (hnodup : ∀ u ∈ us, (e u).Nodup)
    (hdisjoint : ∀ u ∈ us, ∀ v ∈ us, ∀ p ∈ e u, p ∈ e v → u = v) :
    (us.flatMap e).eraseDups = us.eraseDups.flatMap e := by
  match us with
  | [] => rfl
  | u :: us =>
    -- Striking out what the first member stands for strikes out its repetitions and nothing else.
    have hrest : (us.flatMap e).removeAll (e u) = (us.filter fun v => !v == u).flatMap e := by
      refine filter_flatMap_of_forall fun v hv p hp => ?_
      by_cases hvu : v = u
      · subst hvu
        simp [hp]
      · have hnot : p ∉ e u := fun h => hvu
          (hdisjoint v (List.mem_cons_of_mem _ hv) u List.mem_cons_self p hp h)
        simp [hnot, hvu]
    have hmem : ∀ v ∈ us.filter (fun v => !v == u), v ∈ u :: us := fun v hv =>
      List.mem_cons_of_mem _ (List.mem_of_mem_filter hv)
    rw [List.flatMap_cons, List.eraseDups_append, eraseDups_eq_self (hnodup u List.mem_cons_self),
      hrest, eraseDups_flatMap _ (fun v hv => hnodup v (hmem v hv))
        fun v hv w hw => hdisjoint v (hmem v hv) w (hmem w hw),
      List.eraseDups_cons, List.flatMap_cons]
termination_by us.length
decreasing_by
  exact Nat.lt_succ_of_le (List.length_filter_le _ _)

/-- Each of some members stands for texts that are remarkable as it is. -/
def Preserves (e : String → List String) (us : List String) : Prop :=
  ∀ u ∈ us, e u ≠ [] ∧ ∀ p ∈ e u, ∀ r ∈ remarkable, p = r ↔ u = r

theorem Preserves.mem_flatMap_iff (h : Preserves e us) {r : String} (hr : r ∈ remarkable) :
    r ∈ us.flatMap e ↔ r ∈ us := by
  rw [List.mem_flatMap]
  constructor
  · rintro ⟨u, hu, hmem⟩
    rwa [← ((h u hu).2 r hmem r hr).mp rfl]
  · intro hmem
    obtain ⟨hne, hsame⟩ := h r hmem
    obtain ⟨p, hp⟩ := List.exists_mem_of_ne_nil _ hne
    have heq : p = r := (hsame p hp r hr).mpr rfl
    exact ⟨r, hmem, heq ▸ hp⟩

theorem Preserves.foldBoolean_flatMap (h : Preserves e us) (hboolean : e "boolean" = ["boolean"]) :
    foldBoolean (us.flatMap e) = (foldBoolean us).flatMap e := by
  have htrue := h.mem_flatMap_iff (r := "true") (by decide)
  have hfalse := h.mem_flatMap_iff (r := "false") (by decide)
  have hfilter : (us.flatMap e).filter (fun p => p != "true" && p != "false") =
      (us.filter fun p => p != "true" && p != "false").flatMap e := by
    refine filter_flatMap_of_forall fun u hu p hp => ?_
    have hsame := (h u hu).2 p hp
    have ht := hsame "true" (by decide)
    have hf := hsame "false" (by decide)
    rw [Bool.eq_iff_iff]
    simp [ht, hf]
  unfold foldBoolean
  simp only [htrue, hfalse, hfilter]
  split
  · rw [List.flatMap_append, List.flatMap_singleton, hboolean]
  · rfl

theorem Preserves.nullishLast_flatMap (h : Preserves e us) :
    nullishLast (us.flatMap e) = (nullishLast us).flatMap e := by
  have hsame : ∀ u ∈ us, ∀ p ∈ e u, isNullish p = isNullish u := by
    intro u hu p hp
    have hnull := (h u hu).2 p hp "null" (by decide)
    have hundefined := (h u hu).2 p hp "undefined" (by decide)
    rw [Bool.eq_iff_iff]
    simp [isNullish, hnull, hundefined]
  have hconcrete : ∀ u ∈ us, ∀ p ∈ e u, (!isNullish p) = !isNullish u := fun u hu p hp =>
    congrArg _ (hsame u hu p hp)
  unfold nullishLast
  rw [filter_flatMap_of_forall hconcrete, filter_flatMap_of_forall hsame, List.flatMap_append]

/-- Putting members in canonical order before or after they are replaced comes to the same, if no
two of them share a text. -/
theorem unionMembers_flatMap (h : Preserves e us) (hnodup : ∀ u ∈ us, (e u).Nodup)
    (hdisjoint : ∀ u ∈ us, ∀ v ∈ us, ∀ p ∈ e u, p ∈ e v → u = v)
    (hboolean : e "boolean" = ["boolean"]) :
    unionMembers (us.flatMap e) = (unionMembers us).flatMap e := by
  have hdistinct : Preserves e us.eraseDups := fun u hu => h u (List.mem_eraseDups.mp hu)
  have hfolded : Preserves e (foldBoolean us.eraseDups) := by
    intro u hu
    rcases mem_of_mem_foldBoolean hu with hu | rfl
    · exact hdistinct u hu
    · simp [hboolean]
  unfold unionMembers
  rw [eraseDups_flatMap us hnodup hdisjoint, hdistinct.foldBoolean_flatMap hboolean,
    hfolded.nullishLast_flatMap]

theorem unionMembers_eq_self (hnodup : parts.Nodup) (hparts : ∀ p ∈ parts, p ∉ remarkable) :
    unionMembers parts = parts := by
  have hfold : foldBoolean parts = parts := by
    unfold foldBoolean
    rw [if_neg]
    rintro ⟨htrue, -⟩
    exact hparts _ htrue (by decide)
  have hconcrete : ∀ p ∈ parts, isNullish p = false := by
    intro p hp
    have hremarkable := hparts p hp
    simp only [remarkable, List.mem_cons, not_or] at hremarkable
    simp [isNullish, hremarkable]
  unfold unionMembers nullishLast
  rw [eraseDups_eq_self hnodup, hfold, List.filter_eq_self.mpr fun p hp => by simp [hconcrete p hp],
    List.filter_eq_nil_iff.mpr fun p hp => by simp [hconcrete p hp], List.append_nil]

theorem unionMembers_singleton (p : String) : unionMembers [p] = [p] := by
  have hdistinct : [p].eraseDups = [p] := eraseDups_eq_self (List.nodup_singleton p)
  have hfold : foldBoolean [p] = [p] := by
    unfold foldBoolean
    rw [if_neg]
    rintro ⟨htrue, hfalse⟩
    rw [List.mem_singleton] at htrue hfalse
    exact absurd (htrue.trans hfalse.symm) (by decide)
  rw [unionMembers, hdistinct, hfold, nullishLast]
  cases hp : isNullish p <;> simp [hp]

end Expanded

section Groups

/-- The group that a text is printed from; a text of no group stands for itself. -/
def regroup (groups : List (List String)) (text : String) : List String :=
  (groups.find? (alternation · == text)).getD [text]

theorem regroup_cases {groups : List (List String)} {u : String}
    (hu : u ∈ unionMembers (groups.map alternation)) :
    (regroup groups u ∈ groups ∧ alternation (regroup groups u) = u) ∨
      (u = "boolean" ∧ regroup groups u = ["boolean"]) := by
  unfold regroup
  cases hfind : groups.find? (alternation · == u) with
  | some group =>
    have htext := List.find?_some hfind
    exact .inl ⟨List.mem_of_find?_eq_some hfind, eq_of_beq htext⟩
  | none =>
    rcases mem_of_mem_unionMembers hu with h | rfl
    · obtain ⟨group, hgroup, rfl⟩ := List.mem_map.mp h
      have hnone := List.find?_eq_none.mp hfind group hgroup
      simp at hnone
    · exact .inr ⟨rfl, rfl⟩

variable {groups : List (List String)} {group : List String}

/-- A text that two different groups share occurs at least twice. -/
theorem two_le_count_flatten {gs : List (List String)} {g g' : List String} (hg : g ∈ gs)
    (hg' : g' ∈ gs) (hne : g ≠ g') (hp : p ∈ g) (hp' : p ∈ g') : 2 ≤ gs.flatten.count p := by
  induction gs with
  | nil => cases hg
  | cons first gs ih =>
    rw [List.flatten_cons, List.count_append]
    have hcount {l : List String} (hl : l ∈ gs) (hpl : p ∈ l) : 1 ≤ gs.flatten.count p :=
      List.one_le_count_iff.mpr (List.mem_flatten.mpr ⟨l, hl, hpl⟩)
    rcases List.mem_cons.mp hg with rfl | hrest
    · have hfirst := List.one_le_count_iff.mpr hp
      have hother := hcount ((List.mem_cons.mp hg').resolve_left hne.symm) hp'
      omega
    · rcases List.mem_cons.mp hg' with rfl | hrest'
      · have hfirst := List.one_le_count_iff.mpr hp'
        have hother := hcount hrest hp
        omega
      · have hboth := ih hrest hrest'
        omega

/-- An alternative that a union leaves where it is: it occurs once among all of them, and is not
treated in a way of its own. -/
def StaysPut (parts : List String) (p : String) : Prop := p ∉ remarkable ∧ parts.count p = 1

theorem nodup_of_staysPut (hsub : as.Sublist parts) (h : ∀ p ∈ as, StaysPut parts p) :
    as.Nodup := by
  rw [List.nodup_iff_count_le_one]
  intro p
  by_cases hp : p ∈ as
  · have hcount := hsub.count_le p
    have honce := (h p hp).2
    omega
  · simp [List.count_eq_zero_of_not_mem hp]

/-- Every group is a single alternative or consists of ones that stay put. -/
def AreSettled (groups : List (List String)) : Prop :=
  ∀ g ∈ groups, (∃ p, g = [p]) ∨ ∀ p ∈ g, StaysPut groups.flatten p

variable (hapart : AreApart parts) (hgroups : ∀ g ∈ groups, g ≠ [] ∧ g ⊆ parts)
include hapart hgroups

theorem regroup_alternation (hgroup : group ∈ groups) :
    regroup groups (alternation group) = group := by
  unfold regroup
  cases hfind : groups.find? (alternation · == alternation group) with
  | none =>
    have hnone := List.find?_eq_none.mp hfind group hgroup
    simp at hnone
  | some other =>
    have htext := List.find?_some hfind
    obtain ⟨hother, hsubset⟩ := hgroups other (List.mem_of_find?_eq_some hfind)
    obtain ⟨hne, hparts⟩ := hgroups group hgroup
    exact hapart.eq_of_alternation_eq hsubset hparts hother hne (eq_of_beq htext)

theorem eq_singleton_of_printed (hgroup : group ∈ groups) (hp : p ∈ "boolean" :: remarkable)
    (h : alternation group = p) : group = [p] := by
  obtain ⟨hne, hsubset⟩ := hgroups group hgroup
  exact eq_singleton_of_alternation_eq (isAlternative_of_named p hp) hne
    (fun q hq => hapart.alternative q (hsubset hq)) h

theorem regroup_boolean : regroup groups "boolean" = ["boolean"] := by
  unfold regroup
  cases hfind : groups.find? (alternation · == "boolean") with
  | none => rfl
  | some g =>
    have htext := List.find?_some hfind
    exact eq_singleton_of_printed hapart hgroups (List.mem_of_find?_eq_some hfind)
      List.mem_cons_self (eq_of_beq htext)

theorem preserves_regroup (hsettled : AreSettled groups) :
    Preserves (regroup groups) (groups.map alternation) := by
  intro u hu
  obtain ⟨g, hg, rfl⟩ := List.mem_map.mp hu
  rw [regroup_alternation hapart hgroups hg]
  refine ⟨(hgroups g hg).1, fun p hp r hr => ?_⟩
  rcases hsettled g hg with ⟨q, rfl⟩ | hput
  · rw [List.mem_singleton.mp hp]
    rfl
  · constructor
    · rintro rfl
      exact ((hput p hp).1 hr).elim
    · intro htext
      have hone := eq_singleton_of_printed hapart hgroups hg (List.mem_cons_of_mem _ hr) htext
      exact ((hput r (hone ▸ List.mem_singleton_self r)).1 hr).elim

theorem eq_of_mem_regroup (hsettled : AreSettled groups) {u v : String}
    (hu : u ∈ groups.map alternation) (hv : v ∈ groups.map alternation)
    (hpu : p ∈ regroup groups u) (hpv : p ∈ regroup groups v) : u = v := by
  obtain ⟨g, hg, rfl⟩ := List.mem_map.mp hu
  obtain ⟨g', hg', rfl⟩ := List.mem_map.mp hv
  rw [regroup_alternation hapart hgroups hg] at hpu
  rw [regroup_alternation hapart hgroups hg'] at hpv
  by_contra hne
  have hdiffer : g ≠ g' := fun heq => hne (congrArg alternation heq)
  have htwice := two_le_count_flatten hg hg' hdiffer hpu hpv
  -- Two single alternatives that share a text are equal; any other group says that it occurs once.
  rcases hsettled g hg with ⟨q, rfl⟩ | hput
  · rcases hsettled g' hg' with ⟨q', rfl⟩ | hput
    · rw [List.mem_singleton] at hpu hpv
      exact hdiffer (hpu ▸ hpv ▸ rfl)
    · have honce := (hput p hpv).2
      omega
  · have honce := (hput p hpu).2
    omega

/-- If all groups are settled, the canonical order of what they print is that of all their
alternatives. -/
theorem unionMembers_regroup (hsettled : AreSettled groups) :
    (unionMembers (groups.map alternation)).flatMap (regroup groups) =
      unionMembers groups.flatten := by
  have hregroup : ∀ g ∈ groups, regroup groups (alternation g) = g := fun g hg =>
    regroup_alternation hapart hgroups hg
  have hflat : (groups.map alternation).flatMap (regroup groups) = groups.flatten := by
    rw [List.flatMap_map, List.flatMap_def, List.map_congr_left hregroup, List.map_id']
  have hnodup : ∀ u ∈ groups.map alternation, (regroup groups u).Nodup := by
    intro u hu
    obtain ⟨g, hg, rfl⟩ := List.mem_map.mp hu
    rw [hregroup g hg]
    rcases hsettled g hg with ⟨q, rfl⟩ | hput
    · exact List.nodup_singleton q
    · exact nodup_of_staysPut (List.sublist_flatten_of_mem hg) hput
  have hdisjoint : ∀ u ∈ groups.map alternation, ∀ v ∈ groups.map alternation,
      ∀ p ∈ regroup groups u, p ∈ regroup groups v → u = v := fun u hu v hv p hpu hpv =>
    eq_of_mem_regroup hapart hgroups hsettled hu hv hpu hpv
  rw [← hflat]
  exact (unionMembers_flatMap (preserves_regroup hapart hgroups hsettled) hnodup hdisjoint
    (regroup_boolean hapart hgroups)).symm

end Groups

end RouteCatalog.TypeExpr
