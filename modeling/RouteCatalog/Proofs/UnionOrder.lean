import RouteCatalog.Proofs.Property
import RouteCatalog.Proofs.UnionGroups

/-! The order of the members of a union. Equal members are struck out before the truth values are
folded, so `boolean` stands twice if it was a member beside both of them. Otherwise the members are
distinct, and a union of them is ordered already. -/

namespace RouteCatalog.TypeExpr

variable {parts members : List String} {p : String}

/-- Members in the order of a union: both truth values together have become one type, nothing
follows `null` and `undefined` but these, and every other text keeps its first place among its
like. -/
structure IsInUnionOrder (parts members : List String) : Prop where
  mem_iff : ∀ p, p ∈ members ↔ if "true" ∈ parts ∧ "false" ∈ parts then
    p = "boolean" ∨ p ∈ parts ∧ p ≠ "true" ∧ p ≠ "false" else p ∈ parts
  nullish_behind : members.Pairwise fun p q => isNullish p = true → isNullish q = true
  first_places : ∀ nullish : Bool,
    members.filter (fun p => isNullish p == nullish && !truthValues.contains p) =
      parts.eraseDups.filter fun p => isNullish p == nullish && !truthValues.contains p

/-- Distinct members in the order of a union, which stay as they are in a union of their own. -/
structure IsCanonical (parts members : List String) : Prop extends
    IsInUnionOrder parts members where
  nodup : members.Nodup
  stable : canonicalUnion members = canonicalUnion parts

section Steps

theorem mem_foldBoolean : p ∈ foldBoolean parts ↔ if "true" ∈ parts ∧ "false" ∈ parts then
    p = "boolean" ∨ p ∈ parts ∧ p ≠ "true" ∧ p ≠ "false" else p ∈ parts := by
  unfold foldBoolean
  split
  · rw [List.mem_append, List.mem_filter, List.mem_singleton]
    simp only [Bool.and_eq_true, bne_iff_ne]
    exact or_comm
  · rfl

theorem filter_foldBoolean {f : String → Bool} (hf : ∀ p ∈ truthValues, f p = false) :
    (foldBoolean parts).filter f = parts.filter f := by
  unfold foldBoolean
  split
  · have hboolean : f "boolean" = false := hf "boolean" (by decide)
    rw [List.filter_append, List.filter_filter]
    have hsame : ∀ p ∈ parts, (f p && (p != "true" && p != "false")) = f p := by
      intro p _
      by_cases htrue : p = "true"
      · rw [hf p (by simp [truthValues, htrue])]
        rfl
      · by_cases hfalse : p = "false"
        · rw [hf p (by simp [truthValues, hfalse])]
          rfl
        · simp [htrue, hfalse]
    rw [List.filter_congr hsame]
    simp [hboolean]
  · rfl

theorem perm_nullishLast (parts : List String) : (nullishLast parts).Perm parts :=
  List.perm_append_comm.trans (List.filter_append_perm isNullish parts)

theorem pairwise_nullishLast (parts : List String) :
    (nullishLast parts).Pairwise fun p q => isNullish p = true → isNullish q = true := by
  rw [nullishLast, List.pairwise_append]
  refine ⟨?_, ?_, ?_⟩
  · apply List.pairwise_of_forall_mem_list
    intro p hp q _ hnullish
    have hconcrete := (List.mem_filter.mp hp).2
    simp [hnullish] at hconcrete
  · apply List.pairwise_of_forall_mem_list
    intro p _ q hq _
    exact (List.mem_filter.mp hq).2
  · intro p _ q hq _
    exact (List.mem_filter.mp hq).2

theorem filter_nullishLast (parts : List String) (nullish : Bool) (f : String → Bool) :
    (nullishLast parts).filter (fun p => isNullish p == nullish && f p) =
      parts.filter fun p => isNullish p == nullish && f p := by
  rw [nullishLast, List.filter_append, List.filter_filter, List.filter_filter]
  cases nullish with
  | false =>
    have hnone : parts.filter (fun p => (isNullish p == false && f p) && isNullish p) = [] := by
      rw [List.filter_eq_nil_iff]
      intro p _
      cases isNullish p <;> simp
    rw [hnone, List.append_nil]
    apply List.filter_congr
    intro p _
    cases isNullish p <;> simp
  | true =>
    have hnone : parts.filter (fun p => (isNullish p == true && f p) && !isNullish p) = [] := by
      rw [List.filter_eq_nil_iff]
      intro p _
      cases isNullish p <;> simp
    rw [hnone, List.nil_append]
    apply List.filter_congr
    intro p _
    cases isNullish p <;> simp

theorem nullishLast_eq_self
    (h : parts.Pairwise fun p q => isNullish p = true → isNullish q = true) :
    nullishLast parts = parts := by
  induction parts with
  | nil => rfl
  | cons p parts ih =>
    obtain ⟨hp, hparts⟩ := List.pairwise_cons.mp h
    cases hnullish : isNullish p with
    | false =>
      have hrest := ih hparts
      unfold nullishLast at hrest ⊢
      simp [hnullish, hrest]
    | true =>
      have hall : ∀ q ∈ p :: parts, isNullish q = true := by
        intro q hq
        rcases List.mem_cons.mp hq with rfl | hq
        · exact hnullish
        · exact hp q hq hnullish
      have hnone : (p :: parts).filter (!isNullish ·) = [] := by
        rw [List.filter_eq_nil_iff]
        intro q hq
        simp [hall q hq]
      rw [nullishLast, hnone, List.nil_append, List.filter_eq_self.mpr hall]

end Steps

theorem isInUnionOrder_unionMembers (parts : List String) :
    IsInUnionOrder parts (unionMembers parts) where
  mem_iff p := by
    rw [unionMembers, mem_nullishLast, mem_foldBoolean]
    simp only [List.mem_eraseDups]
  nullish_behind := pairwise_nullishLast _
  first_places nullish := by
    rw [unionMembers, filter_nullishLast, filter_foldBoolean]
    intro p hp
    simp [hp]

section Distinct

/-- The members of a union with all three of its truth texts are distinct but for `boolean`. -/
theorem perm_of_truthValues_subset (h : truthValues ⊆ parts) :
    ∃ rest, (unionMembers parts).Perm ("boolean" :: rest) ∧ rest.Nodup ∧ "boolean" ∈ rest := by
  have htrue : "true" ∈ parts.eraseDups := List.mem_eraseDups.mpr (h (by decide))
  have hfalse : "false" ∈ parts.eraseDups := List.mem_eraseDups.mpr (h (by decide))
  have hboolean : "boolean" ∈ parts.eraseDups := List.mem_eraseDups.mpr (h (by decide))
  refine ⟨parts.eraseDups.filter fun p => p != "true" && p != "false", ?_,
    (nodup_eraseDups parts).filter _, ?_⟩
  · refine (perm_nullishLast _).trans ?_
    rw [foldBoolean, if_pos ⟨htrue, hfalse⟩]
    exact List.perm_append_singleton _ _
  · exact List.mem_filter.mpr ⟨hboolean, by decide⟩

theorem nodup_unionMembers (h : ¬ truthValues ⊆ parts) : (unionMembers parts).Nodup := by
  have hdistinct := nodup_eraseDups parts
  apply (perm_nullishLast _).nodup_iff.mpr
  unfold foldBoolean
  split
  · rename_i hboth
    rw [List.mem_eraseDups, List.mem_eraseDups] at hboth
    rw [List.nodup_append]
    refine ⟨hdistinct.filter _, List.nodup_singleton _, ?_⟩
    rintro p hp q hq rfl
    have hboolean : p ∈ parts := List.mem_eraseDups.mp (List.mem_filter.mp hp).1
    rw [List.mem_singleton.mp hq] at hboolean
    apply h
    simp [truthValues, hboth, hboolean]
  · exact hdistinct

/-- Folding leaves no two truth values to fold. -/
theorem not_both_mem_unionMembers (parts : List String) :
    ¬ ("true" ∈ unionMembers parts ∧ "false" ∈ unionMembers parts) := by
  have hmem := (isInUnionOrder_unionMembers parts).mem_iff
  rw [hmem, hmem]
  split
  · simp
  · assumption

theorem unionMembers_unionMembers (h : (unionMembers parts).Nodup) :
    unionMembers (unionMembers parts) = unionMembers parts := by
  have hfold : foldBoolean (unionMembers parts) = unionMembers parts := by
    rw [foldBoolean, if_neg (not_both_mem_unionMembers parts)]
  calc unionMembers (unionMembers parts)
      = nullishLast (foldBoolean (unionMembers parts)) := by
        rw [unionMembers, eraseDups_eq_self h]
    _ = unionMembers parts := by
        rw [hfold, nullishLast_eq_self (isInUnionOrder_unionMembers parts).nullish_behind]

end Distinct

section Length

theorem length_intercalate (separator : String) (texts : List String) :
    (separator.intercalate texts).length =
      (texts.map String.length).sum + separator.length * (texts.length - 1) := by
  induction texts with
  | nil => simp
  | cons text texts ih =>
    cases texts with
    | nil => simp
    | cons next texts =>
      rw [String.intercalate_cons_cons, String.length_append, String.length_append, ih]
      simp only [List.map_cons, List.sum_cons, List.length_cons, Nat.add_sub_cancel,
        Nat.mul_add, Nat.mul_one]
      omega

theorem length_le_length_operand (p : String) : p.length ≤ (operand p).length := by
  unfold operand
  split
  · simp only [String.length_append]
    omega
  · exact Nat.le_refl _

theorem length_alternation_le (parts : List String) : (alternation parts).length ≤
    (parts.map fun p => (operand p).length).sum + 3 * (parts.length - 1) := by
  rw [alternation_eq_intercalate, length_intercalate, length_written]
  apply Nat.add_le_add_right
  by_cases hone : parts.length = 1
  · obtain ⟨p, rfl⟩ := List.length_eq_one_iff.mp hone
    simpa [written] using length_le_length_operand p
  · rw [written_of_ne_one hone, List.map_map]
    rfl

theorem length_alternation (h : parts.length ≠ 1) : (alternation parts).length =
    (parts.map fun p => (operand p).length).sum + 3 * (parts.length - 1) := by
  rw [alternation_eq_intercalate, length_intercalate, length_written, written_of_ne_one h,
    List.map_map]
  rfl

/-- A member more or less shows. -/
theorem alternation_ne_of_perm (h : parts.Perm (p :: members)) (hne : members ≠ []) :
    alternation members ≠ alternation parts := by
  intro heq
  have hlength := h.length_eq
  have hsum := (h.map fun q => (operand q).length).sum_eq
  have hpos := List.length_pos_iff.mpr hne
  have hle := length_alternation_le members
  rw [List.length_cons] at hlength
  rw [List.map_cons, List.sum_cons] at hsum
  rw [heq, length_alternation (by omega)] at hle
  omega

end Length

/-- Distinct members with the texts of a union do not print like it if `boolean` stands twice in
it. -/
theorem alternation_ne_of_truthValues_subset (h : truthValues ⊆ parts) (hnodup : members.Nodup)
    (hmem : ∀ p, p ∈ members ↔ p ∈ unionMembers parts) :
    alternation members ≠ canonicalUnion parts := by
  obtain ⟨rest, hperm, hrest, hboolean⟩ := perm_of_truthValues_subset h
  have hsame : members.Perm rest := by
    apply (List.perm_ext_iff_of_nodup hnodup hrest).mpr
    intro p
    rw [hmem, hperm.mem_iff, List.mem_cons]
    constructor
    · rintro (rfl | hp)
      · exact hboolean
      · exact hp
    · exact Or.inr
  apply alternation_ne_of_perm (hperm.trans (hsame.symm.cons "boolean"))
  rintro rfl
  exact absurd (hsame.mem_iff.mpr hboolean) (by simp)

/-- A union has a canonical list of members exactly if `boolean` is not a member beside both truth
values. Its members are always in order; no other member is ever repeated, and where one is, another
union of the members is a different text. -/
theorem union_is_canonical_iff (parts : List String) :
    ((∃ members, canonicalUnion parts = alternation members ∧ IsCanonical parts members) ↔
      ¬ truthValues ⊆ parts) ∧
    (canonicalUnion parts = alternation (unionMembers parts) ∧
      IsInUnionOrder parts (unionMembers parts)) ∧
    (∀ p, 2 ≤ (unionMembers parts).count p ↔ p = "boolean" ∧ truthValues ⊆ parts) ∧
    (canonicalUnion (unionMembers parts) = canonicalUnion parts ↔ ¬ truthValues ⊆ parts) := by
  have horder := isInUnionOrder_unionMembers parts
  have hstable : ¬ truthValues ⊆ parts →
      canonicalUnion (unionMembers parts) = canonicalUnion parts := by
    intro h
    exact congrArg alternation (unionMembers_unionMembers (nodup_unionMembers h))
  refine ⟨⟨?_, ?_⟩, ⟨rfl, horder⟩, ?_, ⟨?_, hstable⟩⟩
  · rintro ⟨members, htext, hcanonical⟩ h
    apply alternation_ne_of_truthValues_subset h hcanonical.nodup _ htext.symm
    intro p
    rw [hcanonical.mem_iff, horder.mem_iff]
  · intro h
    exact ⟨unionMembers parts, rfl, horder, nodup_unionMembers h, hstable h⟩
  · intro p
    by_cases h : truthValues ⊆ parts
    · obtain ⟨rest, hperm, hrest, hboolean⟩ := perm_of_truthValues_subset h
      have hcount := List.nodup_iff_count_le_one.mp hrest p
      rw [hperm.count_eq]
      by_cases hp : p = "boolean"
      · have hone := List.one_le_count_iff.mpr hboolean
        subst hp
        simp only [List.count_cons_self, h, and_self, iff_true]
        omega
      · rw [List.count_cons_of_ne (Ne.symm hp)]
        simp only [hp, false_and, iff_false]
        omega
    · have hcount := List.nodup_iff_count_le_one.mp (nodup_unionMembers h) p
      simp only [h, and_false, iff_false]
      omega
  -- In a union of the members no truth values are left, so its own members are distinct.
  · intro heq h
    have hnot : ¬ truthValues ⊆ unionMembers parts := by
      intro hsubset
      exact not_both_mem_unionMembers parts ⟨hsubset (by decide), hsubset (by decide)⟩
    apply alternation_ne_of_truthValues_subset h (nodup_unionMembers hnot) _ heq
    intro p
    rw [(isInUnionOrder_unionMembers (unionMembers parts)).mem_iff,
      if_neg (not_both_mem_unionMembers parts)]

/-- Here the type of truth values is a member beside both of them. -/
theorem boolean_beside_its_values_is_repeated :
    canonicalUnion ["boolean", "true", "false"] = "boolean | boolean" ∧
      ¬ ∃ members, canonicalUnion ["boolean", "true", "false"] = alternation members ∧
        IsCanonical ["boolean", "true", "false"] members := by
  obtain ⟨hcanonical, -⟩ := union_is_canonical_iff ["boolean", "true", "false"]
  refine ⟨by decide +kernel, ?_⟩
  rw [hcanonical]
  exact not_not_intro (by decide)

end RouteCatalog.TypeExpr
