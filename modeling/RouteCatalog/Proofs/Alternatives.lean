import RouteCatalog.Proofs.Operands

/-! Printed unions. The operands of a printed union can be read back from it, so two unions print
alike exactly if the same operands stand in both. -/

namespace RouteCatalog.TypeExpr

def alternation (parts : List String) : String := joinOperands " | " parts

/-- Members as they stand between operators: several are grouped where they are functions. -/
def written : List String → List String
  | [part] => [part]
  | parts => parts.map operand

/-- A text that can be told from its neighbours in a union. -/
structure IsAlternative (part : String) : Prop where
  balanced : isBalanced part.toList = true
  readable : isFunction part.toList = true ∨ shows (.char '|') part.toList = false

instance (part : String) : Decidable (IsAlternative part) :=
  decidable_of_iff (isBalanced part.toList = true ∧
      (isFunction part.toList = true ∨ shows (.char '|') part.toList = false))
    ⟨fun ⟨b, r⟩ => ⟨b, r⟩, fun ⟨b, r⟩ => ⟨b, r⟩⟩

def remarkable : List String := ["true", "false", "null", "undefined"]

variable {parts as bs : List String} {p q : String}

section Alternation

theorem isAlternative_of_named : ∀ p ∈ "boolean" :: remarkable, IsAlternative p := by
  decide +kernel

theorem isAlternative_boolean : IsAlternative "boolean" :=
  isAlternative_of_named "boolean" List.mem_cons_self

theorem alternation_eq_intercalate (parts : List String) :
    alternation parts = " | ".intercalate (written parts) := by
  rcases parts with _ | ⟨p, _ | ⟨q, rest⟩⟩
  · rfl
  · exact String.intercalate_singleton.symm
  · rfl

theorem written_of_ne_one (h : parts.length ≠ 1) : written parts = parts.map operand := by
  unfold written
  split
  · simp at h
  · rfl

theorem length_written (parts : List String) : (written parts).length = parts.length := by
  unfold written
  split <;> simp

theorem operand_of_not_isFunction (h : isFunction p.toList = false) : operand p = p := by
  simp [operand, h]

def readOperands (cs : List Char) : List (List Char) :=
  if isFunction cs then [cs] else topOperands '|' cs

theorem topOperands_of_not_shows {op : Char} {cs : List Char} (h : shows (.char op) cs = false) :
    topOperands op cs = [cs] := by
  have hpieces : topPieces (· == op) (cs ++ []) = [cs ++ []] :=
    topPiecesFrom_append (p := (· == op)) (b := []) h
  rw [List.append_nil] at hpieces
  rw [topOperands, hpieces]
  rfl

theorem readOperands_alternation (hne : parts ≠ []) (hparts : ∀ p ∈ parts, IsAlternative p) :
    readOperands (alternation parts).toList = (written parts).map String.toList := by
  rcases parts with _ | ⟨p, _ | ⟨q, rest⟩⟩
  · exact (hne rfl).elim
  · -- By itself an alternative stands bare, so it may be a function.
    have hp := (hparts p (by simp)).readable
    change readOperands p.toList = [p.toList]
    unfold readOperands
    split
    · rfl
    · rename_i hfunction
      exact topOperands_of_not_shows (hp.resolve_left hfunction)
  · have hmany : 2 ≤ (p :: q :: rest).length := by simp
    have hbalanced : ∀ r ∈ p :: q :: rest, isBalanced r.toList = true := fun r hr =>
      (hparts r hr).balanced
    have hfunction : isFunction (alternation (p :: q :: rest)).toList = false :=
      isFunction_joinOperands rfl isSeparator_bar hbalanced hmany
    have hoperands : topOperands '|' (alternation (p :: q :: rest)).toList = _ :=
      topOperands_joinOperands rfl isSeparator_bar hbalanced hmany fun r hr =>
        (hparts r hr).readable
    rw [readOperands, hfunction, if_neg (by decide), hoperands, written_of_ne_one (by simp),
      List.map_map]
    rfl

/-- Two printed unions are the same text exactly if the same operands stand in them. -/
theorem alternation_eq_iff (has : as ≠ []) (hbs : bs ≠ []) (ha : ∀ p ∈ as, IsAlternative p)
    (hb : ∀ p ∈ bs, IsAlternative p) : alternation as = alternation bs ↔ written as = written bs := by
  constructor
  · intro h
    have hread := readOperands_alternation has ha
    rw [h, readOperands_alternation hbs hb] at hread
    exact (List.map_injective_iff.mpr (fun _ _ => String.toList_inj.mp) hread).symm
  · intro h
    rw [alternation_eq_intercalate, alternation_eq_intercalate, h]

end Alternation

section Apart

structure AreApart (parts : List String) : Prop where
  alternative : ∀ p ∈ parts, IsAlternative p
  operand : ∀ p ∈ parts, ∀ q ∈ parts, operand p = operand q → p = q

theorem eq_boolean_of_operand_eq (h : operand p = "boolean") : p = "boolean" := by
  unfold operand at h
  split at h
  · have hchars := congrArg String.toList h
    simp at hchars
  · exact h

theorem AreApart.of_subset (h : AreApart parts) (has : as ⊆ parts) : AreApart as :=
  ⟨fun p hp => h.alternative p (has hp), fun p hp q hq => h.operand p (has hp) q (has hq)⟩

theorem AreApart.cons_boolean (h : AreApart parts) : AreApart ("boolean" :: parts) where
  alternative := List.forall_mem_cons.mpr ⟨isAlternative_boolean, h.alternative⟩
  operand p hp q hq heq := by
    rcases List.mem_cons.mp hp with rfl | hp
    · exact (eq_boolean_of_operand_eq heq.symm).symm
    · rcases List.mem_cons.mp hq with rfl | hq
      · exact eq_boolean_of_operand_eq heq
      · exact h.operand p hp q hq heq

theorem AreApart.eq_of_map_operand_eq (h : AreApart parts) (has : as ⊆ parts) (hbs : bs ⊆ parts)
    (heq : as.map TypeExpr.operand = bs.map TypeExpr.operand) : as = bs := by
  induction as generalizing bs with
  | nil => simpa using heq.symm
  | cons p as ih =>
    cases bs with
    | nil => simp at heq
    | cons q bs =>
      obtain ⟨hp, has⟩ := List.cons_subset.mp has
      obtain ⟨hq, hbs⟩ := List.cons_subset.mp hbs
      obtain ⟨hhead, htail⟩ := List.cons.inj heq
      rw [h.operand p hp q hq hhead, ih has hbs htail]

theorem AreApart.eq_of_alternation_eq (h : AreApart parts) (has : as ⊆ parts) (hbs : bs ⊆ parts)
    (hane : as ≠ []) (hbne : bs ≠ []) (heq : alternation as = alternation bs) : as = bs := by
  have hwritten := (alternation_eq_iff hane hbne (fun p hp => h.alternative p (has hp))
    fun p hp => h.alternative p (hbs hp)).mp heq
  have hlength : as.length = bs.length := by
    rw [← length_written as, hwritten, length_written]
  by_cases hone : as.length = 1
  · obtain ⟨p, rfl⟩ := List.length_eq_one_iff.mp hone
    obtain ⟨q, rfl⟩ := List.length_eq_one_iff.mp (hlength ▸ hone)
    exact hwritten
  · rw [written_of_ne_one hone, written_of_ne_one (hlength ▸ hone)] at hwritten
    exact h.eq_of_map_operand_eq has hbs hwritten

/-- Only an alternative by itself prints as a text without an operator. -/
theorem eq_singleton_of_alternation_eq (hp : IsAlternative p) (hne : parts ≠ [])
    (hparts : ∀ q ∈ parts, IsAlternative q) (h : alternation parts = p) : parts = [p] := by
  have hsingle : ∀ q ∈ [p], IsAlternative q := by simpa using hp
  have hwritten : written parts = [p] :=
    (alternation_eq_iff hne (List.cons_ne_nil p []) hparts hsingle).mp h
  have hone : parts.length = 1 := by
    rw [← length_written, hwritten]
    rfl
  obtain ⟨q, rfl⟩ := List.length_eq_one_iff.mp hone
  exact hwritten

end Apart

end RouteCatalog.TypeExpr
