import Mathlib

/-! Questions that are asked one after the other, up to the first that has no answer. -/

namespace RouteCatalog

variable {α β γ ε : Type}

theorem bind_eq_ok_iff {x : Except ε α} {f : α → Except ε β} {b : β} :
    (x >>= f) = .ok b ↔ ∃ a, x = .ok a ∧ f a = .ok b := by
  cases x with
  | error e => simp [bind, Except.bind]
  | ok a => simp [bind, Except.bind]

theorem bind_congr_of_ok {x : Except ε α} {f g : α → Except ε β} (h : ∀ a, x = .ok a → f a = g a) :
    x >>= f = x >>= g := by
  cases x with
  | error e => rfl
  | ok a => exact h a rfl

theorem map_eq_ok_iff {x : Except ε α} {f : α → β} {b : β} :
    x.map f = .ok b ↔ ∃ a, x = .ok a ∧ f a = b := by
  cases x <;> simp [Except.map]

theorem mapM_eq_ok_iff {f : α → Except ε β} {as : List α} {bs : List β} :
    as.mapM f = .ok bs ↔ List.Forall₂ (fun a b => f a = .ok b) as bs := by
  induction as generalizing bs with
  | nil => simp [pure, Except.pure, eq_comm]
  | cons a as ih =>
    rw [List.mapM_cons, bind_eq_ok_iff, List.forall₂_cons_left_iff]
    constructor
    · rintro ⟨b, hb, h⟩
      obtain ⟨rest, hrest, h⟩ := bind_eq_ok_iff.mp h
      cases h
      exact ⟨b, rest, hb, ih.mp hrest, rfl⟩
    · rintro ⟨b, rest, hb, hrest, rfl⟩
      exact ⟨b, hb, bind_eq_ok_iff.mpr ⟨rest, ih.mpr hrest, rfl⟩⟩

theorem exists_mapM_eq_ok {f : α → Except ε β} {as : List α}
    (h : ∀ a ∈ as, ∃ b, f a = .ok b) : ∃ bs, as.mapM f = .ok bs := by
  induction as with
  | nil => exact ⟨[], rfl⟩
  | cons a as ih =>
    obtain ⟨b, hb⟩ := h a List.mem_cons_self
    obtain ⟨bs, hbs⟩ := ih fun a' ha' => h a' (List.mem_cons_of_mem a ha')
    exact ⟨b :: bs, mapM_eq_ok_iff.mpr (.cons hb (mapM_eq_ok_iff.mp hbs))⟩

theorem exists_of_mem_mapM {f : α → Except ε β} {as : List α} {bs : List β} {b : β}
    (h : as.mapM f = .ok bs) (hb : b ∈ bs) : ∃ a ∈ as, f a = .ok b := by
  induction as generalizing bs with
  | nil =>
    cases h
    cases hb
  | cons a as ih =>
    rw [mapM_eq_ok_iff, List.forall₂_cons_left_iff] at h
    obtain ⟨c, cs, hc, hcs, rfl⟩ := h
    rcases List.mem_cons.mp hb with rfl | hb
    · exact ⟨a, List.mem_cons_self, hc⟩
    · obtain ⟨a', ha', hb'⟩ := ih (mapM_eq_ok_iff.mpr hcs) hb
      exact ⟨a', List.mem_cons_of_mem a ha', hb'⟩

theorem exists_mem_of_mapM {f : α → Except ε β} {as : List α} {bs : List β} {a : α}
    (h : as.mapM f = .ok bs) (ha : a ∈ as) : ∃ b ∈ bs, f a = .ok b := by
  obtain ⟨i, hi, rfl⟩ := List.mem_iff_getElem.mp ha
  have hall := mapM_eq_ok_iff.mp h
  have hi' : i < bs.length := hall.length_eq ▸ hi
  exact ⟨bs[i], List.getElem_mem hi', hall.get hi hi'⟩

theorem exists_mapM_eq_ok_iff {f : α → Except ε β} {as : List α} :
    (∃ bs, as.mapM f = .ok bs) ↔ ∀ a ∈ as, ∃ b, f a = .ok b := by
  refine ⟨fun ⟨bs, hbs⟩ a ha => ?_, exists_mapM_eq_ok⟩
  obtain ⟨b, -, hb⟩ := exists_mem_of_mapM hbs ha
  exact ⟨b, hb⟩

theorem mapM_congr {f g : α → Except ε β} {as : List α} (h : ∀ a ∈ as, f a = g a) :
    as.mapM f = as.mapM g := by
  induction as with
  | nil => rfl
  | cons a as ih =>
    rw [List.mapM_cons, List.mapM_cons, h a List.mem_cons_self,
      ih fun a' ha' => h a' (List.mem_cons_of_mem a ha')]

/-- Other answers to the same questions can be told from the ones that are known. -/
theorem mapM_eq_ok_map {f : α → Except ε β} {k : α → Except ε γ} {c : β → γ} {as : List α}
    {bs : List β} (h : as.mapM f = .ok bs)
    (hk : ∀ a, ∀ b ∈ bs, f a = .ok b → k a = .ok (c b)) : as.mapM k = .ok (bs.map c) := by
  rw [mapM_eq_ok_iff] at h ⊢
  induction h with
  | nil => exact .nil
  | @cons a b as bs hab _ ih =>
    have hrest := ih fun a' b' hb' => hk a' b' (List.mem_cons_of_mem b hb')
    exact .cons (hk a b List.mem_cons_self hab) hrest

theorem mapM_flatMap (f : α → List β) (k : β → Except ε γ) (as : List α) :
    (as.flatMap f).mapM k = (as.mapM fun a => (f a).mapM k) >>= fun css => .ok css.flatten := by
  induction as with
  | nil => rfl
  | cons a as ih =>
    rw [List.flatMap_cons, List.mapM_append, List.mapM_cons, ih]
    cases (f a).mapM k with
    | error e => rfl
    | ok cs => cases as.mapM fun a => (f a).mapM k <;> rfl

/-- A question has an answer, and the answer satisfies a property. -/
def Yields (x : Except ε α) (P : α → Prop) : Prop := ∃ a, x = .ok a ∧ P a

namespace Yields

variable {x : Except ε α} {P : α → Prop} {Q : β → Prop}

theorem pure {a : α} (h : P a) : Yields (Except.ok a : Except ε α) P := ⟨a, rfl, h⟩

theorem mono {R : α → Prop} (hx : Yields x P) (h : ∀ a, P a → R a) : Yields x R := by
  obtain ⟨a, ha, hP⟩ := hx
  exact ⟨a, ha, h a hP⟩

theorem bind {f : α → Except ε β} (hx : Yields x P) (hf : ∀ a, P a → Yields (f a) Q) :
    Yields (x >>= f) Q := by
  obtain ⟨a, rfl, hP⟩ := hx
  exact hf a hP

theorem map {f : α → β} (hx : Yields x P) (hf : ∀ a, P a → Q (f a)) : Yields (x.map f) Q := by
  obtain ⟨a, rfl, hP⟩ := hx
  exact ⟨f a, rfl, hf a hP⟩

theorem mapM {f : α → Except ε β} {as : List α} (h : ∀ a ∈ as, Yields (f a) Q) :
    Yields (as.mapM f) fun bs => ∀ b ∈ bs, Q b := by
  induction as with
  | nil => exact ⟨[], rfl, by simp⟩
  | cons a as ih =>
    rw [List.mapM_cons]
    refine bind (h a List.mem_cons_self) fun b hb => ?_
    refine bind (ih fun a' ha' => h a' (List.mem_cons_of_mem a ha')) fun bs hbs => ?_
    exact pure (List.forall_mem_cons.mpr ⟨hb, hbs⟩)

end Yields

/-- If a question has an answer, the answer satisfies a property. -/
def Ensures (x : Except ε α) (P : α → Prop) : Prop := ∀ a, x = .ok a → P a

namespace Ensures

variable {x : Except ε α} {P : α → Prop} {Q : β → Prop}

theorem pure {a : α} (h : P a) : Ensures (Except.ok a : Except ε α) P := by
  intro b hb
  cases hb
  exact h

theorem bind {f : α → Except ε β} (hx : Ensures x P) (hf : ∀ a, P a → Ensures (f a) Q) :
    Ensures (x >>= f) Q := by
  intro b hb
  obtain ⟨a, ha, hb⟩ := bind_eq_ok_iff.mp hb
  exact hf a (hx a ha) b hb

theorem mapM {f : α → Except ε β} {as : List α} (h : ∀ a ∈ as, Ensures (f a) Q) :
    Ensures (as.mapM f) fun bs => ∀ b ∈ bs, Q b := by
  intro bs hbs b hb
  obtain ⟨a, ha, hfa⟩ := exists_of_mem_mapM hbs hb
  exact h a ha b hfa

end Ensures

/-- If a question has no answer, what it fails with satisfies a property. -/
def FailsOnly (x : Except ε α) (P : ε → Prop) : Prop := ∀ e, x = .error e → P e

namespace FailsOnly

variable {x : Except ε α} {P : ε → Prop}

theorem ok (a : α) : FailsOnly (Except.ok a : Except ε α) P := fun _ h => by cases h

theorem error {e : ε} (h : P e) : FailsOnly (Except.error e : Except ε α) P := by
  intro e' he
  cases he
  exact h

theorem mono {Q : ε → Prop} (hx : FailsOnly x P) (h : ∀ e, P e → Q e) : FailsOnly x Q :=
  fun e he => h e (hx e he)

theorem bind {f : α → Except ε β} (hx : FailsOnly x P) (hf : ∀ a, x = .ok a → FailsOnly (f a) P) :
    FailsOnly (x >>= f) P := by
  cases x with
  | ok a => exact hf a rfl
  | error e => exact error (hx e rfl)

theorem map (hx : FailsOnly x P) (f : α → β) : FailsOnly (x.map f) P := by
  cases x with
  | ok a => exact ok (f a)
  | error e => exact error (hx e rfl)

theorem mapM {f : α → Except ε β} {as : List α} (hf : ∀ a ∈ as, FailsOnly (f a) P) :
    FailsOnly (as.mapM f) P := by
  induction as with
  | nil => exact ok []
  | cons a as ih =>
    rw [List.mapM_cons]
    refine (hf a List.mem_cons_self).bind fun b _ => ?_
    exact (ih fun a' ha' => hf a' (List.mem_cons_of_mem a ha')).bind fun bs _ => ok (b :: bs)

end FailsOnly

end RouteCatalog
