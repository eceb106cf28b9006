import Mathlib.Data.List.Nodup
import Mathlib.Data.Nat.Init
import Mathlib.Tactic.SplitIfs

/-! Names without their repetitions: each is kept where it first occurs. -/

namespace RouteCatalog

variable {names a b a' b' : List String}

theorem nodup_eraseDups (names : List String) : names.eraseDups.Nodup := by
  induction hlength : names.length using Nat.strong_induction_on generalizing names with
  | _ n ih =>
    cases names with
    | nil => exact .nil
    | cons name rest =>
      rw [List.eraseDups_cons]
      refine List.nodup_cons.mpr ⟨?_, ih _ ?_ _ rfl⟩
      · simp [List.mem_eraseDups]
      · have hle := List.length_filter_le (fun b => !b == name) rest
        rw [List.length_cons] at hlength
        omega

theorem eraseDups_eq_self (h : names.Nodup) : names.eraseDups = names := by
  induction names with
  | nil => rfl
  | cons name rest ih =>
    obtain ⟨hname, hrest⟩ := List.nodup_cons.mp h
    have hfilter : rest.filter (fun b => !b == name) = rest := by
      apply List.filter_eq_self.mpr
      intro b hb
      have hne : b ≠ name := fun heq => hname (heq ▸ hb)
      simpa using hne
    rw [List.eraseDups_cons, hfilter, ih hrest]

theorem eraseDups_concat (names : List String) (name : String) : (names ++ [name]).eraseDups =
    if name ∈ names then names.eraseDups else names.eraseDups ++ [name] := by
  rw [List.eraseDups_append]
  split_ifs with hmem
  · simp [List.removeAll, hmem]
  · simp [List.removeAll, hmem, List.eraseDups_cons]

/-- Names may be sorted out before or after repetitions are struck out. -/
theorem eraseDups_filter (f : String → Bool) (names : List String) :
    (names.filter f).eraseDups = names.eraseDups.filter f := by
  induction hlength : names.length using Nat.strong_induction_on generalizing names with
  | _ n ih =>
    cases names with
    | nil => rfl
    | cons name rest =>
      have hle := List.length_filter_le (fun b => !b == name) rest
      rw [List.length_cons] at hlength
      have hrest := ih _ (by omega) (rest.filter fun b => !b == name) rfl
      rw [List.eraseDups_cons, List.filter_cons, List.filter_cons, ← hrest, List.filter_filter]
      split_ifs with hname
      · rw [List.eraseDups_cons, List.filter_filter]
        simp only [Bool.and_comm]
      · congr 1
        apply List.filter_congr
        intro b _
        cases hb : f b with
        | false => rfl
        | true =>
          have hne : b ≠ name := fun heq => hname (heq ▸ hb)
          simp [hne]

theorem eraseDups_append_congr (ha : a.eraseDups = a'.eraseDups) (hb : b.eraseDups = b'.eraseDups) :
    (a ++ b).eraseDups = (a' ++ b').eraseDups := by
  have hmem (n : String) : n ∈ a ↔ n ∈ a' := by
    rw [← List.mem_eraseDups, ha, List.mem_eraseDups]
  have hremove (c : List String) : c.removeAll a = c.removeAll a' := by
    apply List.filter_congr
    intro n _
    simp only [List.elem_eq_mem, hmem]
  rw [List.eraseDups_append, List.eraseDups_append, ha, hremove, List.removeAll, List.removeAll,
    eraseDups_filter, eraseDups_filter, hb]

end RouteCatalog
