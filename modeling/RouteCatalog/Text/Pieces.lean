/-! Cutting texts into pieces, searching them and joining the pieces again. -/

namespace RouteCatalog.Text

/-- The pieces between the occurrences of a character; there is always at least one. -/
def pieces (separator : Char) : List Char → List (List Char)
  | [] => [[]]
  | c :: cs =>
    if c = separator then [] :: pieces separator cs
    else
      match pieces separator cs with
      | [] => [[c]]
      | piece :: rest => (c :: piece) :: rest

theorem pieces_ne_nil (separator : Char) (cs : List Char) : pieces separator cs ≠ [] := by
  cases cs with
  | nil => simp [pieces]
  | cons c cs =>
    unfold pieces
    split
    · simp
    · split <;> simp

/-- The pieces put together again with the separator between them are the text. -/
theorem intercalate_pieces (separator : Char) (cs : List Char) :
    List.intercalate [separator] (pieces separator cs) = cs := by
  induction cs with
  | nil => simp [pieces]
  | cons c cs ih =>
    unfold pieces
    split
    · rename_i h
      rw [List.intercalate_cons_of_ne_nil (pieces_ne_nil _ _), ih, h]
      simp
    · cases hp : pieces separator cs with
      | nil => exact absurd hp (pieces_ne_nil _ _)
      | cons piece rest =>
        rw [hp] at ih
        cases rest with
        | nil => simpa using ih
        | cons p ps =>
          rw [List.intercalate_cons_of_ne_nil (by simp)] at ih ⊢
          simpa using ih

/-- The rest of a text after a fixed beginning. -/
def after? : List Char → List Char → Option (List Char)
  | [], rest => some rest
  | c :: word, d :: rest => if c = d then after? word rest else none
  | _ :: _, [] => none

theorem after?_eq_some_iff {word cs rest : List Char} :
    after? word cs = some rest ↔ cs = word ++ rest := by
  induction word generalizing cs with
  | nil => simp [after?, eq_comm]
  | cons c word ih =>
    cases cs with
    | nil => simp [after?]
    | cons d cs =>
      by_cases h : c = d
      · simp [after?, h, ih]
      · simp [after?, h, Ne.symm h]

/-- Whether the text has a place from which `p` accepts it. -/
def anywhere (p : List Char → Bool) : List Char → Bool
  | [] => p []
  | c :: cs => p (c :: cs) || anywhere p cs

end RouteCatalog.Text
