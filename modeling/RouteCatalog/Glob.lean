import RouteCatalog.Text.Pieces

/-! Glob patterns on whole names. A star stands for any text, slashes included, a question mark
for any character, and brackets for one character of a class, or for one outside it if the class
begins with an exclamation mark. A bracket that is not closed stands for itself. -/

namespace RouteCatalog

/-- One part of a pattern. A class lists its ranges of characters, ends included. -/
inductive GlobPart where
  | star
  | anyChar
  | char (c : Char)
  | oneOf (negated : Bool) (ranges : List (Char × Char))
  deriving DecidableEq, Repr

namespace Glob

/-- Cuts the text of a class at the hyphens that make ranges. The first `reserved` characters
cannot be such hyphens, nor can the two after one; a hyphen at the end stands for itself. -/
def cutRanges (reserved : Nat) (cs : List Char) : List (List Char) :=
  match _h : (cs.drop reserved).dropWhile (· != '-') with
  | [] => [cs]
  | _ :: after =>
    let before := cs.take reserved ++ (cs.drop reserved).takeWhile (· != '-')
    if after.isEmpty then [before ++ ['-']] else before :: cutRanges 2 after
termination_by cs.length
decreasing_by
  have h1 := (List.dropWhile_sublist (· != '-') (l := cs.drop reserved)).length_le
  have h2 := (List.drop_sublist reserved cs).length_le
  rw [_h, List.length_cons] at h1
  omega

def dropEmptyRanges : List (List Char) → List (List Char)
  | [] => []
  | c :: cs =>
    match c.getLast?, dropEmptyRanges cs with
    | some last, (first :: d) :: rest =>
      if first < last then (c.dropLast ++ d) :: rest else c :: (first :: d) :: rest
    | _, rest => c :: rest

/-- The ranges of a class that has been cut; a character in no range is a range of its own. -/
def rangesOf : List (List Char) → List (Char × Char)
  | [] => []
  | c :: cs =>
    match c.getLast?, cs.head?.bind List.head? with
    | some last, some first => c.dropLast.map (fun x => (x, x)) ++ (last, first) :: (rangesOf cs).drop 1
    | _, _ => c.map (fun x => (x, x)) ++ rangesOf cs

def classOf (body : List Char) : GlobPart :=
  let cut := cutRanges (if body.head? = some '!' then 2 else 1) body
  match dropEmptyRanges cut with
  | ('!' :: c) :: rest => .oneOf true (rangesOf (c :: rest))
  | chunks => .oneOf false (rangesOf chunks)

/-- Splits the text after an opening bracket at the bracket that closes the class. A closing
bracket at the very beginning belongs to the class. -/
def takeClass (cs : List Char) : Option (List Char × List Char) :=
  let mark := if cs.head? = some '!' then 1 else 0
  let reserved := if (cs.drop mark).head? = some ']' then mark + 1 else mark
  match (cs.drop reserved).dropWhile (· != ']') with
  | [] => none
  | _ :: after => some (cs.take reserved ++ (cs.drop reserved).takeWhile (· != ']'), after)

theorem takeClass_shorter {cs body after : List Char} (h : takeClass cs = some (body, after)) :
    after.length < cs.length := by
  unfold takeClass at h
  dsimp only at h
  split at h
  · cases h
  · rename_i heq
    have h1 := congrArg List.length heq
    rw [List.length_cons] at h1
    have h2 := List.Sublist.length_le (List.dropWhile_sublist (· != ']')
      (l := cs.drop (if (cs.drop (if cs.head? = some '!' then 1 else 0)).head? = some ']' then
        (if cs.head? = some '!' then 1 else 0) + 1 else if cs.head? = some '!' then 1 else 0)))
    have h3 := (List.drop_sublist (if (cs.drop (if cs.head? = some '!' then 1 else 0)).head? =
      some ']' then (if cs.head? = some '!' then 1 else 0) + 1
      else if cs.head? = some '!' then 1 else 0) cs).length_le
    cases h
    omega

def parts (cs : List Char) : List GlobPart :=
  match cs with
  | [] => []
  | '*' :: rest => .star :: parts rest
  | '?' :: rest => .anyChar :: parts rest
  | '[' :: rest =>
    match _h : takeClass rest with
    | some (body, after) => classOf body :: parts after
    | none => .char '[' :: parts rest
  | c :: rest => .char c :: parts rest
termination_by cs.length
decreasing_by
  all_goals simp only [List.length_cons]
  any_goals omega
  have := takeClass_shorter _h
  omega

end Glob

namespace GlobPart

/-- Whether a part stands for a character; a star stands for none by itself. -/
def fits (p : GlobPart) (c : Char) : Bool :=
  match p with
  | star => false
  | anyChar => true
  | char d => c == d
  | oneOf negated ranges => negated != ranges.any fun r => r.1 ≤ c && c ≤ r.2

end GlobPart

namespace Glob

def accepts : List GlobPart → List Char → Bool
  | [], cs => cs.isEmpty
  | .star :: ps, cs => Text.anywhere (accepts ps) cs
  | p :: ps, c :: cs => p.fits c && accepts ps cs
  | _ :: _, [] => false

end Glob

def matchesGlob (pattern name : String) : Bool :=
  Glob.accepts (Glob.parts pattern.toList) name.toList

end RouteCatalog
