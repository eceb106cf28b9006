import RouteCatalog.Graph.Validation
import RouteCatalog.Proofs.Repetition
import RouteCatalog.Proofs.Sequence

/-! The files of a graph under their normalized names. Every name occurs once, where it came first,
and stands for the entry that came last. -/

namespace RouteCatalog.Graph

variable {doc : Document} {files : List (String × Value)} {entries : List Entry}
  {name name' : String} {file : Value}

def fileAt? (files : List (String × Value)) (name : String) : Option Value :=
  (files.find? (·.1 == name)).map Prod.snd

def fileNameOf (doc : Document) (e : Entry) : String := fileKey (doc.display e.1)

/-- The last entry whose name is normalized to this one. -/
def lastFiled? (doc : Document) (entries : List Entry) (name : String) : Option Value :=
  ((entries.filter (fileNameOf doc · == name)).getLast?).map Prod.snd

theorem collectFiles_concat (entries : List Entry) (e : Entry) :
    collectFiles doc (entries ++ [e]) =
      putFile (collectFiles doc entries) (fileNameOf doc e) e.2 := by
  rw [collectFiles, List.foldl_append]
  rfl

section Names

theorem any_name_iff {β : Type} {named : List (String × β)} :
    named.any (·.1 == name) = true ↔ name ∈ named.map Prod.fst := by
  simp

theorem names_putFile : (putFile files name file).map Prod.fst =
    if name ∈ files.map Prod.fst then files.map Prod.fst else files.map Prod.fst ++ [name] := by
  unfold putFile
  simp only [any_name_iff]
  split_ifs
  · rw [List.map_map]
    refine List.map_congr_left fun f _ => ?_
    simp only [Function.comp_apply]
    split_ifs with hname
    · exact (eq_of_beq hname).symm
    · rfl
  · simp

theorem names_collectFiles :
    (collectFiles doc entries).map Prod.fst = (entries.map (fileNameOf doc)).eraseDups := by
  induction entries using List.reverseRecOn with
  | nil => rfl
  | append_singleton entries e ih =>
    rw [collectFiles_concat, names_putFile, ih, List.map_append, List.map_singleton,
      eraseDups_concat]
    simp only [List.mem_eraseDups]

end Names

section Entries

theorem fileAt?_eq_none_iff : fileAt? files name = none ↔ name ∉ files.map Prod.fst := by
  unfold fileAt?
  rw [Option.map_eq_none_iff, List.find?_eq_none, List.mem_map]
  exact ⟨fun h ⟨f, hf, hname⟩ => h f hf (by simpa using hname),
    fun h f hf hname => h ⟨f, hf, by simpa using hname⟩⟩

/-- An entry that replaces another one is found in its place. -/
theorem fileAt?_replaced : fileAt? (files.map fun f => if f.1 == name then (name, file) else f) name' =
    (fileAt? files name').map fun old => if name = name' then file else old := by
  have hname : (fun f : String × Value => f.1 == name') ∘
      (fun f => if f.1 == name then (name, file) else f) = (·.1 == name') := by
    funext f
    by_cases hf : f.1 = name <;> simp [hf]
  unfold fileAt?
  rw [List.find?_map, hname]
  cases hfind : files.find? (·.1 == name') with
  | none => rfl
  | some f =>
    have hf : f.1 = name' := by simpa using List.find?_some hfind
    by_cases heq : name = name'
    · simp [hf, heq]
    · simp [hf, heq, Ne.symm heq]

theorem fileAt?_putFile : fileAt? (putFile files name file) name' =
    if name = name' then some file else fileAt? files name' := by
  unfold putFile
  simp only [any_name_iff]
  by_cases hmem : name ∈ files.map Prod.fst
  · rw [if_pos hmem, fileAt?_replaced]
    cases hold : fileAt? files name' with
    | some old => by_cases heq : name = name' <;> simp [heq]
    | none =>
      have hne : name ≠ name' := fun heq => fileAt?_eq_none_iff.mp hold (heq ▸ hmem)
      simp [hne]
  · rw [if_neg hmem]
    by_cases heq : name = name'
    · subst heq
      have hnone := fileAt?_eq_none_iff.mpr hmem
      unfold fileAt? at hnone ⊢
      simp [List.find?_append, Option.map_eq_none_iff.mp hnone]
    · simp [fileAt?, List.find?_append, heq]

theorem fileAt?_collectFiles :
    fileAt? (collectFiles doc entries) name = lastFiled? doc entries name := by
  induction entries using List.reverseRecOn with
  | nil => rfl
  | append_singleton entries e ih =>
    rw [collectFiles_concat, fileAt?_putFile, ih]
    unfold lastFiled?
    split_ifs with hname
    · simp [hname]
    · simp [hname]

end Entries

end RouteCatalog.Graph
