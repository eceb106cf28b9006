import Mathlib.Data.List.Induction
import RouteCatalog.Generation

/-! Writing files. A directory is only made, and a file only written, where no directory was, so
whatever has led to a directory still leads there. What has been written is found again along the
path that it was written to, double dots included. -/

namespace RouteCatalog

namespace FileTree

variable {t t' : FileTree} {here there parts names more : List String} {name : String}
  {n : FileNode} {bytes : List UInt8} {p : Path} {made : Bool}

def descend (here : List String) (part : String) : List String :=
  if part = ".." then here.dropLast else here ++ [part]

def located : Option FileNode → Located
  | some (.file bytes) => .file bytes
  | some .directory => .directory
  | none => .missing

/-- The parts that a path is followed from. -/
def base (t : FileTree) (root : Nat) : List String := if root != 0 then [] else t.home

section Following

theorem locate_eq (t : FileTree) (p : Path) : t.locate p = t.follow (t.base p.root) p.parts := by
  unfold locate base Path.isAbsolute
  split <;> rfl

theorem follow_nil (t : FileTree) (here : List String) :
    t.follow here [] = (located (t.nodeAt? here), here) := by
  unfold follow
  split <;> simp_all [located]

theorem follow_cons (h : t.nodeAt? here = some .directory) (name : String) (names : List String) :
    t.follow here (name :: names) = t.follow (descend here name) names := by
  rw [follow, h]
  rfl

theorem located_eq_directory : located (some n) = .directory ↔ n = .directory := by
  cases n <;> simp [located]

theorem nodeAt?_of_located {o : Option FileNode} (h : located o = .directory) :
    o = some .directory := by
  cases o with
  | none => cases h
  | some n => rw [located_eq_directory.mp h]

theorem nodeAt?_of_follow (h : t.follow here names = (.directory, there)) :
    t.nodeAt? here = some .directory := by
  cases names with
  | nil =>
    rw [follow_nil] at h
    exact nodeAt?_of_located (congrArg Prod.fst h)
  | cons name names =>
    unfold follow at h
    split at h
    · cases h
    · cases h
    · assumption

theorem follow_append (h : t.follow here names = (.directory, there)) (more : List String) :
    t.follow here (names ++ more) = t.follow there more := by
  induction names generalizing here with
  | nil =>
    rw [follow_nil] at h
    obtain ⟨-, rfl⟩ := Prod.mk.inj h
    rfl
  | cons name names ih =>
    have hhere := nodeAt?_of_follow h
    rw [List.cons_append, follow_cons hhere]
    rw [follow_cons hhere] at h
    exact ih h

theorem nodeAt?_of_follow_end (h : t.follow here names = (.directory, there)) :
    t.nodeAt? there = some .directory := by
  have hend := follow_append h []
  rw [List.append_nil, h] at hend
  exact nodeAt?_of_follow hend.symm

/-- On the way to a directory there are only directories. -/
theorem follow_of_append (h : t.follow here (names ++ more) = (.directory, there)) :
    ∃ between, t.follow here names = (.directory, between) := by
  induction names generalizing here with
  | nil =>
    refine ⟨here, ?_⟩
    rw [follow_nil, nodeAt?_of_follow h]
    rfl
  | cons name names ih =>
    have hhere := nodeAt?_of_follow h
    rw [follow_cons hhere]
    rw [List.cons_append, follow_cons hhere] at h
    exact ih h

theorem follow_base (t : FileTree) (root : Nat) :
    t.follow (t.base root) [] = (.directory, t.base root) := by
  have hbase : t.nodeAt? (t.base root) = some .directory := by
    unfold nodeAt? base
    split <;> simp
  rw [follow_nil, hbase]
  rfl

end Following

section Putting

theorem nodeAt?_put_self (h : t.nodeAt? parts ≠ some .directory) :
    (t.put parts n).nodeAt? parts = some n := by
  have hprefix : parts.isPrefixOf t.home = false := by
    cases hp : parts.isPrefixOf t.home with
    | false => rfl
    | true => simp [nodeAt?, hp] at h
  have hnone : (t.nodes.filter (·.1 != parts)).find? (·.1 == parts) = none := by
    rw [List.find?_eq_none]
    intro x hx
    simpa using (List.mem_filter.mp hx).2
  simp only [nodeAt?, put, hprefix, List.find?_append, hnone]
  simp

theorem nodeAt?_put_of_ne (h : here ≠ parts) : (t.put parts n).nodeAt? here = t.nodeAt? here := by
  have hfilter : (t.nodes.filter (·.1 != parts)).find? (·.1 == here) =
      t.nodes.find? (·.1 == here) := by
    rw [List.find?_filter]
    congr 1
    funext x
    by_cases hx : x.1 = here <;> simp [hx, h]
  have hlast : [(parts, n)].find? (·.1 == here) = none := by simp [h.symm]
  simp only [nodeAt?, put, List.find?_append, hfilter, hlast, Option.or_none]

/-- What is put where no directory was stands in nobody's way. -/
theorem follow_put (hparts : t.nodeAt? parts ≠ some .directory)
    (h : t.follow here names = (.directory, there)) :
    (t.put parts n).follow here names = (.directory, there) := by
  induction names generalizing here with
  | nil =>
    have hhere := nodeAt?_of_follow h
    have hne : here ≠ parts := by
      rintro rfl
      exact hparts hhere
    rw [follow_nil] at h ⊢
    rw [nodeAt?_put_of_ne hne, h]
  | cons name names ih =>
    have hhere := nodeAt?_of_follow h
    have hne : here ≠ parts := by
      rintro rfl
      exact hparts hhere
    rw [follow_cons hhere] at h
    rw [follow_cons (by rw [nodeAt?_put_of_ne hne, hhere])]
    exact ih h

theorem locate_of_parent {root : Nat} (hthere : t.locate ⟨root, names⟩ = (.directory, there))
    (name : String) : t.locate ⟨root, names ++ [name]⟩ =
      (located (t.nodeAt? (descend there name)), descend there name) := by
  rw [locate_eq] at hthere ⊢
  change t.follow (t.base root) (names ++ [name]) = _
  rw [follow_append hthere, follow_cons (nodeAt?_of_follow_end hthere), follow_nil]

theorem locate_put {root : Nat} (hthere : t.locate ⟨root, names⟩ = (.directory, there))
    (hname : t.nodeAt? (descend there name) ≠ some .directory) :
    (t.put (descend there name) n).locate ⟨root, names ++ [name]⟩ =
      (located (some n), descend there name) := by
  have hput : (t.put (descend there name) n).locate ⟨root, names⟩ = (.directory, there) := by
    rw [locate_eq] at hthere ⊢
    exact follow_put hname hthere
  rw [locate_of_parent hput, nodeAt?_put_self hname]

end Putting

section Writing

theorem makeDirectories_cons {start : Path} (hstart : t.locate start = (.directory, here)) :
    t.makeDirectories made start (name :: names) =
      match t.nodeAt? (descend here name) with
      | none => (t.put (descend here name) .directory).makeDirectories true
          ⟨start.root, start.parts ++ [name]⟩ names
      | some .directory => t.makeDirectories made ⟨start.root, start.parts ++ [name]⟩ names
      | some (.file _) =>
        (.error (if made ∨ names.isEmpty then .parentIsFile else .notDirectory), t) := by
  rw [makeDirectories]
  simp only [locate_of_parent hstart]
  rcases t.nodeAt? (descend here name) with _ | ⟨bytes⟩ | _ <;> rfl

/-- The directories that have been made lead to the last of them. -/
theorem locate_of_makeDirectories {start : Path} (hstart : t.locate start = (.directory, here))
    (h : t.makeDirectories made start names = (.ok (), t')) :
    ∃ there, t'.locate ⟨start.root, start.parts ++ names⟩ = (.directory, there) := by
  induction names generalizing t made start here with
  | nil =>
    obtain ⟨-, rfl⟩ := Prod.mk.inj h
    rw [List.append_nil]
    exact ⟨here, hstart⟩
  | cons name names ih =>
    rw [List.append_cons]
    rw [makeDirectories_cons hstart] at h
    split at h
    · rename_i hnone
      have hput : (t.put (descend here name) .directory).locate
          ⟨start.root, start.parts ++ [name]⟩ = (.directory, descend here name) :=
        locate_put hstart (by simp [hnone])
      exact ih hput h
    · rename_i hdirectory
      have hname := locate_of_parent hstart name
      rw [hdirectory] at hname
      exact ih hname h
    · cases h

theorem locate_root (t : FileTree) (root : Nat) :
    t.locate ⟨root, []⟩ = (.directory, t.base root) := by
  rw [locate_eq]
  exact t.follow_base root

theorem locate_of_makeParents (h : t.makeParents p = (.ok (), t')) :
    ∃ there, t'.locate p.parent = (.directory, there) :=
  locate_of_makeDirectories (t.locate_root p.root) h

theorem makeDirectories_of_locate {start : Path} (hstart : t.locate start = (.directory, here))
    (h : t.locate ⟨start.root, start.parts ++ names⟩ = (.directory, there)) :
    t.makeDirectories made start names = (.ok (), t) := by
  induction names generalizing start here with
  | nil => rfl
  | cons name names ih =>
    rw [List.append_cons] at h
    obtain ⟨between, hbetween⟩ : ∃ between, t.locate ⟨start.root, start.parts ++ [name]⟩ =
        (.directory, between) := by
      rw [locate_eq] at h ⊢
      exact follow_of_append h
    have hlocate := locate_of_parent hstart name
    rw [hbetween] at hlocate
    obtain ⟨hname, rfl⟩ := Prod.mk.inj hlocate
    rw [makeDirectories_cons hstart, nodeAt?_of_located hname.symm]
    exact ih hbetween h

theorem writeFile_of_parent {root : Nat} (hthere : t.locate ⟨root, names⟩ = (.directory, there))
    (name : String) (bytes : List UInt8) : t.writeFile ⟨root, names ++ [name]⟩ bytes =
      if t.nodeAt? (descend there name) = some .directory then .error .isDirectory
      else .ok (t.put (descend there name) (.file bytes)) := by
  rw [writeFile, locate_of_parent hthere]
  rcases t.nodeAt? (descend there name) with _ | ⟨_ | _⟩ <;> rfl

theorem look_of_writeFile (hparent : t.locate p.parent = (.directory, there))
    (h : t.writeFile p bytes = .ok t') : t'.look p = .file bytes := by
  rcases p with ⟨root, parts⟩
  cases parts using List.reverseRecOn with
  | nil =>
    rw [writeFile, t.locate_root root] at h
    cases h
  | append_singleton names name =>
    rw [Path.parent, List.dropLast_concat] at hparent
    rw [writeFile_of_parent hparent] at h
    split at h
    · cases h
    · rename_i hname
      cases h
      rw [look, locate_put hparent hname]
      rfl

theorem exists_writeFile_eq_ok (hparent : t.locate p.parent = (.directory, there))
    (hp : t.look p ≠ .directory) (bytes : List UInt8) : ∃ t', t.writeFile p bytes = .ok t' := by
  rcases p with ⟨root, parts⟩
  cases parts using List.reverseRecOn with
  | nil =>
    rw [look, t.locate_root root] at hp
    exact (hp rfl).elim
  | append_singleton names name =>
    rw [Path.parent, List.dropLast_concat] at hparent
    rw [writeFile_of_parent hparent]
    rw [look, locate_of_parent hparent] at hp
    rw [if_neg (fun hname => hp (by rw [hname]; rfl))]
    exact ⟨_, rfl⟩

end Writing

end FileTree

namespace Options

variable {o : Options} {t t' : FileTree} {g : Generated}

theorem look_of_write (h : o.write t g = (.ok (), t')) :
    t'.look o.resolvedOutput = .file g.document.toUTF8.toList := by
  unfold write at h
  simp only at h
  split at h
  · cases h
  · split at h
    · cases h
    · rename_i between hparents
      split at h
      · cases h
      · split at h
        · rename_i hwrite
          cases h
          obtain ⟨there, hparent⟩ := FileTree.locate_of_makeParents hparents
          exact FileTree.look_of_writeFile hparent hwrite
        · cases h

/-- A document can be written if its place is in a directory and is none itself. -/
theorem exists_write_eq_ok (hnull : o.resolvedOutput.holdsNull = false)
    (hparent : t.look o.resolvedOutput.parent = .directory)
    (hout : t.look o.resolvedOutput ≠ .directory) (g : Generated) :
    (o.write t g).1 = .ok () := by
  have hnull' : o.resolvedOutput.parent.holdsNull = false := by
    unfold Path.holdsNull at hnull ⊢
    rw [List.any_eq_false] at hnull ⊢
    intro part hpart
    exact hnull part ((List.dropLast_sublist _).mem hpart)
  have hlocate : t.locate o.resolvedOutput.parent =
      (.directory, (t.locate o.resolvedOutput.parent).2) := by
    rw [← hparent]
    rfl
  have hparents : t.makeParents o.resolvedOutput = (.ok (), t) :=
    FileTree.makeDirectories_of_locate (t.locate_root _) hlocate
  obtain ⟨t', hwrite⟩ :=
    FileTree.exists_writeFile_eq_ok hlocate hout g.document.toUTF8.toList
  simp only [write, hnull, hnull', hparents, hwrite, Bool.false_eq_true, if_false]

end Options

end RouteCatalog
