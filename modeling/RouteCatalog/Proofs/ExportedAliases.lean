import RouteCatalog.Proofs.AliasChain
import RouteCatalog.Proofs.FileNames
import RouteCatalog.Proofs.Rejection
import RouteCatalog.Session

/-! The aliases that files export. A file is found under every spelling of its name, but of several
entries whose names are normalized to one only the last is kept: the aliases of the others are lost
without a word. -/

namespace RouteCatalog.Graph

open Document

variable {g : Graph} {doc : Document} {v file spec : Value} {source key name : String}
  {fields files before after : List Entry}

def Exports (doc : Document) (file : Value) (name : String) (spec : Value) : Prop :=
  ∃ aliases, aliasesOf doc file = .ok aliases ∧ Entries.get? aliases name = some spec

section Lookup

/-- Of the entries from a file on, the file itself counts only if no later one has its name. -/
theorem lastFiled?_append_cons {e : Entry} (hname : fileNameOf doc e = name) :
    lastFiled? doc (before ++ e :: after) name = some ((lastFiled? doc after name).getD e.2) := by
  unfold lastFiled?
  rw [List.filter_append, List.filter_cons_of_pos (by simpa using hname), List.getLast?_append,
    List.getLast?_cons]
  cases (after.filter (fileNameOf doc · == name)).getLast? <;> rfl

theorem alias?_eq_some_iff {h : Handle} : g.alias? ⟨key⟩ name = .ok (some h) ↔
    ∃ spec, Exports g.doc ((fileAt? g.files key).getD .null) name spec ∧ g.handle spec = .ok h := by
  unfold alias?
  constructor
  · intro hok
    obtain ⟨aliases, haliases, hok⟩ := bind_eq_ok_iff.mp hok
    cases hspec : Entries.get? aliases name with
    | none => simp [hspec, pure, Except.pure] at hok
    | some spec =>
      simp only [hspec] at hok
      obtain ⟨h', hh, hok⟩ := bind_eq_ok_iff.mp hok
      cases hok
      exact ⟨spec, ⟨aliases, haliases, hspec⟩, hh⟩
  · rintro ⟨spec, ⟨aliases, haliases, hspec⟩, hh⟩
    refine bind_eq_ok_iff.mpr ⟨aliases, haliases, ?_⟩
    simp only [hspec]
    exact bind_eq_ok_iff.mpr ⟨h, hh, rfl⟩

/-- A file that exports the same under a name stands in for another one. -/
theorem exists_alias_iff (hentry : fileAt? g.files key = some file) :
    (∃ h, g.handle spec = .ok h ∧ g.alias? ⟨key⟩ name = .ok (some h)) ↔
      ¬ g.IsCircular spec ∧
        ∃ spec', Exports g.doc file name spec' ∧ g.handle spec' = g.handle spec := by
  rw [← exists_handle_iff]
  simp only [alias?_eq_some_iff, hentry, Option.getD_some]
  constructor
  · rintro ⟨h, hh, spec', hspec', hh'⟩
    exact ⟨⟨h, hh⟩, spec', hspec', hh'.trans hh.symm⟩
  · rintro ⟨⟨h, hh⟩, spec', hspec', heq⟩
    exact ⟨h, hh, spec', hspec', heq.trans hh⟩

end Lookup

/-- A fresh session finds the file of every entry. It finds there the alias that the entry exports,
unless that is a name which leads into a circle, or a later entry has the same normalized name and
does not export the same. -/
theorem exported_alias_is_found_iff (haccepted : ofValue doc v source = .ok g)
    (hfields : doc.entries? v = some fields)
    (hfiles : doc.entriesOrNone ((Entries.get? fields "files").getD .null) =
      .ok (before ++ (.text key, file) :: after))
    (hexports : Exports doc file name spec) :
    ((Session.ofGraph g).addFile key).1 = .ok (some ⟨fileKey key⟩) ∧
      ((∃ h, g.handle spec = .ok h ∧ g.alias? ⟨fileKey key⟩ name = .ok (some h)) ↔
        ¬ g.IsCircular spec ∧ ∀ other ∈ lastFiled? doc after (fileKey key),
          ∃ spec', Exports doc other name spec' ∧ g.handle spec' = g.handle spec) := by
  obtain ⟨⟨rfl, -, fields', files, hfields', hfiles', -, hcollected⟩, -, -⟩ :=
    ofValue_eq_ok_iff.mp haccepted
  rw [hfields] at hfields'
  cases hfields'
  rw [hfiles] at hfiles'
  cases hfiles'
  have hfile : fileAt? g.files (fileKey key) =
      some ((lastFiled? g.doc after (fileKey key)).getD file) := by
    rw [hcollected, fileAt?_collectFiles]
    exact lastFiled?_append_cons rfl
  constructor
  · have hhas : g.hasFile (fileKey key) = true := by
      rw [Graph.hasFile, any_name_iff]
      by_contra hnot
      simp [fileAt?_eq_none_iff.mpr hnot] at hfile
    simp [Session.addFile, Session.ofGraph, hhas]
  · rw [exists_alias_iff hfile]
    cases lastFiled? g.doc after (fileKey key) with
    | none =>
      have hown : ∃ spec', Exports g.doc file name spec' ∧ g.handle spec' = g.handle spec :=
        ⟨spec, hexports, rfl⟩
      simp [hown]
    | some other => simp

/-- A file with an alias, and the same file again under another spelling, without aliases. -/
def respelled : Document := ⟨#[
  .mapping [(.text "files", .node 1)],
  .mapping [(.text "./a.ts", .node 2), (.text "a.ts", .node 4)],
  .mapping [(.text "aliases", .node 3)],
  .mapping [(.text "App", .text "string")],
  .mapping []]⟩

def respelledGraph : Graph where
  doc := respelled
  source := "<memory>"
  files := [("a.ts", .node 4)]
  declarations := []

theorem respelled_loses_alias :
    ofValue respelled (.node 0) "<memory>" = .ok respelledGraph ∧
      Exports respelled (.node 2) "App" (.text "string") ∧
      ((Session.ofGraph respelledGraph).addFile "./a.ts").1 = .ok (some ⟨"a.ts"⟩) ∧
      ¬ ∃ h, respelledGraph.handle (.text "string") = .ok h ∧
        respelledGraph.alias? ⟨"a.ts"⟩ "App" = .ok (some h) := by
  have haccepted : ofValue respelled (.node 0) "<memory>" = .ok respelledGraph := by cbv
  have hexports : Exports respelled (.node 2) "App" (.text "string") := ⟨_, rfl, rfl⟩
  have hkey : fileKey "./a.ts" = "a.ts" := by decide
  have hfiles : respelled.entriesOrNone (.node 1) =
      .ok ([] ++ (.text "./a.ts", .node 2) :: [(.text "a.ts", .node 4)]) := rfl
  obtain ⟨hfile, hfound⟩ := exported_alias_is_found_iff haccepted rfl hfiles hexports
  rw [hkey] at hfile hfound
  refine ⟨haccepted, hexports, hfile, fun h => ?_⟩
  obtain ⟨-, hlater⟩ := hfound.mp h
  obtain ⟨spec', ⟨aliases, haliases, hspec⟩, -⟩ := hlater (.node 4) (by decide)
  cases haliases
  cases hspec

end RouteCatalog.Graph
