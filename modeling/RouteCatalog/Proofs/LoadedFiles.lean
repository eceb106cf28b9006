import RouteCatalog.Generation
import RouteCatalog.Proofs.Sequence
import RouteCatalog.Session.History

/-! Which files a session has loaded. A file is loaded once somebody has asked for it, and it must
be one of the graph's; so the loaded files of a run are those that its services ask for. -/

namespace RouteCatalog

namespace Service

def entryKey (x : Service) : String := fileKey x.entryFile

/-- Whether the file of this name is among those that the service loads. -/
def asksFor (x : Service) (key : String) : Bool :=
  match x.sourceGlob with
  | some pattern =>
    if pattern.isEmpty then key == x.entryKey else matchesGlob (fileKey pattern) key
  | none => key == x.entryKey

end Service

theorem Graph.hasFile_iff {g : Graph} {key : String} :
    g.hasFile key ↔ key ∈ g.files.map Prod.fst := by
  simp [Graph.hasFile]

namespace Session

variable {s : Session} {key : String}

def hasLoaded (s : Session) (key : String) : Bool := s.loaded.any (·.contains key)

theorem hasLoaded_iff {loaded : List String} (h : s.loaded = some loaded) :
    s.hasLoaded key ↔ key ∈ loaded := by
  simp [hasLoaded, h]

theorem exists_loaded (h : s.isClosed = false) : ∃ loaded, s.loaded = some loaded :=
  Option.ne_none_iff_exists'.mp fun hnone => by simp [isClosed, hnone] at h

theorem mem_addKey {loaded : List String} {k : String} :
    k ∈ addKey loaded key ↔ k ∈ loaded ∨ k = key := by
  unfold addKey
  split
  · rename_i hkey
    constructor
    · exact Or.inl
    · rintro (hk | rfl)
      · exact hk
      · simpa using hkey
  · simp

theorem mem_foldl_addKey {loaded keys : List String} {k : String} :
    k ∈ keys.foldl addKey loaded ↔ k ∈ loaded ∨ k ∈ keys := by
  induction keys generalizing loaded with
  | nil => simp
  | cons key keys ih => rw [List.foldl_cons, ih, mem_addKey, List.mem_cons, or_assoc]

section Adding

variable (hopen : s.isClosed = false)
include hopen

theorem addFile_of_open (path : String) :
    (∃ file, (s.addFile path).1 = .ok file) ∧ ∀ key, (s.addFile path).2.hasLoaded key ↔
      s.hasLoaded key ∨ s.graph.hasFile key ∧ key = fileKey path := by
  obtain ⟨loaded, hloaded⟩ := exists_loaded hopen
  unfold addFile
  simp only [hloaded]
  split
  · rename_i hfile
    refine ⟨⟨_, rfl⟩, fun key => ?_⟩
    rw [hasLoaded_iff rfl, hasLoaded_iff hloaded, mem_addKey]
    constructor
    · intro hkey
      refine hkey.imp_right fun heq => ⟨?_, heq⟩
      rw [heq]
      exact hfile
    · exact Or.imp_right And.right
  · rename_i hfile
    refine ⟨⟨_, rfl⟩, fun key => ⟨.inl, fun hkey => hkey.resolve_right ?_⟩⟩
    intro hnew
    rw [hnew.2] at hnew
    exact hfile hnew.1

theorem addMatching_of_open (pattern : String) :
    (∃ files, (s.addMatching pattern).1 = .ok files) ∧ ∀ key,
      (s.addMatching pattern).2.hasLoaded key ↔
        s.hasLoaded key ∨ s.graph.hasFile key ∧ matchesGlob (fileKey pattern) key := by
  have hmatching : ∀ key, key ∈ s.matching pattern ↔
      s.graph.hasFile key ∧ matchesGlob (fileKey pattern) key := by
    intro key
    rw [Graph.hasFile_iff]
    exact List.mem_filter
  unfold addMatching
  split
  · rename_i hnone
    refine ⟨⟨_, rfl⟩, fun key => ?_⟩
    rw [← hmatching key, hnone]
    simp
  · rename_i hclosed _
    simp [isClosed, hclosed] at hopen
  · rename_i loaded hloaded _
    refine ⟨⟨_, rfl⟩, fun key => ?_⟩
    rw [hasLoaded_iff rfl, hasLoaded_iff hloaded, mem_foldl_addKey, hmatching key]

theorem addSources_of_open (x : Service) :
    (s.addSources x).1 = .ok () ∧ ∀ key, (s.addSources x).2.hasLoaded key ↔
      s.hasLoaded key ∨ s.graph.hasFile key ∧ x.asksFor key := by
  obtain ⟨⟨file, hfile⟩, hkeys⟩ := addFile_of_open hopen x.entryFile
  have hentry : ∀ key, (s.addFile x.entryFile).2.hasLoaded key ↔
      s.hasLoaded key ∨ s.graph.hasFile key ∧ (key == x.entryKey) := by
    simpa [Service.entryKey] using hkeys
  unfold addSources Service.asksFor
  cases x.sourceGlob with
  | none => exact ⟨by simp [hfile, Except.map], hentry⟩
  | some pattern =>
    cases hpattern : pattern.isEmpty with
    | true => simpa [hpattern, hfile, Except.map] using hentry
    | false =>
      obtain ⟨⟨files, hfiles⟩, hmatching⟩ := addMatching_of_open hopen pattern
      simpa [hpattern, hfiles, Except.map] using hmatching

end Adding

theorem session_findRouteType (x : Service) :
    (s.findRouteType x).2 = (s.addSources x).2 := by
  unfold findRouteType
  split
  · rename_i h
    rw [h]
  · rename_i h
    rw [h]

/-- No request makes up a file. -/
theorem hasFile_of_hasLoaded_after {call : SessionCall} (h : (s.after call).hasLoaded key) :
    s.hasLoaded key ∨ s.graph.hasFile key := by
  cases hclosed : s.isClosed with
  | true =>
    have hafter := s.isClosed_after call
    rw [hclosed, Bool.true_or] at hafter
    simp only [hasLoaded, Option.isNone_iff_eq_none.mp hafter] at h
    cases h
  | false =>
    cases call with
    | addFile path => exact (((addFile_of_open hclosed path).2 key).mp h).imp_right And.left
    | addMatching pattern =>
      exact (((addMatching_of_open hclosed pattern).2 key).mp h).imp_right And.left
    | sourceFile path => exact .inl h
    | findRouteType x =>
      rw [after, session_findRouteType] at h
      exact (((addSources_of_open hclosed x).2 key).mp h).imp_right And.left
    | close => cases h

theorem hasFile_of_hasLoaded_afterAll {calls : List SessionCall}
    (h : (s.afterAll calls).hasLoaded key) : s.hasLoaded key ∨ s.graph.hasFile key := by
  induction calls generalizing s with
  | nil => exact .inl h
  | cons call calls ih =>
    rcases ih h with hkey | hfile
    · exact hasFile_of_hasLoaded_after hkey
    · exact .inr (by simpa using hfile)

end Session

end RouteCatalog
