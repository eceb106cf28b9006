import RouteCatalog.Proofs.FileNames
import RouteCatalog.Proofs.LoadedFiles
import RouteCatalog.Session.Objects

/-! The objects of source files. An object that is kept under a name stays there as long as the
session is open, so that all requests obtain the same one for it; and what a session says about
objects is what the session of their names says. -/

namespace RouteCatalog

theorem Service.loadingCall_cases (x : Service) :
    (∃ path, x.loadingCall = .addFile path) ∨ ∃ pattern, x.loadingCall = .addMatching pattern := by
  unfold loadingCall
  split
  · split_ifs
    · exact .inl ⟨_, rfl⟩
    · exact .inr ⟨_, rfl⟩
  · exact .inl ⟨_, rfl⟩

theorem Session.session_addSources (s : Session) (x : Service) :
    (s.addSources x).2 = s.after x.loadingCall := by
  unfold addSources Service.loadingCall
  cases x.sourceGlob with
  | none => rfl
  | some pattern =>
    dsimp only
    split_ifs <;> rfl

namespace Shelf

variable {s s' : Shelf} {key path : String} {f f' : FileObject} {call : SessionCall}
  {kept : List (String × FileObject)}

def Holds (s : Shelf) (key : String) (f : FileObject) : Prop :=
  s.kept.bind (·.lookup key) = some f

def IsSound (s : Shelf) : Prop := ∀ key f, s.Holds key f → f.path = key

theorem Holds.unique (h : s.Holds key f) (h' : s.Holds key f') : f = f' :=
  Option.some.inj (h.symm.trans h')

theorem holds_iff (hkept : s.kept = some kept) : s.Holds key f ↔ kept.lookup key = some f := by
  rw [Holds, hkept, Option.bind_some]

section Keep

theorem lookup_eq_none_iff : kept.lookup key = none ↔ key ∉ kept.map Prod.fst := by
  rw [List.lookup_eq_none_iff, List.mem_map]
  constructor
  · rintro h ⟨e, he, rfl⟩
    simpa using h e he
  · intro h e he
    simpa using fun heq => h ⟨e, he, heq.symm⟩

theorem keep_cases (kept : List (String × FileObject)) (key : String) (f : FileObject) :
    keep kept key f = kept ∧ key ∈ kept.map Prod.fst ∨
    keep kept key f = kept ++ [(key, f)] ∧ key ∉ kept.map Prod.fst := by
  unfold keep
  simp only [Graph.any_name_iff]
  by_cases hmem : key ∈ kept.map Prod.fst
  · exact .inl ⟨if_pos hmem, hmem⟩
  · exact .inr ⟨if_neg hmem, hmem⟩

/-- What is kept stays, and under a new name the new object is kept. -/
theorem lookup_keep {key' : String} : (keep kept key f).lookup key' =
    (kept.lookup key').or (if key' = key then some f else none) := by
  rcases keep_cases kept key f with ⟨heq, hmem⟩ | ⟨heq, hmem⟩
  · rw [heq]
    cases hold : kept.lookup key' with
    | some f' => rfl
    | none =>
      have hne : key' ≠ key := fun h => lookup_eq_none_iff.mp hold (h ▸ hmem)
      simp [hne]
  · rw [heq, List.lookup_append]
    by_cases hkey : key' = key
    · simp [hkey]
    · simp [hkey, List.lookup_cons, beq_eq_false_iff_ne.mpr hkey]

theorem names_keep : (keep kept key f).map Prod.fst = Session.addKey (kept.map Prod.fst) key := by
  unfold Session.addKey
  rcases keep_cases kept key f with ⟨heq, hmem⟩ | ⟨heq, hmem⟩
  · simp only [heq, List.contains_iff_mem, hmem, if_true]
  · simp only [heq, List.contains_iff_mem, hmem, if_false, List.map_append, List.map_singleton]

end Keep

/-- Loading a file answers with what is kept under its name from then on. -/
theorem addFile_cases (s : Shelf) (path : String) :
    (s.kept = none ∧ s.addFile path = (.error (.graph .closed), s)) ∨
      ∃ kept, s.kept = some kept ∧
        ((s.graph.hasFile (fileKey path) = false ∧ s.addFile path = (.ok none, s)) ∨
          s.graph.hasFile (fileKey path) = true ∧ ∃ f s', s.addFile path = (.ok (some f), s') ∧
            s'.graph = s.graph ∧
            s'.kept = some (keep kept (fileKey path) ⟨s.made, fileKey path⟩) ∧
            s'.Holds (fileKey path) f) := by
  unfold addFile
  cases hkept : s.kept with
  | none => exact .inl ⟨rfl, rfl⟩
  | some kept =>
    refine .inr ⟨kept, rfl, ?_⟩
    cases hfile : s.graph.hasFile (fileKey path) with
    | false => exact .inl ⟨rfl, by simp [hfile]⟩
    | true =>
      set kept' := keep kept (fileKey path) ⟨s.made, fileKey path⟩ with hkept'
      have hsome : (kept'.lookup (fileKey path)).isSome := by simp [hkept', lookup_keep]
      obtain ⟨f, hf⟩ := Option.isSome_iff_exists.mp hsome
      refine .inr ⟨rfl, f, { s with made := s.made + 1, kept := some kept' }, ?_, rfl, rfl,
        (holds_iff rfl).mpr hf⟩
      dsimp only
      rw [if_pos hfile, ← hkept', hf]

theorem addSources_eq (s : Shelf) (service : Service) :
    s.addSources service = s.after service.loadingCall := by
  unfold addSources Service.loadingCall
  cases service.sourceGlob with
  | none => rfl
  | some pattern =>
    dsimp only
    split_ifs <;> rfl

/-- A session has gone on: it has the same graph and keeps all that it kept. -/
structure Grows (s s' : Shelf) : Prop where
  graph : s'.graph = s.graph
  holds : ∀ key f, s.Holds key f → s'.Holds key f
  sound : s.IsSound → s'.IsSound

namespace Grows

theorem refl (s : Shelf) : Grows s s := ⟨rfl, fun _ _ h => h, id⟩

theorem trans {s'' : Shelf} (h : Grows s s') (h' : Grows s' s'') : Grows s s'' :=
  ⟨h'.graph.trans h.graph, fun key f hf => h'.holds key f (h.holds key f hf),
    fun hs => h'.sound (h.sound hs)⟩

theorem addFile (s : Shelf) (path : String) : Grows s (s.addFile path).2 := by
  rcases s.addFile_cases path with
    ⟨-, heq⟩ | ⟨kept, hkept, ⟨-, heq⟩ | ⟨-, f, s', heq, hgraph, hkept', -⟩⟩
  · rw [heq]
    exact refl s
  · rw [heq]
    exact refl s
  · rw [heq]
    refine ⟨hgraph, fun key f' hold => ?_, fun hs key f' hnow => ?_⟩
    · rw [holds_iff hkept] at hold
      rw [holds_iff hkept', lookup_keep, hold, Option.some_or]
    · rw [holds_iff hkept', lookup_keep] at hnow
      rcases Option.or_eq_some_iff.mp hnow with hold | ⟨-, hnew⟩
      · exact hs key f' ((holds_iff hkept).mpr hold)
      · split_ifs at hnew with hkey
        rw [← Option.some.inj hnew, hkey]

theorem addEach (s : Shelf) (paths : List String) : Grows s (s.addEach paths).2 := by
  induction paths generalizing s with
  | nil => exact refl s
  | cons path paths ih =>
    have hfirst := addFile s path
    unfold Shelf.addEach
    split
    · rename_i heq
      rwa [heq] at hfirst
    · rename_i f s₁ heq
      rw [heq] at hfirst
      exact hfirst.trans (ih s₁)

theorem addSources (s : Shelf) (service : Service) : Grows s (s.addSources service) := by
  rw [addSources_eq]
  rcases service.loadingCall_cases with ⟨path, heq⟩ | ⟨pattern, heq⟩
  · rw [heq]
    exact addFile s path
  · rw [heq]
    exact addEach s _

theorem after (s : Shelf) (hopen : call ≠ .close) : Grows s (s.after call) := by
  cases call with
  | addFile path => exact addFile s path
  | addMatching pattern => exact addEach s _
  | sourceFile path => exact refl s
  | findRouteType service => exact addSources s service
  | close => exact (hopen rfl).elim

theorem afterAll (s : Shelf) {calls : List SessionCall} (hopen : .close ∉ calls) :
    Grows s (s.afterAll calls) := by
  induction calls generalizing s with
  | nil => exact refl s
  | cons call calls ih =>
    obtain ⟨hcall, hcalls⟩ := List.ne_and_not_mem_of_not_mem_cons hopen
    exact (after s hcall.symm).trans (ih (s.after call) hcalls)

end Grows

theorem isSound_ofGraph (g : Graph) : (ofGraph g).IsSound := by
  rintro key f h
  cases h

section Obtained

theorem mem_given {answer : Except Failure (List (Option FileObject))} :
    f ∈ given answer ↔ ∃ fs, answer = .ok fs ∧ some f ∈ fs := by
  cases answer <;> simp [given]

theorem mem_given_one {answer : Except Failure (Option FileObject)} :
    f ∈ given (answer.map ([·])) ↔ answer = .ok (some f) := by
  cases answer <;> simp [given, Except.map, eq_comm]

theorem holds_of_addFile (h : (s.addFile path).1 = .ok (some f)) :
    (s.addFile path).2.Holds (fileKey path) f := by
  rcases s.addFile_cases path with ⟨-, heq⟩ | ⟨kept, -, ⟨-, heq⟩ | ⟨-, f', s', heq, -, -, hf⟩⟩
  · rw [heq] at h
    cases h
  · rw [heq] at h
    cases h
  · rw [heq] at h ⊢
    cases h
    exact hf

theorem holds_of_sourceFile (h : s.sourceFile path = .ok (some f)) :
    s.Holds (fileKey path) f := by
  unfold sourceFile at h
  cases hkept : s.kept with
  | none => simp [hkept] at h
  | some kept =>
    rw [hkept] at h
    exact (holds_iff hkept).mpr (Except.ok.inj h)

theorem holds_of_addEach {paths : List String} (h : f ∈ given (s.addEach paths).1) :
    ∃ key, (s.addEach paths).2.Holds key f := by
  induction paths generalizing s with
  | nil => cases h
  | cons path paths ih =>
    unfold addEach at h ⊢
    split at h
    · cases h
    · rename_i f₁ s₁ heq
      obtain ⟨fs, hfs, hmem⟩ := mem_given.mp h
      obtain ⟨rest, hrest, rfl⟩ := map_eq_ok_iff.mp hfs
      rcases List.mem_cons.mp hmem with rfl | hmem
      · have hok : (s.addFile path).1 = .ok (some f) := by rw [heq]
        have hfirst := holds_of_addFile hok
        rw [heq] at hfirst
        exact ⟨_, (Grows.addEach s₁ paths).holds _ _ hfirst⟩
      · exact ih (mem_given.mpr ⟨rest, hrest, hmem⟩)

theorem holds_of_mem_obtained (h : f ∈ s.obtained call) : ∃ key, (s.after call).Holds key f := by
  cases call with
  | addFile path => exact ⟨_, holds_of_addFile (mem_given_one.mp h)⟩
  | addMatching pattern => exact holds_of_addEach h
  | sourceFile path => exact ⟨_, holds_of_sourceFile (mem_given_one.mp h)⟩
  | findRouteType service => exact ⟨_, holds_of_sourceFile (mem_given_one.mp h)⟩
  | close => cases h

/-- What is obtained in the course of a run is kept to its end, under its own name. -/
theorem holds_of_mem_obtainedAll {calls : List SessionCall} (hs : s.IsSound)
    (hopen : .close ∉ calls) (h : f ∈ s.obtainedAll calls) : (s.afterAll calls).Holds f.path f := by
  induction calls generalizing s with
  | nil => cases h
  | cons call calls ih =>
    obtain ⟨hcall, hcalls⟩ := List.ne_and_not_mem_of_not_mem_cons hopen
    have hafter := (Grows.after s hcall.symm).sound hs
    rcases List.mem_append.mp h with hnow | hlater
    · obtain ⟨key, hkey⟩ := holds_of_mem_obtained hnow
      rw [hafter key f hkey]
      exact (Grows.afterAll (s.after call) hcalls).holds key f hkey
    · exact ih hafter hcalls hlater

end Obtained

section Named

/-- What an answer says when objects are taken for their names. -/
theorem named_of_kept (hkept : s.kept = some kept) :
    s.named = ⟨s.graph, some (kept.map Prod.fst)⟩ := by
  rw [named, hkept, Option.map_some]

theorem file_of_holds (hs : s.IsSound) (h : s.Holds key f) : f.file = ⟨key⟩ := by
  rw [FileObject.file, hs key f h]

theorem named_addFile (hs : s.IsSound) (path : String) : s.named.addFile path =
    ((s.addFile path).1.map (·.map FileObject.file), (s.addFile path).2.named) := by
  have hsound := (Grows.addFile s path).sound hs
  rcases s.addFile_cases path with
    ⟨hkept, heq⟩ | ⟨kept, hkept, ⟨hfile, heq⟩ | ⟨hfile, f, s', heq, hgraph, hkept', hf⟩⟩
  · rw [heq]
    simp [Session.addFile, named, hkept, Except.map]
  · rw [heq, named_of_kept hkept]
    simp [Session.addFile, hfile, Except.map]
  · rw [heq] at hsound ⊢
    rw [named_of_kept hkept, named_of_kept hkept', hgraph, names_keep]
    simp [Session.addFile, hfile, Except.map, file_of_holds hsound hf]

theorem named_sourceFile (hs : s.IsSound) (path : String) :
    s.named.sourceFile path = (s.sourceFile path).map (·.map FileObject.file) := by
  unfold sourceFile Session.sourceFile
  cases hkept : s.kept with
  | none => simp [named, hkept, Except.map]
  | some kept =>
    rw [named_of_kept hkept]
    simp only [List.contains_iff_mem, Except.map]
    cases hf : kept.lookup (fileKey path) with
    | none => rw [if_neg (lookup_eq_none_iff.mp hf), Option.map_none]
    | some f =>
      have hmem : fileKey path ∈ kept.map Prod.fst := by
        by_contra hnot
        rw [lookup_eq_none_iff.mpr hnot] at hf
        cases hf
      rw [if_pos hmem, Option.map_some, file_of_holds hs ((holds_iff hkept).mpr hf)]

/-- Normalizing the names again changes nothing, so that each of them is loaded under itself. -/
theorem named_addEach {keys : List String} (hs : s.IsSound) (hkept : s.kept = some kept)
    (hfiles : ∀ key ∈ keys, s.graph.hasFile key) (hnames : ∀ key ∈ keys, fileKey key = key) :
    (s.addEach keys).1.map (·.map (·.map FileObject.file)) =
        .ok (keys.map fun key => some ⟨key⟩) ∧
      (s.addEach keys).2.named = ⟨s.graph, some (keys.foldl Session.addKey (kept.map Prod.fst))⟩ := by
  induction keys generalizing s kept with
  | nil => exact ⟨rfl, named_of_kept hkept⟩
  | cons key keys ih =>
    have hfile := hfiles key List.mem_cons_self
    have hname := hnames key List.mem_cons_self
    have hsound := (Grows.addFile s key).sound hs
    rcases s.addFile_cases key with
      ⟨hnone, -⟩ | ⟨kept', hkept', ⟨hfile', -⟩ | ⟨-, f, s', heq, hgraph, hkept'', hf⟩⟩
    · rw [hkept] at hnone
      cases hnone
    · rw [hname, hfile] at hfile'
      cases hfile'
    · rw [hkept] at hkept'
      cases hkept'
      rw [heq] at hsound
      rw [hname] at hkept'' hf
      obtain ⟨hothers, hloaded⟩ := ih hsound hkept''
        (fun k hk => hgraph ▸ hfiles k (List.mem_cons_of_mem key hk))
        (fun k hk => hnames k (List.mem_cons_of_mem key hk))
      obtain ⟨fs, hfs, hothers⟩ := map_eq_ok_iff.mp hothers
      rw [names_keep, hgraph] at hloaded
      unfold addEach
      rw [heq]
      refine ⟨?_, hloaded⟩
      simp [hfs, Except.map, hothers, file_of_holds hsound hf]

theorem named_addMatching (hs : s.IsSound)
    (hnames : ∀ key ∈ s.graph.files.map Prod.fst, fileKey key = key) (pattern : String) :
    (s.named.addMatching pattern).1.map (·.map some) =
        (s.addMatching pattern).1.map (·.map (·.map FileObject.file)) ∧
      (s.named.addMatching pattern).2 = (s.addMatching pattern).2.named := by
  have hmatching : s.named.matching pattern =
      (s.graph.files.map Prod.fst).filter (matchesGlob (fileKey pattern)) := rfl
  unfold Session.addMatching addMatching
  rw [hmatching]
  cases hkeys : (s.graph.files.map Prod.fst).filter (matchesGlob (fileKey pattern)) with
  | nil => exact ⟨rfl, rfl⟩
  | cons key keys =>
    cases hkept : s.kept with
    | none =>
      have hclosed : s.addFile key = (.error (.graph .closed), s) := by rw [addFile, hkept]
      simp [named, hkept, addEach, hclosed, Except.map]
    | some kept =>
      have hmem : ∀ k ∈ key :: keys, k ∈ s.graph.files.map Prod.fst := by
        intro k hk
        rw [← hkeys] at hk
        exact (List.mem_filter.mp hk).1
      obtain ⟨hanswer, hloaded⟩ := named_addEach hs hkept
        (fun k hk => Graph.hasFile_iff.mpr (hmem k hk)) (fun k hk => hnames k (hmem k hk))
      rw [named_of_kept hkept, hanswer, hloaded]
      exact ⟨by simp [Except.map], rfl⟩

theorem named_addSources (hs : s.IsSound)
    (hnames : ∀ key ∈ s.graph.files.map Prod.fst, fileKey key = key) (service : Service) :
    (s.named.addSources service).2 = (s.addSources service).named := by
  rw [addSources_eq, Session.session_addSources]
  rcases service.loadingCall_cases with ⟨path, heq⟩ | ⟨pattern, heq⟩
  · rw [heq]
    exact congrArg Prod.snd (named_addFile hs path)
  · rw [heq]
    exact (named_addMatching hs hnames pattern).2

theorem named_after (hs : s.IsSound)
    (hnames : ∀ key ∈ s.graph.files.map Prod.fst, fileKey key = key) (call : SessionCall) :
    (s.after call).named = s.named.after call := by
  cases call with
  | addFile path => exact (congrArg Prod.snd (named_addFile hs path)).symm
  | addMatching pattern => exact (named_addMatching hs hnames pattern).2.symm
  | sourceFile path => rfl
  | findRouteType service =>
    rw [Session.after, Session.session_findRouteType]
    exact (named_addSources hs hnames service).symm
  | close => rfl

theorem named_afterAll {calls : List SessionCall} (hs : s.IsSound)
    (hnames : ∀ key ∈ s.graph.files.map Prod.fst, fileKey key = key) (hopen : .close ∉ calls) :
    (s.afterAll calls).named = s.named.afterAll calls := by
  induction calls generalizing s with
  | nil => rfl
  | cons call calls ih =>
    obtain ⟨hcall, hcalls⟩ := List.ne_and_not_mem_of_not_mem_cons hopen
    have hgrows := Grows.after s hcall.symm
    have hrest := ih (hgrows.sound hs) (hgrows.graph ▸ hnames) hcalls
    rw [named_after hs hnames] at hrest
    exact hrest

end Named

end Shelf

end RouteCatalog
