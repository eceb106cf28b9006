import RouteCatalog.Proofs.FileNames
import RouteCatalog.Proofs.KeptObjects
import RouteCatalog.Proofs.PathText
import RouteCatalog.Proofs.Property
import RouteCatalog.Proofs.Rejection

/-! What a session says about its files. Every answer is determined by what has been asked of the
session before: the loaded files are those that were asked for, in the order in which this first
happened. -/

namespace RouteCatalog

namespace SessionCall

def asksFor : SessionCall → String → Bool
  | .addFile path, key => key == fileKey path
  | .addMatching pattern, key => matchesGlob (fileKey pattern) key
  | .findRouteType service, key => service.asksFor key
  | .sourceFile _, _ => false
  | .close, _ => false

end SessionCall

namespace Graph

variable {g : Graph} {doc : Document} {v : Value} {source : String}

/-- The names of the files that a request loads, in the order of the graph. -/
def requestedBy (g : Graph) (call : SessionCall) : List String :=
  (g.files.map Prod.fst).filter call.asksFor

def sessionAfter (g : Graph) (calls : List SessionCall) : Session :=
  (Session.ofGraph g).afterAll calls

def shelfAfter (g : Graph) (calls : List SessionCall) : Shelf := (Shelf.ofGraph g).afterAll calls

/-- Files are filed under names that are normalized, each under its own. -/
structure IsFiled (g : Graph) : Prop where
  nodup : (g.files.map Prod.fst).Nodup
  normalized : ∀ key ∈ g.files.map Prod.fst, fileKey key = key

theorem isFiled_of_ofValue (haccepted : ofValue doc v source = .ok g) : g.IsFiled := by
  obtain ⟨⟨-, -, fields, files, -, -, -, hcollected⟩, -⟩ := ofValue_eq_ok_iff.mp haccepted
  have hnames : g.files.map Prod.fst = (files.map (fileNameOf doc)).eraseDups := by
    rw [hcollected, names_collectFiles]
  refine ⟨?_, fun key hkey => ?_⟩
  · rw [hnames]
    exact nodup_eraseDups _
  · rw [hnames, List.mem_eraseDups] at hkey
    obtain ⟨e, -, rfl⟩ := List.mem_map.mp hkey
    exact fileKey_fileKey _

end Graph

namespace Session

variable {s : Session} {g : Graph} {call : SessionCall} {calls : List SessionCall}
  {loaded : List String}

section Loading

/-- Names that are added one after the other come after the old ones, without repetition. -/
theorem foldl_addKey_eraseDups (names keys : List String) :
    keys.foldl addKey names.eraseDups = (names ++ keys).eraseDups := by
  induction keys generalizing names with
  | nil => rw [List.append_nil, List.foldl_nil]
  | cons key keys ih =>
    have hadd : addKey names.eraseDups key = (names ++ [key]).eraseDups := by
      rw [addKey, eraseDups_concat]
      simp only [List.contains_iff_mem, List.mem_eraseDups]
    rw [List.foldl_cons, hadd, ih, List.append_assoc, List.singleton_append]

theorem prefix_foldl_addKey (loaded keys : List String) : loaded <+: keys.foldl addKey loaded := by
  induction keys generalizing loaded with
  | nil => exact List.prefix_rfl
  | cons key keys ih =>
    have hadd : loaded <+: addKey loaded key := by
      unfold addKey
      split_ifs
      · exact List.prefix_rfl
      · exact List.prefix_append _ _
    exact hadd.trans (ih _)

theorem requestedBy_addFile (hnodup : (g.files.map Prod.fst).Nodup) (path : String) :
    g.requestedBy (.addFile path) = if g.hasFile (fileKey path) then [fileKey path] else [] := by
  have hfilter : g.requestedBy (.addFile path) =
      (g.files.map Prod.fst).filter (· == fileKey path) := rfl
  rw [hfilter, List.filter_beq, hnodup.count]
  simp only [Graph.hasFile_iff]
  split_ifs <;> rfl

theorem requestedBy_findRouteType (g : Graph) (x : Service) :
    g.requestedBy (.findRouteType x) = g.requestedBy x.loadingCall := by
  have hasks : (SessionCall.findRouteType x).asksFor = x.loadingCall.asksFor := by
    funext key
    unfold Service.loadingCall
    simp only [SessionCall.asksFor, Service.asksFor]
    cases x.sourceGlob with
    | none => rfl
    | some pattern =>
      dsimp only
      split_ifs <;> rfl
  rw [Graph.requestedBy, hasks, Graph.requestedBy]

theorem loaded_addFile (hloaded : s.loaded = some loaded)
    (hnodup : (s.graph.files.map Prod.fst).Nodup) (path : String) :
    (s.after (.addFile path)).loaded =
      some ((s.graph.requestedBy (.addFile path)).foldl addKey loaded) := by
  rw [requestedBy_addFile hnodup]
  unfold after addFile
  simp only [hloaded]
  split_ifs
  · rfl
  · exact hloaded

theorem addMatching_eq (hloaded : s.loaded = some loaded) (pattern : String) :
    s.addMatching pattern = (.ok ((s.matching pattern).map SourceFile.mk),
      { s with loaded := some ((s.matching pattern).foldl addKey loaded) }) := by
  unfold addMatching
  rw [hloaded]
  cases s.matching pattern with
  | nil =>
    obtain ⟨graph, loaded'⟩ := s
    cases hloaded
    rfl
  | cons key keys => rfl

theorem loaded_after (hloaded : s.loaded = some loaded)
    (hnodup : (s.graph.files.map Prod.fst).Nodup) (hopen : call ≠ .close) :
    (s.after call).loaded = some ((s.graph.requestedBy call).foldl addKey loaded) := by
  have hmatching : ∀ pattern, (s.after (.addMatching pattern)).loaded =
      some ((s.graph.requestedBy (.addMatching pattern)).foldl addKey loaded) := by
    intro pattern
    rw [after, addMatching_eq hloaded]
    rfl
  cases call with
  | addFile path => exact loaded_addFile hloaded hnodup path
  | addMatching pattern => exact hmatching pattern
  | sourceFile path =>
    have hnone : s.graph.requestedBy (.sourceFile path) = [] := List.filter_false _
    rw [hnone]
    exact hloaded
  | findRouteType x =>
    rw [after, session_findRouteType, session_addSources, requestedBy_findRouteType]
    rcases x.loadingCall_cases with ⟨path, heq⟩ | ⟨pattern, heq⟩
    · rw [heq]
      exact loaded_addFile hloaded hnodup path
    · rw [heq]
      exact hmatching pattern
  | close => exact (hopen rfl).elim

theorem loaded_afterAll (hloaded : s.loaded = some loaded)
    (hnodup : (s.graph.files.map Prod.fst).Nodup) (hopen : .close ∉ calls) :
    (s.afterAll calls).loaded = some ((calls.flatMap s.graph.requestedBy).foldl addKey loaded) := by
  induction calls generalizing s loaded with
  | nil => exact hloaded
  | cons call calls ih =>
    obtain ⟨hcall, hcalls⟩ := List.ne_and_not_mem_of_not_mem_cons hopen
    have hrest := ih (loaded_after hloaded hnodup hcall.symm) (by rwa [graph_after]) hcalls
    rw [graph_after] at hrest
    rw [List.flatMap_cons, List.foldl_append]
    exact hrest

theorem mem_flatMap_requestedBy {key : String} : key ∈ calls.flatMap g.requestedBy ↔
    g.hasFile key ∧ ∃ call ∈ calls, call.asksFor key := by
  rw [List.mem_flatMap, Graph.hasFile_iff]
  constructor
  · rintro ⟨call, hcall, hkey⟩
    obtain ⟨hfile, hasks⟩ := List.mem_filter.mp hkey
    exact ⟨hfile, call, hcall, hasks⟩
  · rintro ⟨hfile, call, hcall, hasks⟩
    exact ⟨call, hcall, List.mem_filter.mpr ⟨hfile, hasks⟩⟩

theorem loaded_sessionAfter (hnodup : (g.files.map Prod.fst).Nodup) (hopen : .close ∉ calls) :
    (g.sessionAfter calls).loaded = some (calls.flatMap g.requestedBy).eraseDups := by
  have hstart : (ofGraph g).loaded = some [] := rfl
  rw [Graph.sessionAfter, loaded_afterAll hstart hnodup hopen]
  exact congrArg some (foldl_addKey_eraseDups [] _)

end Loading

end Session

namespace Graph

variable {g : Graph} {doc : Document} {v : Value} {source : String} {calls : List SessionCall}

/-- A session that has not been closed agrees with its history. It knows the files of its graph that
were asked for, a pattern gives all files that it describes, no file is loaded twice or ever
unloaded, and what is obtained for one name is one object. -/
theorem session_agrees_with_history (haccepted : ofValue doc v source = .ok g)
    (hopen : .close ∉ calls) :
    (g.sessionAfter calls).graph = g ∧
      (∀ path, (g.sessionAfter calls).sourceFile path =
        .ok (if g.hasFile (fileKey path) ∧ ∃ call ∈ calls, call.asksFor (fileKey path) then
          some ⟨fileKey path⟩ else none)) ∧
      (∀ pattern, ((g.sessionAfter calls).addMatching pattern).1 =
        .ok (((g.files.map Prod.fst).filter (matchesGlob (fileKey pattern))).map SourceFile.mk)) ∧
      (∃ loaded, (g.sessionAfter calls).loaded = some loaded ∧
        loaded = (calls.flatMap g.requestedBy).eraseDups ∧ loaded.Nodup ∧
        (∀ key ∈ loaded, g.hasFile key) ∧
        ∀ more, .close ∉ more →
          ∃ later, (g.sessionAfter (calls ++ more)).loaded = some (loaded ++ later)) ∧
      (g.shelfAfter calls).named = g.sessionAfter calls ∧
      (∀ path, ((g.sessionAfter calls).addFile path).1 =
        ((g.shelfAfter calls).addFile path).1.map (·.map FileObject.file)) ∧
      (∀ path, (g.sessionAfter calls).sourceFile path =
        ((g.shelfAfter calls).sourceFile path).map (·.map FileObject.file)) ∧
      (∀ pattern, ((g.sessionAfter calls).addMatching pattern).1.map (·.map some) =
        ((g.shelfAfter calls).addMatching pattern).1.map (·.map (·.map FileObject.file))) ∧
      ∀ f ∈ (Shelf.ofGraph g).obtainedAll calls, ∀ f' ∈ (Shelf.ofGraph g).obtainedAll calls,
        f.path = f'.path → f = f' := by
  have hfiled := isFiled_of_ofValue haccepted
  have hgraph : (g.sessionAfter calls).graph = g := Session.graph_afterAll (Session.ofGraph g) calls
  have hloaded := Session.loaded_sessionAfter hfiled.nodup hopen
  have hsound := Shelf.isSound_ofGraph g
  have hgrows := Shelf.Grows.afterAll (Shelf.ofGraph g) hopen
  have hkept : (g.shelfAfter calls).IsSound := hgrows.sound hsound
  have hnamed : (g.shelfAfter calls).named = g.sessionAfter calls :=
    Shelf.named_afterAll hsound hfiled.normalized hopen
  have hnames : ∀ key ∈ (g.shelfAfter calls).graph.files.map Prod.fst, fileKey key = key := by
    have hsame : (g.shelfAfter calls).graph = g := hgrows.graph
    rw [hsame]
    exact hfiled.normalized
  refine ⟨hgraph, fun path => ?_, fun pattern => ?_, ⟨_, hloaded, rfl, ?_, fun key hkey => ?_, ?_⟩,
    hnamed, fun path => ?_, fun path => ?_, fun pattern => ?_, ?_⟩
  · simp only [Session.sourceFile, hloaded, List.contains_iff_mem, List.mem_eraseDups,
      Session.mem_flatMap_requestedBy]
  · rw [Session.addMatching_eq hloaded, Session.matching, hgraph]
  · exact nodup_eraseDups _
  · exact (Session.mem_flatMap_requestedBy.mp (List.mem_eraseDups.mp hkey)).1
  · intro more hmore
    have hall : SessionCall.close ∉ calls ++ more := by simp [hopen, hmore]
    obtain ⟨later, hlater⟩ := Session.prefix_foldl_addKey
      (calls.flatMap g.requestedBy).eraseDups (more.flatMap g.requestedBy)
    refine ⟨later, ?_⟩
    rw [Session.loaded_sessionAfter hfiled.nodup hall, List.flatMap_append,
      ← Session.foldl_addKey_eraseDups, hlater]
  · rw [← hnamed, Shelf.named_addFile hkept]
  · rw [← hnamed, Shelf.named_sourceFile hkept]
  · rw [← hnamed]
    exact (Shelf.named_addMatching hkept hnames pattern).1
  · intro f hf f' hf' hpath
    have hheld := Shelf.holds_of_mem_obtainedAll hsound hopen hf
    rw [hpath] at hheld
    exact hheld.unique (Shelf.holds_of_mem_obtainedAll hsound hopen hf')

def twoFiles : Document := ⟨#[
  .mapping [(.text "files", .node 1)],
  .mapping [(.text "./a.ts", .node 2), (.text "lib//b.ts", .node 2)],
  .mapping []]⟩

def twoFilesGraph : Graph where
  doc := twoFiles
  source := "<memory>"
  files := [("a.ts", .node 2), ("lib/b.ts", .node 2)]
  declarations := []

/-- A file that is asked for twice keeps its place. -/
theorem twoFiles_session :
    ofValue twoFiles (.node 0) "<memory>" = .ok twoFilesGraph ∧
      .close ∉ [SessionCall.addFile "lib\\b.ts", .sourceFile "a.ts", .addFile "lib/./b.ts"] ∧
      (twoFilesGraph.sessionAfter
        [.addFile "lib\\b.ts", .sourceFile "a.ts", .addFile "lib/./b.ts"]).loaded =
          some ["lib/b.ts"] ∧
      (twoFilesGraph.sessionAfter
        [.addFile "lib\\b.ts", .sourceFile "a.ts", .addFile "lib/./b.ts"]).sourceFile "a.ts" =
          .ok none := by
  have haccepted : ofValue twoFiles (.node 0) "<memory>" = .ok twoFilesGraph := by cbv
  have hopen : SessionCall.close ∉
      [.addFile "lib\\b.ts", .sourceFile "a.ts", .addFile "lib/./b.ts"] := by decide
  obtain ⟨-, hfound, -, ⟨loaded, hloaded, heq, -⟩, -⟩ :=
    session_agrees_with_history haccepted hopen
  refine ⟨haccepted, hopen, ?_, ?_⟩
  · rw [hloaded, heq]
    decide
  · rw [hfound]
    decide

end Graph

end RouteCatalog
