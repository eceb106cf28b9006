import Mathlib
import RouteCatalog.Session.History

/-! Closed sessions. No request opens a session again, and from its end on it stays as it is. It
turns down every file that is asked for by name, but a pattern only if it describes a file of the
graph: the loaded files are looked at once for every file that a pattern describes, and not for the
pattern itself. -/

namespace RouteCatalog.Session

variable {s : Session} {calls : List SessionCall}

theorem isClosed_afterAll (s : Session) (calls : List SessionCall) :
    (s.afterAll calls).isClosed = (s.isClosed || decide (.close ∈ calls)) := by
  unfold afterAll
  induction calls generalizing s with
  | nil => simp
  | cons call calls ih =>
    rw [List.foldl_cons, ih, isClosed_after, Bool.or_assoc]
    simp [eq_comm]

theorem loaded_of_closed (hclosed : s.isClosed = true) : s.loaded = none :=
  Option.isNone_iff_eq_none.mp hclosed

section Closed

variable (hclosed : s.isClosed = true)
include hclosed

theorem addFile_of_closed (path : String) : s.addFile path = (.error (.graph .closed), s) := by
  simp [addFile, loaded_of_closed hclosed]

theorem sourceFile_of_closed (path : String) : s.sourceFile path = .error (.graph .closed) := by
  simp [sourceFile, loaded_of_closed hclosed]

theorem addMatching_of_closed (pattern : String) : s.addMatching pattern =
    (if s.matching pattern = [] then .ok [] else .error (.graph .closed), s) := by
  unfold addMatching
  split
  · rename_i hnone
    rw [if_pos hnone]
  · rename_i hsome
    rw [if_neg hsome]
  · rename_i hloaded _
    rw [loaded_of_closed hclosed] at hloaded
    cases hloaded

theorem addSources_of_closed (service : Service) :
    s.addSources service = (.ok (), s) ∨ s.addSources service = (.error (.graph .closed), s) := by
  unfold addSources
  rw [addFile_of_closed hclosed]
  cases service.sourceGlob with
  | none => exact .inr rfl
  | some pattern =>
    dsimp only
    rw [addMatching_of_closed hclosed]
    split_ifs
    · exact .inr rfl
    · exact .inl rfl
    · exact .inr rfl

/-- A service is turned down even if its pattern is not: its entry file has to be loaded. -/
theorem findRouteType_of_closed (service : Service) :
    s.findRouteType service = (.error (.graph .closed), s) := by
  unfold findRouteType
  rcases addSources_of_closed hclosed service with heq | heq
  · rw [heq]
    dsimp only
    rw [routeTypeOf, sourceFile_of_closed hclosed]
    rfl
  · rw [heq]

theorem after_of_closed (call : SessionCall) : s.after call = s := by
  cases call with
  | addFile path => exact congrArg Prod.snd (addFile_of_closed hclosed path)
  | addMatching pattern => exact congrArg Prod.snd (addMatching_of_closed hclosed pattern)
  | sourceFile path => rfl
  | findRouteType service => exact congrArg Prod.snd (findRouteType_of_closed hclosed service)
  | close =>
    rcases s with ⟨graph, loaded⟩
    cases loaded_of_closed hclosed
    rfl

theorem afterAll_of_closed (calls : List SessionCall) : s.afterAll calls = s := by
  unfold afterAll
  induction calls with
  | nil => rfl
  | cons call calls ih => rw [List.foldl_cons, after_of_closed hclosed, ih]

end Closed

/-- Once a session has been closed, it stays so for good and nothing is loaded any more. Every file
and every service is turned down, and so is a pattern exactly if it describes a file of the graph;
for any other pattern there is nothing to load, which is what the closed session answers. -/
theorem closed_session_rejects_iff (hclose : .close ∈ calls) :
    (s.afterAll calls).isClosed = true ∧
      (∀ more, s.afterAll (calls ++ more) = s.afterAll calls) ∧
      (∀ path, (s.afterAll calls).addFile path = (.error (.graph .closed), s.afterAll calls)) ∧
      (∀ path, (s.afterAll calls).sourceFile path = .error (.graph .closed)) ∧
      (∀ service, (s.afterAll calls).findRouteType service =
        (.error (.graph .closed), s.afterAll calls)) ∧
      ∀ pattern, ((s.afterAll calls).addMatching pattern).2 = s.afterAll calls ∧
        (((s.afterAll calls).addMatching pattern).1 = .error (.graph .closed) ↔
          ∃ file ∈ s.graph.files, matchesGlob (fileKey pattern) file.1 = true) ∧
        (((s.afterAll calls).addMatching pattern).1 = .ok [] ↔
          ∀ file ∈ s.graph.files, matchesGlob (fileKey pattern) file.1 = false) := by
  have hclosed : (s.afterAll calls).isClosed = true := by
    simp [isClosed_afterAll, hclose]
  refine ⟨hclosed, fun more => ?_, addFile_of_closed hclosed, sourceFile_of_closed hclosed,
    findRouteType_of_closed hclosed, fun pattern => ?_⟩
  · rw [afterAll, List.foldl_append]
    exact afterAll_of_closed hclosed more
  · have hnone : (∀ file ∈ s.graph.files, matchesGlob (fileKey pattern) file.1 = false) ↔
        (s.afterAll calls).matching pattern = [] := by
      simp [matching]
    have hsome : (∃ file ∈ s.graph.files, matchesGlob (fileKey pattern) file.1 = true) ↔
        (s.afterAll calls).matching pattern ≠ [] := by
      rw [ne_eq, ← hnone]
      simp only [not_forall, Bool.not_eq_false, exists_prop]
    rw [addMatching_of_closed hclosed, hnone, hsome]
    split_ifs with hempty <;> simp [hempty]

def oneFileGraph : Graph where
  doc := {}
  source := "<memory>"
  files := [("src/app.ts", .null)]
  declarations := []

/-- A session that is closed twice answers a pattern that describes no file. -/
theorem unmatched_pattern_is_answered :
    .close ∈ [SessionCall.addFile "src/app.ts", .close, .close] ∧
      (((ofGraph oneFileGraph).afterAll [.addFile "src/app.ts", .close, .close]).addMatching
        "lib/*.ts").1 = .ok [] ∧
      (((ofGraph oneFileGraph).afterAll [.addFile "src/app.ts", .close, .close]).addMatching
        "src/*.ts").1 = .error (.graph .closed) := by
  have hclose : .close ∈ [SessionCall.addFile "src/app.ts", .close, .close] := by decide
  obtain ⟨-, -, -, -, -, hpattern⟩ :=
    closed_session_rejects_iff (s := ofGraph oneFileGraph) hclose
  refine ⟨hclose, (hpattern _).2.2.mpr ?_, (hpattern _).2.1.mpr ?_⟩
  · decide +kernel
  · decide +kernel

end RouteCatalog.Session
