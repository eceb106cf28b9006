import RouteCatalog.Session

/-! Histories of a session: what is asked of it, one request after the other, whether or not it
succeeds. Every request keeps the graph, and none opens a closed session again. -/

namespace RouteCatalog

inductive SessionCall where
  | addFile (path : String)
  | addMatching (pattern : String)
  | sourceFile (path : String)
  | findRouteType (service : Service)
  | close
  deriving DecidableEq, Repr

/-- The request by which a service loads its files. -/
def Service.loadingCall (x : Service) : SessionCall :=
  match x.sourceGlob with
  | some pattern => if pattern.isEmpty then .addFile x.entryFile else .addMatching pattern
  | none => .addFile x.entryFile

namespace Session

def after (s : Session) : SessionCall → Session
  | .addFile path => (s.addFile path).2
  | .addMatching pattern => (s.addMatching pattern).2
  | .sourceFile _ => s
  | .findRouteType service => (s.findRouteType service).2
  | .close => s.close

def afterAll (s : Session) (calls : List SessionCall) : Session := calls.foldl after s

theorem addFile_keeps (s : Session) (path : String) :
    (s.addFile path).2.graph = s.graph ∧ (s.addFile path).2.isClosed = s.isClosed := by
  rcases s with ⟨graph, loaded⟩
  cases loaded with
  | none => exact ⟨rfl, rfl⟩
  | some loaded =>
    simp only [addFile]
    split <;> exact ⟨rfl, rfl⟩

theorem addMatching_keeps (s : Session) (pattern : String) :
    (s.addMatching pattern).2.graph = s.graph ∧
      (s.addMatching pattern).2.isClosed = s.isClosed := by
  unfold addMatching
  split
  · exact ⟨rfl, rfl⟩
  · exact ⟨rfl, rfl⟩
  · rename_i loaded h _
    exact ⟨rfl, by simp [isClosed, h]⟩

theorem addSources_keeps (s : Session) (service : Service) :
    (s.addSources service).2.graph = s.graph ∧
      (s.addSources service).2.isClosed = s.isClosed := by
  unfold addSources
  split
  · split
    · exact s.addFile_keeps _
    · exact s.addMatching_keeps _
  · exact s.addFile_keeps _

theorem findRouteType_keeps (s : Session) (service : Service) :
    (s.findRouteType service).2.graph = s.graph ∧
      (s.findRouteType service).2.isClosed = s.isClosed := by
  have h := s.addSources_keeps service
  unfold findRouteType
  split
  · rename_i heq
    rw [heq] at h
    exact h
  · rename_i heq
    rw [heq] at h
    exact h

@[simp] theorem graph_after (s : Session) (call : SessionCall) :
    (s.after call).graph = s.graph := by
  cases call with
  | addFile path => exact (s.addFile_keeps path).1
  | addMatching pattern => exact (s.addMatching_keeps pattern).1
  | sourceFile => rfl
  | findRouteType service => exact (s.findRouteType_keeps service).1
  | close => rfl

@[simp] theorem graph_afterAll (s : Session) (calls : List SessionCall) :
    (s.afterAll calls).graph = s.graph := by
  unfold afterAll
  induction calls generalizing s with
  | nil => rfl
  | cons call calls ih => rw [List.foldl_cons, ih, graph_after]

/-- Only closing changes whether a session is closed. -/
theorem isClosed_after (s : Session) (call : SessionCall) :
    (s.after call).isClosed = (s.isClosed || decide (call = .close)) := by
  cases call with
  | addFile path => simp [after, (s.addFile_keeps path).2]
  | addMatching pattern => simp [after, (s.addMatching_keeps pattern).2]
  | sourceFile => simp [after]
  | findRouteType service => simp [after, (s.findRouteType_keeps service).2]
  | close => simp [after, close, isClosed]

end Session

end RouteCatalog
