import RouteCatalog.Proofs.FileWriting
import RouteCatalog.Proofs.ServiceOutcome

/-! What a run makes of its services. Each of them is asked for its endpoints in the session that
the ones before it leave. The document has a section and the count for those that answer, the log
has one error for those that are left out, and a failure of another kind ends the run before
anything is written. -/

namespace RouteCatalog

structure Collected where
  service : Service
  answer : Except Failure (List Endpoint)

namespace Collected

def section? (c : Collected) : Option String :=
  match c.answer with
  | .ok endpoints => some (Markdown.serviceSection c.service.title endpoints c.service.sdk)
  | .error _ => none

def count (c : Collected) : Nat :=
  match c.answer with
  | .ok endpoints => endpoints.length
  | .error _ => 0

def failure? (c : Collected) : Option Failure :=
  match c.answer with
  | .ok _ => none
  | .error e => some e

end Collected

/-- Whether no service has failed for another reason than a missing entry file or alias. -/
def OnlySkips (cs : List Collected) : Prop := ∀ e ∈ cs.filterMap Collected.failure?, e.isSkippable

def loggedErrors (log : List LogEntry) : List LogEntry := log.filter (·.level = .error)

namespace Session

/-- Asks each service for its endpoints, in the session that the services before it leave. -/
def collectAll (s : Session) : List Service → List Collected
  | [] => []
  | x :: xs => ⟨x, (s.collectEndpoints x).1⟩ :: (s.collectEndpoints x).2.collectAll xs

end Session

namespace Options

def generatedFrom (o : Options) (cs : List Collected) : Generated where
  document := o.preamble ++ String.join (cs.filterMap Collected.section?)
  endpointCount := (cs.map Collected.count).sum

end Options

variable {s s' : Session} {x : Service} {xs : List Service} {c : Collected} {cs : List Collected}
  {e : Failure} {endpoints : List Endpoint}

theorem onlySkips_cons : OnlySkips (c :: cs) ↔
    (∀ e, c.answer = .error e → e.isSkippable = true) ∧ OnlySkips cs := by
  rcases c with ⟨x, _ | _⟩
  · simp [OnlySkips, Collected.failure?]
  · simp [OnlySkips, Collected.failure?]

theorem onlySkips_or_fails (cs : List Collected) : OnlySkips cs ∨ ∃ before x e after,
    cs = before ++ ⟨x, .error e⟩ :: after ∧ OnlySkips before ∧ e.isSkippable = false := by
  induction cs with
  | nil => exact .inl (by simp [OnlySkips])
  | cons c cs ih =>
    by_cases hc : ∀ e, c.answer = .error e → e.isSkippable = true
    · rcases ih with hskips | ⟨before, x, e, after, rfl, hbefore, he⟩
      · exact .inl (onlySkips_cons.mpr ⟨hc, hskips⟩)
      · exact .inr ⟨c :: before, x, e, after, rfl, onlySkips_cons.mpr ⟨hc, hbefore⟩, he⟩
    · rcases c with ⟨x, answer⟩
      push Not at hc
      obtain ⟨e, rfl, he⟩ := hc
      exact .inr ⟨[], x, e, cs, rfl, by simp [OnlySkips], Bool.eq_false_iff.mpr he⟩

theorem not_onlySkips_of_failure {before after : List Collected}
    (h : cs = before ++ ⟨x, .error e⟩ :: after) (he : e.isSkippable = false) : ¬ OnlySkips cs := by
  intro hskips
  have hmem : e ∈ cs.filterMap Collected.failure? :=
    List.mem_filterMap.mpr ⟨⟨x, .error e⟩, by simp [h], rfl⟩
  rw [hskips e hmem] at he
  cases he

theorem loggedErrors_append (log more : List LogEntry) :
    loggedErrors (log ++ more) = loggedErrors log ++ loggedErrors more :=
  List.filter_append ..

namespace Session

section Steps

theorem documentService_ok (h : s.collectEndpoints x = (.ok endpoints, s')) :
    s.documentService x = ⟨.ok (some ⟨x, endpoints⟩), s',
      [startMessage x, countMessage x endpoints.length]⟩ := by
  rw [documentService, h]

theorem documentService_skipped (h : s.collectEndpoints x = (.error e, s'))
    (he : e.isSkippable = true) :
    s.documentService x = ⟨.ok none, s', [startMessage x, skipMessage e]⟩ := by
  rw [documentService, h]
  exact if_pos he

theorem documentService_failed (h : s.collectEndpoints x = (.error e, s'))
    (he : e.isSkippable = false) :
    s.documentService x = ⟨.error e, s', [startMessage x]⟩ := by
  rw [documentService, h]
  exact if_neg (by simp [he])

end Steps

theorem isClosed_documentAll (s : Session) (xs : List Service) :
    (s.documentAll xs).session.isClosed = s.isClosed := by
  induction xs generalizing s with
  | nil => rfl
  | cons x xs ih =>
    have hone : (s.documentService x).session.isClosed = s.isClosed := by
      rw [session_documentService]
      exact (s.addSources_keeps x).2
    rw [documentAll]
    generalize s.documentService x = outcome at hone
    rcases outcome with ⟨e | found, s', log⟩
    · exact hone
    · exact (ih s').trans hone

/-- Services that are left out for want of a file or an alias do not end a run. -/
theorem documentAll_of_onlySkips (h : OnlySkips (s.collectAll xs)) :
    ∃ ds, (s.documentAll xs).result = .ok ds ∧
      ds.map Documented.markdown = (s.collectAll xs).filterMap Collected.section? ∧
      (ds.map (·.endpoints.length)).sum = ((s.collectAll xs).map Collected.count).sum ∧
      loggedErrors (s.documentAll xs).log =
        ((s.collectAll xs).filterMap Collected.failure?).map skipMessage := by
  induction xs generalizing s with
  | nil => exact ⟨[], rfl, rfl, rfl, rfl⟩
  | cons x xs ih =>
    rw [collectAll, onlySkips_cons] at h
    obtain ⟨hx, hxs⟩ := h
    rw [documentAll, collectAll]
    rcases hcollect : s.collectEndpoints x with ⟨e | endpoints, s'⟩
    · rw [hcollect] at hx hxs
      obtain ⟨ds, hds, hsections, hcount, hlog⟩ := ih hxs
      rw [documentService_skipped hcollect (hx e rfl)]
      refine ⟨ds, ?_, hsections, ?_, ?_⟩
      · simp only [hds]
        rfl
      · rw [hcount, List.map_cons, List.sum_cons]
        exact (Nat.zero_add _).symm
      · rw [loggedErrors_append, hlog]
        rfl
    · rw [hcollect] at hxs
      obtain ⟨ds, hds, hsections, hcount, hlog⟩ := ih hxs
      rw [documentService_ok hcollect]
      refine ⟨⟨x, endpoints⟩ :: ds, ?_, ?_, ?_, ?_⟩
      · simp only [hds]
        rfl
      · rw [List.map_cons, hsections]
        rfl
      · rw [List.map_cons, List.sum_cons, hcount, List.map_cons, List.sum_cons]
        rfl
      · rw [loggedErrors_append, hlog]
        rfl

theorem documentAll_of_failure {before after : List Collected}
    (h : s.collectAll xs = before ++ ⟨x, .error e⟩ :: after) (hbefore : OnlySkips before)
    (he : e.isSkippable = false) : (s.documentAll xs).result = .error e ∧
      loggedErrors (s.documentAll xs).log = (before.filterMap Collected.failure?).map skipMessage := by
  induction xs generalizing s before with
  | nil => simp [collectAll] at h
  | cons y xs ih =>
    rw [collectAll] at h
    rw [documentAll]
    rcases hcollect : s.collectEndpoints y with ⟨answer, s'⟩
    rw [hcollect] at h
    cases before with
    | nil =>
      obtain ⟨hy, -⟩ := List.cons_eq_cons.mp h
      cases hy
      rw [documentService_failed hcollect he]
      exact ⟨rfl, rfl⟩
    | cons c before =>
      obtain ⟨rfl, hxs⟩ := List.cons_eq_cons.mp h
      obtain ⟨hy, hbefore⟩ := onlySkips_cons.mp hbefore
      obtain ⟨hresult, hlog⟩ := ih hxs hbefore
      cases answer with
      | error e' =>
        rw [documentService_skipped hcollect (hy e' rfl)]
        refine ⟨?_, ?_⟩
        · simp only [hresult]
          rfl
        · rw [loggedErrors_append, hlog]
          rfl
      | ok endpoints =>
        rw [documentService_ok hcollect]
        refine ⟨?_, ?_⟩
        · simp only [hresult]
          rfl
        · rw [loggedErrors_append, hlog]
          rfl

end Session

namespace Options

variable {o : Options} {ds : List Documented}

theorem assemble_eq (hsections : ds.map Documented.markdown = cs.filterMap Collected.section?)
    (hcount : (ds.map (·.endpoints.length)).sum = (cs.map Collected.count).sum) :
    o.assemble ds = o.generatedFrom cs := by
  unfold assemble generatedFrom
  rw [hsections, ← hcount, List.sum_eq_foldl, List.foldl_map]

theorem generateIn_of_ok (h : (s.documentAll o.services).result = .ok ds) (t : FileTree) :
    (o.generateIn s t).1.result = (o.write t (o.assemble ds)).1.map (fun _ => o.assemble ds) ∧
      (o.generateIn s t).1.session = (s.documentAll o.services).session ∧
      loggedErrors (o.generateIn s t).1.log = loggedErrors (s.documentAll o.services).log ∧
      (o.generateIn s t).2 = (o.write t (o.assemble ds)).2 := by
  unfold generateIn
  generalize s.documentAll o.services = outcome at h
  rcases outcome with ⟨answer, s', log⟩
  cases h
  simp only
  rcases o.write t (o.assemble ds) with ⟨e | _, t'⟩
  · exact ⟨rfl, rfl, rfl, rfl⟩
  · refine ⟨rfl, rfl, ?_, rfl⟩
    rw [loggedErrors_append]
    exact List.append_nil _

theorem generateIn_of_error (h : (s.documentAll o.services).result = .error e) (t : FileTree) :
    o.generateIn s t =
      (⟨.error e, (s.documentAll o.services).session, (s.documentAll o.services).log⟩, t) := by
  unfold generateIn
  generalize s.documentAll o.services = outcome at h ⊢
  rcases outcome with ⟨answer, s', log⟩
  cases h
  rfl

theorem isClosed_generateIn (o : Options) (s : Session) (t : FileTree) :
    (o.generateIn s t).1.session.isClosed = s.isClosed := by
  rw [← s.isClosed_documentAll o.services]
  cases h : (s.documentAll o.services).result with
  | ok ds => rw [(generateIn_of_ok h t).2.1]
  | error e => rw [generateIn_of_error h t]

theorem generateIn_of_failure {before after : List Collected}
    (hsplit : s.collectAll o.services = before ++ ⟨x, .error e⟩ :: after)
    (hbefore : OnlySkips before) (he : e.isSkippable = false) (t : FileTree) :
    (o.generateIn s t).1.result = .error e ∧ (o.generateIn s t).2 = t ∧
      loggedErrors (o.generateIn s t).1.log =
        (before.filterMap Collected.failure?).map Session.skipMessage := by
  obtain ⟨hresult, hlog⟩ := Session.documentAll_of_failure hsplit hbefore he
  rw [generateIn_of_error hresult t]
  exact ⟨rfl, rfl, hlog⟩

/-- A run accounts for every service in its document or in its log, and leaves all files as they are
if a service ends it. -/
theorem document_accounts_for_services (o : Options) (s : Session) (t : FileTree) :
    (o.generateIn s t).1.session.isClosed = s.isClosed ∧
    (∀ g, (o.generateIn s t).1.result = .ok g ↔ OnlySkips (s.collectAll o.services) ∧
      g = o.generatedFrom (s.collectAll o.services) ∧ (o.write t g).1 = .ok ()) ∧
    (∀ g, (o.generateIn s t).1.result = .ok g →
      (o.generateIn s t).2.look o.resolvedOutput = .file g.document.toUTF8.toList) ∧
    (OnlySkips (s.collectAll o.services) → loggedErrors (o.generateIn s t).1.log =
      ((s.collectAll o.services).filterMap Collected.failure?).map Session.skipMessage) ∧
    ∀ before x e after, s.collectAll o.services = before ++ ⟨x, .error e⟩ :: after →
      OnlySkips before → e.isSkippable = false →
      (o.generateIn s t).1.result = .error e ∧ (o.generateIn s t).2 = t ∧
        loggedErrors (o.generateIn s t).1.log =
          (before.filterMap Collected.failure?).map Session.skipMessage := by
  rcases onlySkips_or_fails (s.collectAll o.services) with
    hskips | ⟨before, x, e, after, hsplit, hbefore, he⟩
  · obtain ⟨ds, hds, hsections, hcount, hlog⟩ := Session.documentAll_of_onlySkips hskips
    obtain ⟨hresult, -, herrors, htree⟩ := generateIn_of_ok hds t
    rw [assemble_eq hsections hcount] at hresult htree
    have hok (g : Generated) : (o.generateIn s t).1.result = .ok g ↔
        OnlySkips (s.collectAll o.services) ∧ g = o.generatedFrom (s.collectAll o.services) ∧
          (o.write t g).1 = .ok () := by
      rw [hresult, map_eq_ok_iff]
      constructor
      · rintro ⟨_, hwrite, rfl⟩
        exact ⟨hskips, rfl, hwrite⟩
      · rintro ⟨-, rfl, hwrite⟩
        exact ⟨(), hwrite, rfl⟩
    refine ⟨isClosed_generateIn o s t, hok, ?_, ?_, ?_⟩
    · intro g hg
      obtain ⟨-, rfl, hwrite⟩ := (hok g).mp hg
      rw [htree]
      exact look_of_write (Prod.ext hwrite rfl)
    · intro _
      rw [herrors, hlog]
    · intro before x e after hsplit _ he
      exact (not_onlySkips_of_failure hsplit he hskips).elim
  · have hfails := not_onlySkips_of_failure hsplit he
    obtain ⟨hresult, -, -⟩ := generateIn_of_failure hsplit hbefore he t
    refine ⟨isClosed_generateIn o s t, ?_, ?_, ?_, ?_⟩
    · intro g
      rw [hresult]
      exact iff_of_false (by simp) (fun h => hfails h.1)
    · intro g hg
      rw [hresult] at hg
      cases hg
    · intro hskips
      exact (hfails hskips).elim
    · intro before x e after hsplit hbefore he
      exact generateIn_of_failure hsplit hbefore he t

end Options

section Example

open Session

theorem collectEndpoints_of_findRouteType {h : Handle} (hfind : s.findRouteType x = (.ok h, s')) :
    s.collectEndpoints x = (s'.graph.walk {} h "", s') := by
  rw [collectEndpoints, hfind]

/-- Two files. The alias of the second one stands for an intersection with itself. -/
def oneKnotted : Graph where
  doc := ⟨#[
    .mapping [(.text "aliases", .node 1)],
    .mapping [(.text "App", .text "string")],
    .mapping [(.text "aliases", .node 3)],
    .mapping [(.text "App", .node 4)],
    .mapping [(.text "kind", .text "intersection"), (.text "members", .node 5)],
    .list [.node 4]]⟩
  source := "<memory>"
  files := [("a.ts", .node 0), ("b.ts", .node 2)]
  declarations := []

def gone : Service where
  name := "gone"
  entryFile := "c.ts"

def knotted : Service where
  name := "knotted"
  entryFile := "b.ts"

/-- Two services make a document, and a third one leaves no trace of it. -/
theorem knotted_service_leaves_no_document :
    (∃ g, (Options.generateIn { services := [plain, gone] } (ofGraph oneKnotted)
        ⟨["work"], []⟩).1.result = .ok g ∧
      g.document = Options.preamble { services := [plain, gone] } ++
        Markdown.serviceSection "Plain" [] {} ∧
      (Options.generateIn { services := [plain, gone] } (ofGraph oneKnotted)
        ⟨["work"], []⟩).2.look ⟨0, ["DOCS.md"]⟩ = .file g.document.toUTF8.toList ∧
      loggedErrors (Options.generateIn { services := [plain, gone] } (ofGraph oneKnotted)
        ⟨["work"], []⟩).1.log = [skipMessage (.sourceMissing "gone" "c.ts")]) ∧
    (Options.generateIn { services := [plain, gone, knotted] } (ofGraph oneKnotted)
      ⟨["work"], []⟩).1.result = .error (.fault .endless) ∧
    (Options.generateIn { services := [plain, gone, knotted] } (ofGraph oneKnotted)
      ⟨["work"], []⟩).2 = ⟨["work"], []⟩ := by
  have hplain : (ofGraph oneKnotted).collectEndpoints plain =
      (.ok [], ⟨oneKnotted, some ["a.ts"]⟩) := by
    have hempty : oneKnotted.properties (.leaf "string") = .ok [] := by cbv
    rw [collectEndpoints_of_findRouteType (h := .leaf "string") rfl]
    exact Prod.ext (Graph.walk_eq_nil hempty) rfl
  have hgone : (⟨oneKnotted, some ["a.ts"]⟩ : Session).collectEndpoints gone =
      (.error (.sourceMissing "gone" "c.ts"), ⟨oneKnotted, some ["a.ts"]⟩) := rfl
  have hknotted : (⟨oneKnotted, some ["a.ts"]⟩ : Session).collectEndpoints knotted =
      (.error (.fault .endless), ⟨oneKnotted, some ["a.ts", "b.ts"]⟩) := by
    have hendless : oneKnotted.properties (.anonymous 4) = .error .endless := by cbv
    rw [collectEndpoints_of_findRouteType (h := .anonymous 4) rfl]
    exact Prod.ext (Graph.walk_eq_error hendless) rfl
  have htwo : (ofGraph oneKnotted).collectAll [plain, gone] =
      [⟨plain, .ok []⟩, ⟨gone, .error (.sourceMissing "gone" "c.ts")⟩] := by
    simp only [collectAll, hplain, hgone]
  have hthree : (ofGraph oneKnotted).collectAll [plain, gone, knotted] =
      [⟨plain, .ok []⟩, ⟨gone, .error (.sourceMissing "gone" "c.ts")⟩] ++
        ⟨knotted, .error (.fault .endless)⟩ :: [] := by
    simp only [collectAll, hplain, hgone, hknotted]
    rfl
  have hskips : OnlySkips [⟨plain, .ok []⟩, ⟨gone, .error (.sourceMissing "gone" "c.ts")⟩] := by
    simp [OnlySkips, Collected.failure?, Failure.isSkippable]
  obtain ⟨-, hok, hfile, hlog, -⟩ := Options.document_accounts_for_services
    { services := [plain, gone] } (ofGraph oneKnotted) ⟨["work"], []⟩
  obtain ⟨-, -, -, -, hfails⟩ := Options.document_accounts_for_services
    { services := [plain, gone, knotted] } (ofGraph oneKnotted) ⟨["work"], []⟩
  obtain ⟨hresult, htree, -⟩ := hfails _ _ _ _ hthree hskips rfl
  refine ⟨?_, hresult, htree⟩
  simp only [htwo] at hok hlog
  have hwrite (g : Generated) :
      (Options.write { services := [plain, gone] } ⟨["work"], []⟩ g).1 = .ok () :=
    Options.exists_write_eq_ok (by decide) (by decide) (by decide) g
  have hresult := (hok _).mpr ⟨hskips, rfl, hwrite _⟩
  refine ⟨_, hresult, ?_, hfile _ hresult, hlog hskips⟩
  have htitle : plain.title = "Plain" := by decide
  change _ ++ String.join [Markdown.serviceSection plain.title [] {}] = _
  rw [htitle, String.join_cons, String.join_nil, String.append_empty]

end Example

end RouteCatalog
