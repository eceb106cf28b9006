import RouteCatalog.Proofs.LoadedFiles

/-! What a run says about a service. All services of a run load their files into one session, and
the entry file of a service is looked for among all that is loaded there. So a service whose pattern
leaves out its own entry file is documented only if somebody else has asked for that file; on
nothing else does one service depend on the others. -/

namespace RouteCatalog

section Skipping

variable {α β : Type}

/-- The failures of a question end a run; no service is left out for them. -/
def EndsRun (x : Except Failure α) : Prop := ∀ e, x = .error e → e.isSkippable = false

theorem endsRun_ok (a : α) : EndsRun (.ok a : Except Failure α) := fun _ h => by cases h

theorem endsRun_liftFault (x : Except Fault α) : EndsRun (liftFault x) := by
  intro e he
  cases x with
  | ok a => cases he
  | error f =>
    cases he
    rfl

theorem endsRun_toExcept (x : Checked α) : EndsRun x.toExcept := by
  intro e he
  cases x with
  | valid a => cases he
  | invalid fs =>
    cases he
    rfl

theorem EndsRun.bind {x : Except Failure α} {f : α → Except Failure β} (hx : EndsRun x)
    (hf : ∀ a, EndsRun (f a)) : EndsRun (x >>= f) :=
  FailsOnly.bind hx fun a _ => hf a

theorem EndsRun.map {x : Except Failure α} (hx : EndsRun x) (f : α → β) : EndsRun (x.map f) :=
  FailsOnly.map hx f

theorem EndsRun.mapM {f : α → Except Failure β} (hf : ∀ a, EndsRun (f a)) (as : List α) :
    EndsRun (as.mapM f) :=
  FailsOnly.mapM fun a _ => hf a

namespace HandleSystem

variable {H I : Type} (sys : HandleSystem H I)

theorem endsRun_endpoint (descriptor : H) (path : String) (m : Method) :
    EndsRun (sys.endpoint descriptor path m) :=
  (endsRun_liftFault _).bind fun _ => endsRun_toExcept _

theorem endsRun_walkWithin [DecidableEq I] (levels : Nat) (ancestors : List I) (h : H)
    (path : String) : EndsRun (sys.walkWithin levels ancestors h path) := by
  induction levels generalizing ancestors h path with
  | zero => exact endsRun_ok []
  | succ levels ih =>
    unfold walkWithin
    split
    · exact endsRun_ok []
    · refine (endsRun_liftFault _).bind fun ps => ?_
      refine (EndsRun.mapM (fun p => ?_) ps).bind fun found => endsRun_ok _
      unfold endpointsOf
      split
      · split
        · exact endsRun_ok []
        · exact (sys.endsRun_endpoint _ _ _).map _
      · exact ih _ _ _
      · exact endsRun_ok []
      · exact ih _ _ _

end HandleSystem

end Skipping

namespace Graph

variable {g : Graph} {x : Service}

def exported (g : Graph) (x : Service) : Except Failure Handle := do
  match ← liftFault (g.alias? ⟨x.entryKey⟩ x.aliasName) with
  | none => throw (.aliasMissing x.name x.aliasName)
  | some h => return h

theorem walk_eq_nil {n : Normalizer} {h : Handle} {path : String}
    (hempty : g.properties h = .ok []) : g.walk n h path = .ok [] := by
  unfold walk HandleSystem.walk HandleSystem.walkWithin handles
  simp only [hempty]
  simp [Except.map, liftFault, bind, Except.bind, pure, Except.pure]

theorem walk_eq_error {n : Normalizer} {h : Handle} {path : String} {f : Fault}
    (hfault : g.properties h = .error f) : g.walk n h path = .error (.fault f) := by
  unfold walk HandleSystem.walk HandleSystem.walkWithin handles
  simp only [hfault]
  simp [Except.map, liftFault, bind, Except.bind]

/-- What a service adds to a document, by what became of its endpoints. -/
def settled (x : Service) : Except Failure (List Endpoint) → Except Failure (Option Documented)
  | .ok endpoints => .ok (some ⟨x, endpoints⟩)
  | .error e => if e.isSkippable then .ok none else .error e

def documented (g : Graph) (x : Service) : Except Failure (Option Documented) :=
  settled x (g.exported x >>= (g.walk {} · ""))

theorem settled_eq_none_iff {r : Except Failure (List Endpoint)} :
    settled x r = .ok none ↔ ¬ EndsRun r := by
  cases r with
  | ok endpoints => simp [settled, endsRun_ok]
  | error e => simp [settled, EndsRun]

theorem exported_ne_sourceMissing (service file : String) :
    g.exported x ≠ .error (.sourceMissing service file) := by
  unfold exported
  cases g.alias? ⟨x.entryKey⟩ x.aliasName with
  | error f =>
    intro h
    cases h
  | ok a =>
    intro h
    cases a <;> cases h

theorem documented_eq_none_iff :
    g.documented x = .ok none ↔ g.alias? ⟨x.entryKey⟩ x.aliasName = .ok none := by
  rw [documented, settled_eq_none_iff, exported]
  cases g.alias? ⟨x.entryKey⟩ x.aliasName with
  | error f =>
    have hends : EndsRun (.error (.fault f) : Except Failure (List Endpoint)) :=
      endsRun_liftFault (.error f)
    exact iff_of_false (not_not_intro hends) (by simp)
  | ok a =>
    cases a with
    | none => exact iff_of_true (fun hends => by cases hends _ rfl) rfl
    | some h =>
      have hends : EndsRun (g.walk {} h "") := (g.handles {}).endsRun_walkWithin _ _ _ _
      exact iff_of_false (not_not_intro hends) (by simp)

end Graph

namespace Session

variable {s : Session} {x : Service}

/-- An open session over a graph, whatever has been asked of it. -/
def IsOpenOver (g : Graph) (s : Session) : Prop :=
  ∃ calls, (ofGraph g).afterAll calls = s ∧ s.isClosed = false

/-- The entry file of the service is loaded, or will be with the files of the service itself. -/
def Finds (s : Session) (x : Service) : Prop :=
  s.hasLoaded x.entryKey ∨ s.graph.hasFile x.entryKey ∧ x.asksFor x.entryKey

/-- The file is loaded, or one of the services asks for it. -/
def KnowsAfter (s : Session) (xs : List Service) (key : String) : Prop :=
  s.hasLoaded key ∨ ∃ y ∈ xs, y.asksFor key

/-- What a run says about a service after it has documented others. -/
def foundAfter (s : Session) (xs : List Service) (x : Service) :
    Except Failure (Option Documented) :=
  ((s.documentAll xs).session.documentService x).result

theorem result_documentService (s : Session) (x : Service) : (s.documentService x).result =
    Graph.settled x ((s.findRouteType x).1 >>= (s.graph.walk {} · "")) := by
  have hgraph := (s.findRouteType_keeps x).1
  unfold documentService collectEndpoints
  rw [← hgraph]
  rcases s.findRouteType x with ⟨e | h, s'⟩
  · simp only [bind, Except.bind, Graph.settled]
    split <;> rfl
  · simp only [bind, Except.bind]
    cases s'.graph.walk {} h "" with
    | ok endpoints => rfl
    | error e =>
      simp only [Graph.settled]
      split <;> rfl

theorem session_documentService (s : Session) (x : Service) :
    (s.documentService x).session = (s.addSources x).2 := by
  rw [← session_findRouteType]
  unfold documentService collectEndpoints
  rcases s.findRouteType x with ⟨e | h, s'⟩
  · dsimp only
    split <;> rfl
  · dsimp only
    cases s'.graph.walk {} h "" with
    | ok endpoints => rfl
    | error e =>
      dsimp only
      split <;> rfl

theorem result_documentAll_cons {xs : List Service} {ds : List Documented} :
    (s.documentAll (x :: xs)).result = .ok ds ↔ ∃ own after,
      (s.documentService x).result = .ok own ∧
        ((s.documentService x).session.documentAll xs).result = .ok after ∧
        ds = own.toList ++ after := by
  rw [documentAll]
  rcases s.documentService x with ⟨e | own, s', log⟩
  · simp
  · dsimp only
    rw [map_eq_ok_iff]
    simp [eq_comm]

theorem session_documentAll_cons {xs : List Service} {own : Option Documented}
    (h : (s.documentService x).result = .ok own) :
    (s.documentAll (x :: xs)).session = ((s.documentService x).session.documentAll xs).session := by
  rw [documentAll]
  generalize s.documentService x = found at h ⊢
  rcases found with ⟨r, s', log⟩
  cases h
  rfl

theorem result_documentAll_append {xs ys : List Service} {ds : List Documented} :
    (s.documentAll (xs ++ ys)).result = .ok ds ↔ ∃ before after,
      (s.documentAll xs).result = .ok before ∧
        ((s.documentAll xs).session.documentAll ys).result = .ok after ∧
        ds = before ++ after := by
  induction xs generalizing s ds with
  | nil => simp [documentAll]
  | cons x xs ih =>
    rw [List.cons_append, result_documentAll_cons]
    constructor
    · rintro ⟨own, rest, hown, hrest, rfl⟩
      obtain ⟨before, after, hbefore, hafter, rfl⟩ := ih.mp hrest
      rw [← session_documentAll_cons hown] at hafter
      exact ⟨_, after, result_documentAll_cons.mpr ⟨own, before, hown, hbefore, rfl⟩, hafter,
        by rw [List.append_assoc]⟩
    · rintro ⟨before, after, hbefore, hafter, rfl⟩
      obtain ⟨own, rest, hown, hrest, rfl⟩ := result_documentAll_cons.mp hbefore
      rw [session_documentAll_cons hown] at hafter
      exact ⟨own, rest ++ after, hown, ih.mpr ⟨rest, after, hrest, hafter, rfl⟩,
        by rw [List.append_assoc]⟩

section Outcome

variable (hopen : s.isClosed = false)
include hopen

theorem sourceFile_of_open (x : Service) : s.sourceFile x.entryFile =
    .ok (if s.hasLoaded x.entryKey then some ⟨x.entryKey⟩ else none) := by
  obtain ⟨loaded, hloaded⟩ := exists_loaded hopen
  simp only [sourceFile, hloaded, hasLoaded, Service.entryKey, Option.any_some]

theorem routeTypeOf_of_open (x : Service) :
    s.routeTypeOf x = if s.hasLoaded x.entryKey then s.graph.exported x
      else .error (.sourceMissing x.name x.entryFile) := by
  unfold routeTypeOf
  rw [sourceFile_of_open hopen]
  cases s.hasLoaded x.entryKey with
  | true => rfl
  | false => rfl

theorem findRouteType_of_open (x : Service) :
    (s.findRouteType x).1 = (s.addSources x).2.routeTypeOf x := by
  have hok := (addSources_of_open hopen x).1
  unfold findRouteType
  split
  · rename_i h
    rw [h] at hok
    cases hok
  · rename_i h
    rw [h]

theorem findRouteType_of_finds (h : s.Finds x) : (s.findRouteType x).1 = s.graph.exported x := by
  obtain ⟨hgraph, hclosed⟩ := s.addSources_keeps x
  have hloaded : (s.addSources x).2.hasLoaded x.entryKey :=
    ((addSources_of_open hopen x).2 x.entryKey).mpr h
  rw [findRouteType_of_open hopen, routeTypeOf_of_open (hclosed.trans hopen), if_pos hloaded,
    hgraph]

theorem findRouteType_of_not_finds (h : ¬ s.Finds x) :
    (s.findRouteType x).1 = .error (.sourceMissing x.name x.entryFile) := by
  obtain ⟨-, hclosed⟩ := s.addSources_keeps x
  have hloaded : ¬ (s.addSources x).2.hasLoaded x.entryKey :=
    fun hkey => h (((addSources_of_open hopen x).2 x.entryKey).mp hkey)
  rw [findRouteType_of_open hopen, routeTypeOf_of_open (hclosed.trans hopen), if_neg hloaded]

theorem result_documentService_of_finds (h : s.Finds x) :
    (s.documentService x).result = s.graph.documented x := by
  rw [result_documentService, findRouteType_of_finds hopen h, Graph.documented]

theorem result_documentService_of_not_finds (h : ¬ s.Finds x) :
    (s.documentService x).result = .ok none := by
  rw [result_documentService, findRouteType_of_not_finds hopen h]
  rfl

/-- What is loaded after documenting services, if none of them ends the run. -/
theorem documentAll_of_open {xs : List Service} {ds : List Documented}
    (h : (s.documentAll xs).result = .ok ds) :
    (s.documentAll xs).session.graph = s.graph ∧
      (s.documentAll xs).session.isClosed = false ∧
      ∀ key, (s.documentAll xs).session.hasLoaded key ↔
        s.hasLoaded key ∨ s.graph.hasFile key ∧ ∃ y ∈ xs, y.asksFor key := by
  induction xs generalizing s ds with
  | nil => exact ⟨rfl, hopen, by simp [documentAll]⟩
  | cons x xs ih =>
    -- The first service only loads its own files; the rest starts from that session.
    obtain ⟨own, after, hown, hafter, -⟩ := result_documentAll_cons.mp h
    obtain ⟨hgraph, hclosed⟩ := s.addSources_keeps x
    rw [session_documentService] at hafter
    obtain ⟨hgraph', hopen', hkeys⟩ := ih (hclosed.trans hopen) hafter
    rw [session_documentAll_cons hown, session_documentService]
    refine ⟨hgraph'.trans hgraph, hopen', fun key => ?_⟩
    rw [hkeys, (addSources_of_open hopen x).2, hgraph, List.exists_mem_cons_iff, and_or_left,
      or_assoc]

end Outcome

theorem session_documentAll {xs : List Service} {ds : List Documented}
    (h : (s.documentAll xs).result = .ok ds) :
    (s.documentAll xs).session = s.afterAll (xs.map .findRouteType) := by
  induction xs generalizing s ds with
  | nil => rfl
  | cons x xs ih =>
    obtain ⟨own, after, hown, hafter, -⟩ := result_documentAll_cons.mp h
    rw [session_documentAll_cons hown, ih hafter, session_documentService,
      ← session_findRouteType]
    rfl

namespace IsOpenOver

variable {g : Graph} (hs : s.IsOpenOver g)
include hs

theorem isClosed_eq : s.isClosed = false := by
  obtain ⟨-, -, hopen⟩ := hs
  exact hopen

theorem graph_eq : s.graph = g := by
  obtain ⟨calls, rfl, -⟩ := hs
  rw [graph_afterAll]
  rfl

theorem hasFile_of_hasLoaded {key : String} (h : s.hasLoaded key) : g.hasFile key := by
  obtain ⟨calls, rfl, -⟩ := hs
  rcases hasFile_of_hasLoaded_afterAll h with hkey | hfile
  · cases hkey
  · exact hfile

theorem documentAll {xs : List Service} {ds : List Documented}
    (h : (s.documentAll xs).result = .ok ds) : (s.documentAll xs).session.IsOpenOver g := by
  have hopen := (documentAll_of_open hs.isClosed_eq h).2.1
  obtain ⟨calls, rfl, -⟩ := hs
  refine ⟨calls ++ xs.map .findRouteType, ?_, hopen⟩
  rw [session_documentAll h]
  exact List.foldl_append

theorem finds_iff : s.Finds x ↔
    g.hasFile x.entryKey ∧ (x.asksFor x.entryKey ∨ s.hasLoaded x.entryKey) := by
  unfold Finds
  rw [hs.graph_eq]
  constructor
  · rintro (hloaded | ⟨hfile, hasks⟩)
    · exact ⟨hs.hasFile_of_hasLoaded hloaded, .inr hloaded⟩
    · exact ⟨hfile, .inl hasks⟩
  · rintro ⟨hfile, hasks | hloaded⟩
    · exact .inr ⟨hfile, hasks⟩
    · exact .inl hloaded

/-- After other services the entry file is found if one of them has asked for it. -/
theorem finds_documentAll_iff {xs : List Service} {ds : List Documented}
    (h : (s.documentAll xs).result = .ok ds) : (s.documentAll xs).session.Finds x ↔
      g.hasFile x.entryKey ∧ (x.asksFor x.entryKey ∨ s.KnowsAfter xs x.entryKey) := by
  obtain ⟨-, -, hkeys⟩ := documentAll_of_open hs.isClosed_eq h
  rw [(hs.documentAll h).finds_iff, hkeys, hs.graph_eq]
  unfold KnowsAfter
  tauto

theorem foundAfter_of_finds {xs : List Service} {ds : List Documented}
    (h : (s.documentAll xs).result = .ok ds) (hfinds : (s.documentAll xs).session.Finds x) :
    s.foundAfter xs x = g.documented x := by
  have hlater := hs.documentAll h
  rw [foundAfter, result_documentService_of_finds hlater.isClosed_eq hfinds, hlater.graph_eq]

theorem foundAfter_of_not_finds {xs : List Service} {ds : List Documented}
    (h : (s.documentAll xs).result = .ok ds) (hfinds : ¬ (s.documentAll xs).session.Finds x) :
    s.foundAfter xs x = .ok none :=
  result_documentService_of_not_finds (hs.documentAll h).isClosed_eq hfinds

end IsOpenOver

theorem choice_eq_iff {α : Type} {P Q : Prop} {a b v w : α} (hv : P → v = a) (hv' : ¬ P → v = b)
    (hw : Q → w = a) (hw' : ¬ Q → w = b) : v = w ↔ (a ≠ b → (P ↔ Q)) := by
  by_cases hP : P <;> by_cases hQ : Q
  · simp [hv hP, hw hQ, hP, hQ]
  · simp [hv hP, hw' hQ, hP, hQ]
  · simp [hv' hP, hw hQ, hP, hQ, eq_comm]
  · simp [hv' hP, hw' hQ, hP, hQ]

theorem finds_agree_iff {hasFile asks known₁ known₂ : Prop} :
    (hasFile ∧ (asks ∨ known₁) ↔ hasFile ∧ (asks ∨ known₂)) ↔
      (hasFile → ¬ asks → (known₁ ↔ known₂)) := by
  tauto

end Session

namespace Documented

def sections (ds : List Documented) : String := String.join (ds.map markdown)

theorem sections_append (ds ds' : List Documented) :
    sections (ds ++ ds') = sections ds ++ sections ds' := by
  rw [sections, List.map_append, String.join_append]
  rfl

end Documented

namespace Options

theorem generateIn_eq_ok {o : Options} {s : Session} {t : FileTree} {r : Generated}
    (h : (o.generateIn s t).1.result = .ok r) :
    ∃ ds, (s.documentAll o.services).result = .ok ds ∧ r = o.assemble ds := by
  unfold generateIn at h
  split at h
  · cases h
  · rename_i ds s' log hds
    refine ⟨ds, by rw [hds], ?_⟩
    dsimp only at h
    split at h
    · cases h
      rfl
    · cases h

end Options

namespace Session

variable {g : Graph} {x : Service} {s₁ s₂ : Session}

/-- Two sessions agree on a service unless its pattern leaves out its own entry file and only one of
them has loaded that file. In runs the services that come before count as requests for it, and the
section of a document shows what its run has found. -/
theorem service_outcome_depends_on_entry_file (h₁ : s₁.IsOpenOver g) (h₂ : s₂.IsOpenOver g) :
    ((s₁.findRouteType x).1 = (s₂.findRouteType x).1 ↔
      (g.hasFile x.entryKey → x.asksFor x.entryKey = false →
        (s₁.hasLoaded x.entryKey ↔ s₂.hasLoaded x.entryKey))) ∧
    (∀ {before₁ before₂ : List Service} {ds₁ ds₂ : List Documented},
      (s₁.documentAll before₁).result = .ok ds₁ → (s₂.documentAll before₂).result = .ok ds₂ →
      (s₁.foundAfter before₁ x = s₂.foundAfter before₂ x ↔
        (g.alias? ⟨x.entryKey⟩ x.aliasName ≠ .ok none →
          g.hasFile x.entryKey → x.asksFor x.entryKey = false →
          (s₁.KnowsAfter before₁ x.entryKey ↔ s₂.KnowsAfter before₂ x.entryKey)))) ∧
    ∀ {o : Options} {t : FileTree} {before after : List Service} {r : Generated},
      o.services = before ++ x :: after → (o.generateIn s₁ t).1.result = .ok r →
      ∃ ds own ds', (s₁.documentAll before).result = .ok ds ∧ s₁.foundAfter before x = .ok own ∧
        ((s₁.documentAll (before ++ [x])).session.documentAll after).result = .ok ds' ∧
        r.document = o.preamble ++ Documented.sections ds ++ Documented.sections own.toList ++
          Documented.sections ds' := by
  refine ⟨?_, ?_, ?_⟩
  · have hfinds₁ : s₁.Finds x → (s₁.findRouteType x).1 = g.exported x := by
      rw [← h₁.graph_eq]
      exact findRouteType_of_finds h₁.isClosed_eq
    have hfinds₂ : s₂.Finds x → (s₂.findRouteType x).1 = g.exported x := by
      rw [← h₂.graph_eq]
      exact findRouteType_of_finds h₂.isClosed_eq
    rw [choice_eq_iff hfinds₁ (findRouteType_of_not_finds h₁.isClosed_eq) hfinds₂
      (findRouteType_of_not_finds h₂.isClosed_eq), h₁.finds_iff, h₂.finds_iff,
      finds_agree_iff, ← Bool.not_eq_true]
    exact forall_prop_of_true (Graph.exported_ne_sourceMissing _ _)
  -- Here the two answers are the same if the alias is missing.
  · intro before₁ before₂ ds₁ ds₂ hds₁ hds₂
    rw [choice_eq_iff (h₁.foundAfter_of_finds hds₁) (h₁.foundAfter_of_not_finds hds₁)
      (h₂.foundAfter_of_finds hds₂) (h₂.foundAfter_of_not_finds hds₂),
      h₁.finds_documentAll_iff hds₁, h₂.finds_documentAll_iff hds₂, ← Bool.not_eq_true]
    rw [Ne, Graph.documented_eq_none_iff]
    exact imp_congr_right fun _ => finds_agree_iff
  · intro o t before after r hservices hr
    obtain ⟨all, hall, rfl⟩ := Options.generateIn_eq_ok hr
    rw [hservices, List.append_cons] at hall
    obtain ⟨upTo, ds', hupTo, hds', rfl⟩ := result_documentAll_append.mp hall
    obtain ⟨ds, last, hds, hlast, rfl⟩ := result_documentAll_append.mp hupTo
    obtain ⟨own, none, hown, hnone, rfl⟩ := result_documentAll_cons.mp hlast
    cases hnone
    refine ⟨ds, own, ds', hds, hown, hds', ?_⟩
    change o.preamble ++ Documented.sections _ = _
    rw [Documented.sections_append, Documented.sections_append, List.append_nil,
      String.append_assoc, String.append_assoc, String.append_assoc]

def twoFiles : Graph where
  doc := ⟨#[
    .mapping [(.text "aliases", .node 1)],
    .mapping [(.text "App", .text "string")],
    .mapping []]⟩
  source := "<memory>"
  files := [("a.ts", .node 0), ("b.ts", .node 2)]
  declarations := []

/-- A service whose pattern leaves out its own entry file. -/
def narrow : Service where
  name := "narrow"
  entryFile := "a.ts"
  sourceGlob := some "b*"

def plain : Service where
  name := "plain"
  entryFile := "a.ts"

theorem narrow_found_after_plain :
    (ofGraph twoFiles).IsOpenOver twoFiles ∧
      ((ofGraph twoFiles).findRouteType narrow).1 ≠
        (((ofGraph twoFiles).after (.findRouteType plain)).findRouteType narrow).1 ∧
      (ofGraph twoFiles).foundAfter [] narrow ≠ (ofGraph twoFiles).foundAfter [plain] narrow := by
  have hfresh : (ofGraph twoFiles).IsOpenOver twoFiles := ⟨[], rfl, rfl⟩
  have hlater : ((ofGraph twoFiles).after (.findRouteType plain)).IsOpenOver twoFiles :=
    ⟨[.findRouteType plain], rfl, by cbv⟩
  have hfile : twoFiles.hasFile narrow.entryKey := by cbv
  have hasks : narrow.asksFor narrow.entryKey = false := by cbv
  have hloaded : (ofGraph twoFiles).hasLoaded narrow.entryKey = false := by cbv
  obtain ⟨hfind, -, -⟩ := service_outcome_depends_on_entry_file (x := narrow) hfresh hlater
  obtain ⟨-, hfound, -⟩ := service_outcome_depends_on_entry_file (x := narrow) hfresh hfresh
  refine ⟨hfresh, fun heq => ?_, fun heq => ?_⟩
  · have hlater : ((ofGraph twoFiles).after (.findRouteType plain)).hasLoaded
        narrow.entryKey := by cbv
    have hnot := (hfind.mp heq hfile hasks).mpr hlater
    rw [hloaded] at hnot
    cases hnot
  · have halias : twoFiles.alias? ⟨narrow.entryKey⟩ narrow.aliasName =
        .ok (some (.leaf "string")) := by cbv
    have hplain : ((ofGraph twoFiles).documentAll [plain]).result = .ok [⟨plain, []⟩] := by
      refine result_documentAll_cons.mpr ⟨some ⟨plain, []⟩, [], ?_, rfl, rfl⟩
      have hfound : ((ofGraph twoFiles).findRouteType plain).1 = .ok (.leaf "string") := rfl
      have hempty : twoFiles.properties (.leaf "string") = .ok [] := by cbv
      rw [result_documentService, hfound]
      change Graph.settled plain (twoFiles.walk {} (.leaf "string") "") = _
      rw [Graph.walk_eq_nil hempty]
      rfl
    have hknown : (ofGraph twoFiles).KnowsAfter [plain] narrow.entryKey :=
      .inr ⟨plain, List.mem_singleton_self _, by cbv⟩
    rcases ((hfound rfl hplain).mp heq (by simp [halias]) hfile hasks).mpr hknown with
      hnot | ⟨_, hnot, -⟩
    · rw [hloaded] at hnot
      cases hnot
    · cases hnot

end Session

end RouteCatalog
