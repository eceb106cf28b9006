import RouteCatalog.Markdown.Snippet
import RouteCatalog.Proofs.PathParams

/-! The variables of a snippet. Its call uses the parameters if the path has one, and the body and
the query if the record has them; a variable is declared above the call if the record has the part
of its name. Only for the parameters these are not the same. -/

namespace RouteCatalog

namespace Markdown

open Text

variable {e : Endpoint} {sdk : Sdk}

inductive Variable where
  | params
  | body
  | query
  deriving DecidableEq, Repr

def Variable.name : Variable → String
  | params => "params"
  | body => "body"
  | query => "query"

def Variable.part (e : Endpoint) : Variable → Option String
  | params => e.params
  | body => e.body
  | query => e.query

/-- The call looks up parameters in its chain, and is given the body and the query as arguments. -/
def Uses (e : Endpoint) : Variable → Prop
  | .params => Route.lookedUpNames e.path ≠ []
  | v => v.name.toList <:+: (callArguments e).toList

def IsDeclared (e : Endpoint) (sdk : Sdk) (v : Variable) : Prop :=
  ∃ above, snippet e sdk = above ++ callLine e ++ "\n" ++ fence ++ "\n" ∧
    ∃ line ∈ pieces '\n' above.toList, ("const " ++ v.name ++ " = ").toList <+: line

def blocks (e : Endpoint) (sdk : Sdk) : List String :=
  [fence ++ "typescript", sdk.importStatement ++ "\n",
    "const client = " ++ sdk.clientName ++ "(" ++ sdk.clientOptions ++ ");\n"] ++ declarations e

def above (e : Endpoint) (sdk : Sdk) : String := String.join ((blocks e sdk).map (· ++ "\n"))

section Lines

theorem intercalate_append_pair (blocks : List String) (line last : String) :
    "\n".intercalate (blocks ++ [line, last]) =
      String.join (blocks.map (· ++ "\n")) ++ line ++ "\n" ++ last := by
  induction blocks with
  | nil => simp [String.intercalate_cons_cons, String.intercalate_singleton]
  | cons block blocks ih =>
    rw [List.cons_append, String.intercalate_cons_of_ne_nil (by simp), ih, List.map_cons,
      String.join_cons]
    simp only [String.append_assoc]

theorem snippet_eq (e : Endpoint) (sdk : Sdk) :
    snippet e sdk = above e sdk ++ callLine e ++ "\n" ++ fence ++ "\n" := by
  have hlines : [fence ++ "typescript"] ++ snippetLines e sdk ++ [fence ++ "\n"] =
      blocks e sdk ++ [callLine e, fence ++ "\n"] := by
    simp [snippetLines, blocks]
  rw [snippet, hlines, intercalate_append_pair, ← String.append_assoc]
  rfl

/-- The lines of several blocks are those of each, and an empty one at the end. -/
theorem pieces_join (blocks : List String) :
    pieces '\n' (String.join (blocks.map (· ++ "\n"))).toList =
      blocks.flatMap (pieces '\n' ·.toList) ++ [[]] := by
  induction blocks with
  | nil => rfl
  | cons block blocks ih =>
    have hfirst : (String.join ((block :: blocks).map (· ++ "\n"))).toList =
        block.toList ++ '\n' :: (String.join (blocks.map (· ++ "\n"))).toList := by
      rw [List.map_cons, String.join_cons, String.toList_append, String.toList_append,
        List.append_assoc]
      rfl
    rw [hfirst, pieces_append, ih, List.flatMap_cons, List.append_assoc]

theorem isDeclared_iff {v : Variable} : IsDeclared e sdk v ↔
    ∃ block ∈ blocks e sdk, ∃ line ∈ pieces '\n' block.toList,
      ("const " ++ v.name ++ " = ").toList <+: line := by
  have hword : ¬ ("const " ++ v.name ++ " = ").toList <+: [] := by
    cases v <;> decide
  have hlines : IsDeclared e sdk v ↔ ∃ line ∈ pieces '\n' (above e sdk).toList,
      ("const " ++ v.name ++ " = ").toList <+: line := by
    constructor
    · rintro ⟨above', hsnippet, hline⟩
      -- The call and what follows it are fixed, so only one text can stand above.
      have heq : above' = above e sdk := by
        rw [snippet_eq] at hsnippet
        simpa [String.append_assoc] using hsnippet.symm
      exact heq ▸ hline
    · intro hline
      exact ⟨above e sdk, snippet_eq e sdk, hline⟩
  rw [hlines, above, pieces_join]
  constructor
  · rintro ⟨line, hmem, hprefix⟩
    rcases List.mem_append.mp hmem with hmem | hmem
    · obtain ⟨block, hblock, hmem⟩ := List.mem_flatMap.mp hmem
      exact ⟨block, hblock, line, hmem, hprefix⟩
    · rw [List.mem_singleton.mp hmem] at hprefix
      exact (hword hprefix).elim
  · rintro ⟨block, hblock, line, hmem, hprefix⟩
    exact ⟨line, List.mem_append_left _ (List.mem_flatMap.mpr ⟨block, hblock, hmem⟩), hprefix⟩

end Lines

section Parts

theorem mem_blocks_iff {block : String} : block ∈ blocks e sdk ↔
    (block = fence ++ "typescript" ∨ block = sdk.importStatement ++ "\n" ∨
      block = "const client = " ++ sdk.clientName ++ "(" ++ sdk.clientOptions ++ ");\n") ∨
    (isPresent e.params = true ∧
      block = "const params = " ++ exampleParams (e.params.getD "") ++ ";\n") ∨
    (isPresent e.body = true ∧ block =
      "// Define your request body\nconst body = \x7b\x7d; // Replace with actual body data\n") ∨
    (isPresent e.query = true ∧ block = "// Define your query parameters\n" ++
      "const query = \x7b\x7d; // Replace with actual query data\n") := by
  unfold blocks declarations
  cases isPresent e.params <;> cases isPresent e.body <;> cases isPresent e.query <;>
    simp [or_assoc]

theorem isDeclared_of_isPresent {v : Variable} (h : isPresent (v.part e) = true) :
    IsDeclared e sdk v := by
  rw [isDeclared_iff]
  cases v with
  | params =>
    refine ⟨_, mem_blocks_iff.mpr (.inr (.inl ⟨h, rfl⟩)), ?_⟩
    have hblock : ("const params = " ++ exampleParams (e.params.getD "") ++ ";\n").toList =
        "const params = ".toList ++ (exampleParams (e.params.getD "") ++ ";\n").toList := by
      rw [String.append_assoc, String.toList_append]
    have hword : ∀ c ∈ "const params = ".toList, (c != '\n') = true := by simp
    rw [hblock, pieces_eq_cons, List.takeWhile_append_of_pos hword]
    exact ⟨_, List.mem_cons_self, List.prefix_append _ _⟩
  | body =>
    refine ⟨_, mem_blocks_iff.mpr (.inr (.inr (.inl ⟨h, rfl⟩))), ?_⟩
    decide
  | query =>
    refine ⟨_, mem_blocks_iff.mpr (.inr (.inr (.inr ⟨h, rfl⟩))), ?_⟩
    decide

/-- With the default library no other line declares the parameters. -/
theorem isPresent_of_isDeclared_params (h : IsDeclared e {} .params) :
    isPresent e.params = true := by
  obtain ⟨block, hblock, hline⟩ := isDeclared_iff.mp h
  rcases mem_blocks_iff.mp hblock with (rfl | rfl | rfl) | ⟨hpresent, -⟩ | ⟨-, rfl⟩ | ⟨-, rfl⟩
  · exact absurd hline (by decide)
  · exact absurd hline (by decide)
  · exact absurd hline (by decide)
  · exact hpresent
  · exact absurd hline (by decide)
  · exact absurd hline (by decide)

theorem isPresent_of_uses {v : Variable} (hv : v ≠ .params) (h : Uses e v) :
    isPresent (v.part e) = true := by
  by_contra hpart
  have habsent := Bool.eq_false_iff.mpr hpart
  cases v with
  | params => exact hv rfl
  | body =>
    change "body".toList <:+: (callArguments e).toList at h
    rw [callArguments, show isPresent e.body = false from habsent] at h
    cases hquery : isPresent e.query <;> rw [hquery] at h <;> exact absurd h (by decide)
  | query =>
    change "query".toList <:+: (callArguments e).toList at h
    rw [callArguments, show isPresent e.query = false from habsent] at h
    cases hbody : isPresent e.body <;> rw [hbody] at h <;> exact absurd h (by decide)

/-- Snippets declare all that they use exactly if the path has no parameter or the record has
them. -/
theorem uses_declared_iff : (∀ sdk v, Uses e v → IsDeclared e sdk v) ↔
    Route.lookedUpNames e.path = [] ∨ isPresent e.params = true := by
  constructor
  · intro hclosed
    by_cases hnone : Route.lookedUpNames e.path = []
    · exact .inl hnone
    · exact .inr (isPresent_of_isDeclared_params (hclosed {} .params hnone))
  · intro hpresent sdk v huses
    apply isDeclared_of_isPresent
    by_cases hv : v = .params
    · subst hv
      exact hpresent.resolve_left huses
    · exact isPresent_of_uses hv huses

theorem isPresent_recordedParams_iff {stated path : String} :
    isPresent (Route.recordedParams stated path) = true ↔
      (Route.repairedParams? stated path).getD stated ≠ "\x7b\x7d" ∧
        (Route.repairedParams? stated path).getD stated ≠ "" := by
  unfold Route.recordedParams isPresent
  dsimp only
  split_ifs with hdefault
  · simp [hdefault]
  · simp [hdefault]

end Parts

section Records

open Route

variable {H I : Type} {sys : HandleSystem H I} [DecidableEq I] {root : H} {start : String}
  {records : List Endpoint}

/-- In the snippet of every record the body and the query are declared above the call if it uses
them, whatever the client library. The parameters are used if the path has one, and declared if the
descriptor states a type for them that, after its repair, is neither that of an empty object nor
empty. -/
theorem snippet_is_closed_iff (hwalk : sys.walk root start = .ok records) (he : e ∈ records) :
    ∃ s stated, IsSite sys root start s ∧ recordOf sys start s = .ok e ∧
      StatesParams sys s.descriptor stated ∧ e.params = recordedParams stated e.path ∧
      (∀ sdk v, v ≠ .params → Uses e v → IsDeclared e sdk v) ∧
      (Uses e .params ↔
        ∃ segment ∈ segments start ++ s.names.flatMap segments, segment.head? = some ':') ∧
      ((∀ sdk v, Uses e v → IsDeclared e sdk v) ↔
        (∀ segment ∈ segments start ++ s.names.flatMap segments, segment.head? ≠ some ':') ∨
          (repairedParams? stated e.path).getD stated ≠ "\x7b\x7d" ∧
            (repairedParams? stated e.path).getD stated ≠ "") := by
  obtain ⟨s, hs, hrecord⟩ := exists_site_of_mem_walk hwalk he
  obtain ⟨stated, hstated, hparams⟩ := HandleSystem.params_endpoint hrecord
  have hpath : e.path = s.path start := (HandleSystem.of_endpoint_eq_ok hrecord).1
  rw [← hpath] at hparams
  have hnone : lookedUpNames e.path = [] ↔
      ∀ segment ∈ segments start ++ s.names.flatMap segments, segment.head? ≠ some ':' := by
    rw [hpath, Site.path]
    exact lookedUpNames_pathAlong_eq_nil_iff start s.names
  refine ⟨s, stated, hs, hrecord, hstated, hparams, ?_, ?_, ?_⟩
  · intro sdk v hv huses
    exact isDeclared_of_isPresent (isPresent_of_uses hv huses)
  · change lookedUpNames e.path ≠ [] ↔ _
    rw [ne_eq, hnone]
    simp only [ne_eq, not_forall, not_not, exists_prop]
  · rw [uses_declared_iff, hnone, hparams, isPresent_recordedParams_iff]

end Records

end Markdown

namespace Graph

open Route Markdown

/-- Users and a parameter below them, with a method that states no parameters. -/
def userRoutes : Graph where
  doc := ⟨#[
    .mapping [(.text "kind", .text "object"), (.text "properties", .node 1)],
    .mapping [(.text "users", .node 2)],
    .mapping [(.text "kind", .text "object"), (.text "properties", .node 3)],
    .mapping [(.text ":id", .node 4)],
    .mapping [(.text "kind", .text "object"), (.text "properties", .node 5)],
    .mapping [(.text "get", .node 6)],
    .mapping [(.text "kind", .text "object")]]⟩
  source := "<memory>"
  files := []
  declarations := []

theorem walk_userRoutes : userRoutes.walk {} (.anonymous 0) "" =
    .ok [⟨"/users/:id", .get, none, none, none, "\x7b\x7d"⟩] := by
  have h0 : (userRoutes.handles {}).properties (.anonymous 0) = .ok [("users", .anonymous 2)] :=
    properties_handles_of_object [⟨"users", .anonymous 2, false⟩] (by decide) rfl
  have h2 : (userRoutes.handles {}).properties (.anonymous 2) = .ok [(":id", .anonymous 4)] :=
    properties_handles_of_object [⟨":id", .anonymous 4, false⟩] (by decide) rfl
  have h4 : (userRoutes.handles {}).properties (.anonymous 4) = .ok [("get", .anonymous 6)] :=
    properties_handles_of_object [⟨"get", .anonymous 6, false⟩] (by decide) rfl
  have h6 : (userRoutes.handles {}).properties (.anonymous 6) = .ok [] :=
    properties_handles_of_object [] (by decide) rfl
  have husers : role "users" = .segment := by decide
  have hid : role ":id" = .segment := by decide
  have hget : role "get" = .endpoint .get := by decide
  unfold Graph.walk HandleSystem.walk
  rw [walkWithin_of_properties rfl h0]
  simp only [List.mapM_cons, List.mapM_nil, HandleSystem.endpointsOf, husers]
  rw [maxAncestors, walkWithin_of_properties rfl h2]
  simp only [List.mapM_cons, List.mapM_nil, HandleSystem.endpointsOf, hid]
  rw [walkWithin_of_properties rfl h4]
  simp only [List.mapM_cons, List.mapM_nil, HandleSystem.endpointsOf, hget,
    HandleSystem.endpoint, h6]
  rfl

/-- The call looks up the user's parameter, and nothing declares the parameters. -/
theorem user_id_is_not_declared :
    ∃ records, userRoutes.walk {} (.anonymous 0) "" = .ok records ∧ ∃ e ∈ records,
      callLine e = "const response = await client.users[params.id].get();" ∧
        ¬ ∀ sdk v, Uses e v → IsDeclared e sdk v := by
  refine ⟨_, walk_userRoutes, _, List.mem_cons_self, by decide, ?_⟩
  obtain ⟨s, stated, -, -, -, hparams, -, huses, hclosed⟩ :=
    snippet_is_closed_iff (show (userRoutes.handles {}).walk _ _ = _ from walk_userRoutes)
      List.mem_cons_self
  intro hall
  rcases hclosed.mp hall with hnone | ⟨hstated, -⟩
  · obtain ⟨segment, hmem, hcolon⟩ := huses.mp (show lookedUpNames "/users/:id" ≠ [] by decide)
    exact hnone segment hmem hcolon
  · unfold recordedParams at hparams
    simp [hstated] at hparams

end Graph

end RouteCatalog
