import RouteCatalog.Proofs.Expression
import RouteCatalog.Proofs.PathText
import RouteCatalog.Proofs.RecordOrigin
import RouteCatalog.Route.Client

/-! Path parameters and their two readers. The parameter type of a path lists the names that a
search for a slash and a colon finds; the client chain looks up the names of all segments with a
colon in front. They differ only in a parameter that begins the whole path and in a colon without a
name. -/

namespace RouteCatalog

namespace Text

variable {separator : Char}

theorem pieces_append (cs ds : List Char) :
    pieces separator (cs ++ separator :: ds) = pieces separator cs ++ pieces separator ds := by
  simp only [pieces_eq_splitOn, List.splitOn_eq_splitOnP]
  exact List.splitOnP_append_cons cs ds (beq_self_eq_true separator)

theorem pieces_cons_self (cs : List Char) :
    pieces separator (separator :: cs) = [] :: pieces separator cs := by
  simp [pieces]

/-- The first piece ends at the first separator, and the others come from there on. -/
theorem pieces_eq_cons (cs : List Char) : pieces separator cs =
    cs.takeWhile (· != separator) :: (pieces separator (cs.dropWhile (· != separator))).tail := by
  induction cs with
  | nil => rfl
  | cons c cs ih =>
    by_cases hc : c = separator
    · simp [pieces, hc]
    · have hpieces : pieces separator (c :: cs) =
          (c :: cs.takeWhile (· != separator)) ::
            (pieces separator (cs.dropWhile (· != separator))).tail := by
        conv_lhs => unfold pieces
        rw [if_neg hc, ih]
      rw [hpieces]
      simp [hc]

end Text

namespace Route

open Text

variable {path : String} {segment cs rest : List Char}

section Search

/-- A slash, a colon and a name that is not empty and ends at the next slash, and what comes after
it. -/
def paramAt? (cs : List Char) : Option (List Char × List Char) :=
  match after? "/:".toList cs with
  | none => none
  | some body =>
    if (body.takeWhile (· != '/')).isEmpty then none
    else some (body.takeWhile (· != '/'), body.dropWhile (· != '/'))

theorem paramAt?_shorter {name : List Char} (h : paramAt? cs = some (name, rest)) :
    rest.length < cs.length := by
  unfold paramAt? at h
  split at h
  · cases h
  · rename_i body hbody
    rw [after?_eq_some_iff.mp hbody]
    split_ifs at h
    cases h
    have hle := List.length_dropWhile_le (· != '/') body
    simp only [List.length_append]
    exact Nat.lt_of_le_of_lt hle (Nat.lt_add_of_pos_left (by decide))

/-- The names of the parameters that a search from left to right finds. It goes on behind each of
them. -/
def searchedNames (cs : List Char) : List String :=
  match cs with
  | [] => []
  | c :: cs =>
    match _h : paramAt? (c :: cs) with
    | some (name, rest) => String.ofList name :: searchedNames rest
    | none => searchedNames cs
termination_by cs.length
decreasing_by
  · exact paramAt?_shorter _h
  · simp

theorem paramName?_of_ne (hc : segment.head? ≠ some ':') : paramName? segment = none := by
  unfold paramName?
  split
  · exact (hc rfl).elim
  · rfl

/-- Where no parameter is found, the first segment of the rest is none. -/
theorem paramName?_takeWhile (hnone : paramAt? ('/' :: cs) = none) :
    paramName? (cs.takeWhile (· != '/')) = none := by
  cases cs with
  | nil => rfl
  | cons c body =>
    by_cases hc : c = ':'
    · subst hc
      have hname : body.takeWhile (· != '/') = [] := by
        by_contra hne
        simp [paramAt?, after?, hne] at hnone
      rw [List.takeWhile_cons_of_pos (by decide), hname]
      rfl
    · apply paramName?_of_ne
      rw [List.takeWhile_cons]
      split <;> simp [hc]

/-- What the search finds are the segments behind a slash that have a colon in front of a name. -/
theorem searchedNames_eq (cs : List Char) :
    searchedNames cs = (pieces '/' cs).tail.filterMap paramName? := by
  induction cs using searchedNames.induct with
  | case1 => simp [searchedNames, pieces]
  | case2 c cs name rest hfound ih =>
    unfold searchedNames
    rw [hfound]
    dsimp only
    unfold paramAt? at hfound
    split at hfound
    · cases hfound
    · rename_i body hbody
      split_ifs at hfound with hname
      cases hfound
      -- The segment behind the slash is the colon with the name.
      have hpieces : pieces '/' (':' :: body) = (':' :: body.takeWhile (· != '/')) ::
          (pieces '/' (body.dropWhile (· != '/'))).tail := by
        rw [pieces_eq_cons]
        rfl
      have hsome : paramName? (':' :: body.takeWhile (· != '/')) =
          some (String.ofList (body.takeWhile (· != '/'))) := by
        cases hbegin : body.takeWhile (· != '/') with
        | nil => exact (hname (by simp [hbegin])).elim
        | cons d ds => rfl
      have hslash : c :: cs = '/' :: ':' :: body := after?_eq_some_iff.mp hbody
      rw [ih, hslash, pieces_cons_self, List.tail_cons, hpieces, List.filterMap_cons, hsome]
  | case3 c cs hnone ih =>
    unfold searchedNames
    rw [hnone]
    dsimp only
    rw [ih]
    by_cases hc : c = '/'
    · subst hc
      rw [pieces_cons_self, List.tail_cons]
      conv_rhs => rw [pieces_eq_cons, List.filterMap_cons, paramName?_takeWhile hnone]
      rw [pieces_eq_cons, List.tail_cons]
    · rw [pieces_eq_cons, pieces_eq_cons (c :: cs)]
      simp [hc]

end Search

section Links

def links (path : String) : List (List Char) :=
  ((segments path).filter (!·.isEmpty)).map link

def lookedUp? (link : List Char) : Option String :=
  (after? "[params.".toList link).map fun rest => String.ofList rest.dropLast

def lookedUpNames (path : String) : List String := (links path).filterMap lookedUp?

/-- What follows the colon in front of a segment. -/
def markedName? : List Char → Option String
  | ':' :: name => some (String.ofList name)
  | _ => none

theorem clientChain_eq_links (path : String) :
    clientChain path = "client" ++ String.ofList (links path).flatten := by
  rw [clientChain, links, List.flatMap_def]

theorem lookedUp?_link (segment : List Char) : lookedUp? (link segment) = markedName? segment := by
  unfold link
  split
  · rename_i name
    have hlink : "[params.".toList ++ name ++ [']'] = "[params.".toList ++ (name ++ [']']) :=
      List.append_assoc _ _ _
    rw [hlink, lookedUp?, after?_eq_some_iff.mpr rfl]
    simp [markedName?]
  · rename_i hcolon
    have hmarked : markedName? segment = none := by
      unfold markedName?
      split
      · exact (hcolon _ rfl).elim
      · rfl
    rw [hmarked]
    split_ifs
    · rfl
    · rfl

theorem lookedUpNames_eq (path : String) :
    lookedUpNames path = (segments path).filterMap markedName? := by
  have hlink : lookedUp? ∘ link = markedName? := funext lookedUp?_link
  rw [lookedUpNames, links, List.filterMap_map, hlink, List.filterMap_filter]
  congr 1
  funext segment
  cases segment <;> rfl

theorem paramName?_eq_filter (segment : List Char) :
    paramName? segment = (markedName? segment).filter (· ≠ "") := by
  unfold markedName?
  split
  · rename_i name
    cases name with
    | nil => rfl
    | cons c cs =>
      have hne : String.ofList (c :: cs) ≠ "" := fun h => by
        simpa using congrArg String.toList h
      exact (Option.filter_some_pos (by simpa only [decide_eq_true_eq] using hne)).symm
  · rename_i hcolon
    apply paramName?_of_ne
    intro hhead
    obtain ⟨name, rfl⟩ := List.head?_eq_some_iff.mp hhead
    exact hcolon name rfl

theorem markedName?_takeWhile (path : String) :
    markedName? (path.toList.takeWhile (· != '/')) =
      if path.toList.head? = some ':' then
        some (String.ofList (path.toList.takeWhile (· != '/')).tail) else none := by
  cases path.toList with
  | nil => rfl
  | cons c cs =>
    by_cases hc : c = ':'
    · subst hc
      rfl
    · rw [if_neg (by simpa using hc), List.takeWhile_cons]
      unfold markedName?
      split
      · rename_i heq
        split_ifs at heq
        exact (hc (List.cons.inj heq).1).elim
      · rfl

theorem lookedUpNames_eq_append (path : String) : lookedUpNames path =
    (if path.toList.head? = some ':' then
      [String.ofList (path.toList.takeWhile (· != '/')).tail] else []) ++
      (segments path).tail.filterMap markedName? := by
  have hsegments : segments path = path.toList.takeWhile (· != '/') :: (segments path).tail := by
    rw [segments, pieces_eq_cons, List.tail_cons]
  rw [lookedUpNames_eq]
  conv_lhs => rw [hsegments, List.filterMap_cons, markedName?_takeWhile]
  split_ifs <;> rfl

/-- The parameters of a path are those that its client chain looks up, except for one that begins
the path and those without a name. -/
theorem paramNames_eq (path : String) : paramNames path =
    (if path.toList.head? = some ':' then (lookedUpNames path).tail else lookedUpNames path).filter
      (· ≠ "") := by
  have hrest : paramNames path = ((segments path).tail.filterMap markedName?).filter (· ≠ "") := by
    rw [paramNames, List.drop_one, List.filter_filterMap]
    congr 1
    funext segment
    exact paramName?_eq_filter segment
  rw [hrest, lookedUpNames_eq_append]
  split_ifs <;> rfl

theorem paramNames_eq_lookedUpNames_iff (path : String) : paramNames path = lookedUpNames path ↔
    path.toList.head? ≠ some ':' ∧ "" ∉ lookedUpNames path := by
  rw [paramNames_eq]
  by_cases hroot : path.toList.head? = some ':'
  · have hne : lookedUpNames path ≠ [] := by
      simp [lookedUpNames_eq_append, hroot]
    have hlonger : ((lookedUpNames path).tail.filter (· ≠ "")).length <
        (lookedUpNames path).length := by
      apply Nat.lt_of_le_of_lt (List.length_filter_le _ _)
      rw [List.length_tail]
      have := List.length_pos_of_ne_nil hne
      omega
    simp only [hroot, if_true, ne_eq, not_true_eq_false, false_and, iff_false]
    intro heq
    rw [heq] at hlonger
    exact Nat.lt_irrefl _ hlonger
  · rw [if_neg hroot, List.filter_eq_self]
    simp only [hroot, ne_eq, not_false_eq_true, true_and, decide_eq_true_eq]
    exact ⟨fun hall hmem => hall "" hmem rfl, fun hnone a ha heq => hnone (heq ▸ ha)⟩

end Links

section Paths

theorem segments_slash (path name : String) :
    segments (path ++ "/" ++ name) = segments path ++ segments name := by
  simp only [segments, String.toList_append]
  rw [List.append_assoc]
  exact pieces_append path.toList name.toList

theorem head?_pathAlong (hpath : path ≠ "") (names : List String) :
    (pathAlong path names).toList.head? = path.toList.head? := by
  induction names generalizing path with
  | nil => rfl
  | cons name names ih =>
    unfold pathAlong
    split_ifs with hnested hroot
    · exact ih hpath
    · exact (hpath hroot.1).elim
    · have hlist : path.toList ≠ [] := fun h => hpath (String.toList_eq_nil_iff.mp h)
      rw [ih (by simp), String.toList_append, String.toList_append, List.append_assoc,
        List.head?_append_of_ne_nil _ hlist]

/-- A path begins with a parameter exactly if the first of the names that leave a trace in it is
one. -/
theorem head?_pathAlong_root (names : List String) :
    (pathAlong "" names).toList.head? = some ':' ↔
      ∃ name ∈ (names.filter (· ≠ nestedName)).head?, name.toList.head? = some ':' := by
  induction names with
  | nil => simp [pathAlong]
  | cons name names ih =>
    unfold pathAlong
    split_ifs with hnested hroot
    · simpa [hnested] using ih
    · have hname : name ≠ "" := by
        rintro rfl
        cases hroot.2
      simp [head?_pathAlong hname, hnested, hroot.2]
    · have hcolon : name.toList.head? ≠ some ':' := fun h => hroot ⟨rfl, h⟩
      rw [head?_pathAlong (by simp)]
      simp [hnested, hcolon]

/-- A segment with a colon in front is one of a path exactly if it is one of a name on the way. -/
theorem mem_segments_pathAlong (hcolon : segment.head? = some ':') (path : String)
    (names : List String) : segment ∈ segments (pathAlong path names) ↔
      segment ∈ segments path ∨ ∃ name ∈ names, segment ∈ segments name := by
  have hempty : segment ∉ segments "" := by
    intro hmem
    have heq : segment = [] := List.mem_singleton.mp hmem
    rw [heq] at hcolon
    cases hcolon
  have hnested : segment ∉ segments nestedName := by
    have hsegments : segments nestedName = [nestedName.toList] := by decide
    intro hmem
    rw [hsegments, List.mem_singleton] at hmem
    rw [hmem] at hcolon
    revert hcolon
    decide
  induction names generalizing path with
  | nil => simp [pathAlong]
  | cons name names ih =>
    rw [List.exists_mem_cons_iff]
    unfold pathAlong
    split_ifs with hname hroot
    · simp [ih, hname, hnested]
    · simp [ih, hroot.1, hempty]
    · refine (ih _).trans ?_
      rw [segments_slash, List.mem_append, or_assoc]

theorem markedName?_eq_empty_iff : markedName? segment = some "" ↔ segment = [':'] := by
  unfold markedName?
  split
  · rename_i name
    cases name <;> simp
  · rename_i hcolon
    simp only [reduceCtorEq, false_iff]
    exact hcolon []

theorem empty_mem_lookedUpNames_iff : "" ∈ lookedUpNames path ↔ [':'] ∈ segments path := by
  simp [lookedUpNames_eq, markedName?_eq_empty_iff]

theorem lookedUpNames_eq_nil_iff :
    lookedUpNames path = [] ↔ ∀ segment ∈ segments path, segment.head? ≠ some ':' := by
  have hmarked (segment : List Char) : markedName? segment = none ↔ segment.head? ≠ some ':' := by
    unfold markedName?
    split
    · simp
    · rename_i hcolon
      simp only [true_iff]
      intro hhead
      obtain ⟨name, rfl⟩ := List.head?_eq_some_iff.mp hhead
      exact hcolon name rfl
  simp only [lookedUpNames_eq, List.filterMap_eq_nil_iff, hmarked]

/-- The client looks up no parameter exactly if there is none where the walk starts nor among the
names on the way. -/
theorem lookedUpNames_pathAlong_eq_nil_iff (path : String) (names : List String) :
    lookedUpNames (pathAlong path names) = [] ↔
      ∀ segment ∈ segments path ++ names.flatMap segments, segment.head? ≠ some ':' := by
  rw [lookedUpNames_eq_nil_iff]
  constructor
  · intro hnone segment hmem hcolon
    rw [List.mem_append, List.mem_flatMap] at hmem
    exact hnone segment ((mem_segments_pathAlong hcolon path names).mpr hmem) hcolon
  · intro hnone segment hmem hcolon
    have hmem' := (mem_segments_pathAlong hcolon path names).mp hmem
    rw [← List.mem_flatMap, ← List.mem_append] at hmem'
    exact hnone segment hmem' hcolon

/-- The readers agree on the path of a descent from the root exactly if the path does not begin with
a parameter and no name on the way has a colon for a segment. -/
theorem paramNames_pathAlong_iff (names : List String) :
    paramNames (pathAlong "" names) = lookedUpNames (pathAlong "" names) ↔
      (∀ name ∈ (names.filter (· ≠ nestedName)).head?, name.toList.head? ≠ some ':') ∧
        ∀ name ∈ names, [':'] ∉ segments name := by
  have hempty : [':'] ∉ segments "" := by decide
  rw [paramNames_eq_lookedUpNames_iff, empty_mem_lookedUpNames_iff, mem_segments_pathAlong rfl,
    ne_eq, head?_pathAlong_root]
  simp only [hempty, false_or, not_exists, not_and, ne_eq]

end Paths

section Repair

theorem paramsType_of_ne_nil (h : paramNames path ≠ []) : paramsType path =
    "\x7b" ++ ", ".intercalate ((paramNames path).map (· ++ ": string")) ++ "\x7d" := by
  unfold paramsType
  split
  · rename_i hnil
    exact (h hnil).elim
  · rfl

theorem paramsType_eq_empty_iff : paramsType path = "\x7b\x7d" ↔ paramNames path = [] := by
  constructor
  · intro h
    by_contra hne
    obtain ⟨name, names, hnames⟩ := List.exists_cons_of_ne_nil hne
    rw [paramsType_of_ne_nil hne, hnames, List.map_cons] at h
    generalize hinner : ", ".intercalate ((name ++ ": string") :: names.map (· ++ ": string")) =
      inner at h
    have hempty : inner = "" := by
      apply String.toList_inj.mp
      simpa [String.toList_append] using congrArg String.toList h
    rw [hempty] at hinner
    cases names with
    | nil => simp [String.intercalate_singleton] at hinner
    | cons next names => simp [String.intercalate_cons_cons] at hinner
  · intro h
    simp [paramsType, h]

/-- Without a literal that can be read, the parameters are those of the route's own path. -/
theorem recordedParams_of_unresolved {stated : String}
    (hmark : unresolvedMark.toList <+: stated.toList)
    (hliteral : unresolvedLiteral? stated = none) :
    recordedParams stated path = if paramNames path = [] then none else some
      ("\x7b" ++ ", ".intercalate ((paramNames path).map (· ++ ": string")) ++ "\x7d") := by
  rw [recordedParams_of_unread hmark hliteral]
  simp only [paramsType_eq_empty_iff]
  split_ifs with hnil
  · rfl
  · rw [paramsType_of_ne_nil hnil]

end Repair

section Records

variable {H I : Type} {sys : HandleSystem H I} [DecidableEq I] {root : H} {records : List Endpoint}
  {e : Endpoint}

/-- In the path of every record the search finds the names that the client chain looks up, in their
order, except for a parameter that begins the path: it has no slash before it. Both find the same
if the path begins with no parameter and every colon in front of a segment has a name behind it. A
parameter type that is not resolved and has no literal lists what the search finds. -/
theorem listed_params_are_looked_up (hwalk : sys.walk root "" = .ok records) (he : e ∈ records) :
    ∃ s stated, IsSite sys root "" s ∧ recordOf sys "" s = .ok e ∧
      StatesParams sys s.descriptor stated ∧
      paramNames e.path = searchedNames e.path.toList ∧
      clientChain e.path = "client" ++ String.ofList (links e.path).flatten ∧
      paramNames e.path = (if e.path.toList.head? = some ':' then (lookedUpNames e.path).tail
        else lookedUpNames e.path).filter (· ≠ "") ∧
      ((∀ name ∈ (s.names.filter (· ≠ nestedName)).head?, name.toList.head? ≠ some ':') →
        (∀ name ∈ s.names, [':'] ∉ segments name) → paramNames e.path = lookedUpNames e.path) ∧
      (unresolvedMark.toList <+: stated.toList → unresolvedLiteral? stated = none →
        e.params = if paramNames e.path = [] then none else some
          ("\x7b" ++ ", ".intercalate ((paramNames e.path).map (· ++ ": string")) ++ "\x7d")) := by
  obtain ⟨s, hs, hrecord⟩ := exists_site_of_mem_walk hwalk he
  obtain ⟨stated, hstated, hparams⟩ := HandleSystem.params_endpoint hrecord
  have hpath : e.path = s.path "" := (HandleSystem.of_endpoint_eq_ok hrecord).1
  have hsearched : paramNames e.path = searchedNames e.path.toList := by
    rw [searchedNames_eq, paramNames, List.drop_one, segments]
  refine ⟨s, stated, hs, hrecord, hstated, hsearched, clientChain_eq_links e.path,
    paramNames_eq e.path, ?_, ?_⟩
  · intro hroot hcolon
    rw [hpath, Site.path]
    exact (paramNames_pathAlong_iff s.names).mpr ⟨hroot, hcolon⟩
  · intro hmark hliteral
    rw [hparams, ← hpath]
    exact recordedParams_of_unresolved hmark hliteral

end Records

end Route

namespace Graph

open Route

/-- Two parameters, one below the other, and both with a method whose parameters are not
resolved. -/
def tenants : Graph where
  doc := ⟨#[
    .mapping [(.text "kind", .text "object"), (.text "properties", .node 1)],
    .mapping [(.text ":org", .node 2)],
    .mapping [(.text "kind", .text "object"), (.text "properties", .node 3)],
    .mapping [(.text "get", .node 4), (.text ":id", .node 6)],
    .mapping [(.text "kind", .text "object"), (.text "properties", .node 5)],
    .mapping [(.text "params", .text "_ResolvePath<Path>")],
    .mapping [(.text "kind", .text "object"), (.text "properties", .node 7)],
    .mapping [(.text "get", .node 4)]]⟩
  source := "<memory>"
  files := []
  declarations := []

theorem properties_tenants :
    (tenants.handles {}).properties (.anonymous 0) = .ok [(":org", .anonymous 2)] ∧
      (tenants.handles {}).properties (.anonymous 2) =
        .ok [("get", .anonymous 4), (":id", .anonymous 6)] ∧
      (tenants.handles {}).properties (.anonymous 4) =
        .ok [("params", .leaf "_ResolvePath<Path>")] ∧
      (tenants.handles {}).properties (.anonymous 6) = .ok [("get", .anonymous 4)] := by
  refine ⟨?_, ?_, ?_, ?_⟩
  · exact properties_handles_of_object [⟨":org", .anonymous 2, false⟩] (by decide) rfl
  · exact properties_handles_of_object
      [⟨"get", .anonymous 4, false⟩, ⟨":id", .anonymous 6, false⟩] (by decide) rfl
  · exact properties_handles_of_object
      [⟨"params", .leaf "_ResolvePath<Path>", false⟩] (by decide) rfl
  · exact properties_handles_of_object [⟨"get", .anonymous 4, false⟩] (by decide) rfl

theorem endpoint_tenants (path : String) (m : Method) :
    (tenants.handles {}).endpoint (.anonymous 4) path m = (Parts.check path m
      { params := .text ((repairedParams? "_ResolvePath<Path>" path).getD
        "_ResolvePath<Path>") }).toExcept := by
  obtain ⟨-, -, h, -⟩ := properties_tenants
  have hexpress : (tenants.handles {}).express (.leaf "_ResolvePath<Path>") =
      .ok (.text "_ResolvePath<Path>") := normalize_leaf _
  unfold HandleSystem.endpoint
  rw [h]
  simp [HandleSystem.collectParts, hexpress, Parts.isPart, Parts.set?, Parts.repair, bind,
    Except.bind, liftFault]

theorem walk_tenants : tenants.walk {} (.anonymous 0) "" =
    .ok [⟨":org", .get, none, none, none, "\x7b\x7d"⟩,
      ⟨":org/:id", .get, none, some "\x7bid: string\x7d", none, "\x7b\x7d"⟩] := by
  obtain ⟨h0, h2, -, h6⟩ := properties_tenants
  have hget : role "get" = .endpoint .get := by decide
  have horg : role ":org" = .segment := by decide
  have hid : role ":id" = .segment := by decide
  unfold Graph.walk HandleSystem.walk
  rw [walkWithin_of_properties rfl h0]
  simp only [List.mapM_cons, List.mapM_nil, HandleSystem.endpointsOf, horg]
  rw [maxAncestors, walkWithin_of_properties rfl h2]
  simp only [List.mapM_cons, List.mapM_nil, HandleSystem.endpointsOf, hget, hid]
  rw [walkWithin_of_properties rfl h6]
  simp only [List.mapM_cons, List.mapM_nil, HandleSystem.endpointsOf, hget, endpoint_tenants]
  rfl

/-- The parameter that begins the path is looked up by the client and not listed; in the path that
it makes alone, nothing is. -/
theorem tenant_is_not_listed :
    tenants.walk {} (.anonymous 0) "" =
        .ok [⟨":org", .get, none, none, none, "\x7b\x7d"⟩,
          ⟨":org/:id", .get, none, some "\x7bid: string\x7d", none, "\x7b\x7d"⟩] ∧
      paramNames ":org" = [] ∧ lookedUpNames ":org" = ["org"] ∧
      paramNames ":org/:id" = ["id"] ∧ lookedUpNames ":org/:id" = ["org", "id"] :=
  ⟨walk_tenants, by decide, by decide, by decide, by decide⟩

theorem tenant_params_are_looked_up :
    ∃ records, tenants.walk {} (.anonymous 0) "" = .ok records ∧
      ∃ e ∈ records, e.path = ":org/:id" ∧
        paramNames e.path = (lookedUpNames e.path).tail.filter (· ≠ "") ∧
        paramNames e.path = ["id"] := by
  refine ⟨_, walk_tenants, ⟨":org/:id", .get, none, some "\x7bid: string\x7d", none, "\x7b\x7d"⟩,
    by simp, rfl, ?_⟩
  have hwalk : (tenants.handles {}).walk (.anonymous 0) "" = _ := walk_tenants
  obtain ⟨-, -, -, -, -, -, -, hlisted, -, -⟩ :=
    listed_params_are_looked_up hwalk (List.mem_cons_of_mem _ List.mem_cons_self)
  exact ⟨hlisted, by decide⟩

end Graph

end RouteCatalog
