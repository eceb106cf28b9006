import RouteCatalog.Proofs.HandleRequests

/-! Questions to objects and the same questions to handles. What is answered with objects is read as
an answer with the handles that these stand for; a question mirrors one to handles if it is answered
so, or fails in the same way, whatever objects it adds. -/

namespace RouteCatalog

variable {g : Graph} {s s' : HandleStore} {o : ObjectId}

namespace HandleStore

section Views

theorem entries_view (o : ObjectId) :
    g.entries (s.view o) = Asking.entries g (s.object o).node := by
  rw [view]
  cases (s.object o).node <;> cases (s.object o).name <;> rfl

theorem field?_view (o : ObjectId) (name : String) :
    g.field? (s.view o) name = Asking.field? g (s.object o) name := by
  unfold Graph.field? Asking.field?
  rw [entries_view]

theorem kind?_view (o : ObjectId) : g.kind? (s.view o) = Asking.kind? g (s.object o) := by
  unfold Graph.kind? Asking.kind? Graph.statedKind Asking.statedKind
  rw [field?_view]

theorem isKind_view (k : Kind) (o : ObjectId) :
    g.isKind k (s.view o) = Asking.isKind g k (s.object o) := by
  unfold Graph.isKind Asking.isKind
  rw [kind?_view]

theorem IsSound.exists_view_eq (hs : s.IsSound g) (ho : o < s.size) {name : String}
    (hname : (s.object o).name = some name) : ∃ backing, s.view o = .declared name backing := by
  have hview := hs.handle_eq ho hname
  obtain ⟨spec, hspec⟩ := Option.isSome_iff_exists.mp (hs.declared o ho name hname).1
  simp only [Graph.handle, hspec] at hview
  obtain ⟨backing, -, heq⟩ := map_eq_ok_iff.mp hview
  exact ⟨backing, heq.symm⟩

theorem IsSound.name?_view (hs : s.IsSound g) (ho : o < s.size) :
    (s.view o).name? = (s.object o).shownName? := by
  cases hname : (s.object o).name with
  | some name =>
    obtain ⟨backing, hview⟩ := hs.exists_view_eq ho hname
    rw [hview, HandleObject.shownName?, hname]
    by_cases hempty : name = "" <;> simp [Handle.name?, Option.filter, hempty]
  | none =>
    rw [HandleObject.shownName?, hname, view, hname]
    split <;> first | rfl | contradiction

theorem IsSound.identity?_view (hs : s.IsSound g) (ho : o < s.size) :
    (s.view o).identity? = (s.object o).identity? := by
  cases hname : (s.object o).name with
  | some name =>
    obtain ⟨backing, hview⟩ := hs.exists_view_eq ho hname
    rw [hview, HandleObject.identity?, hname]
    rfl
  | none =>
    rw [HandleObject.identity?, hname, view, hname]
    cases (s.object o).node <;> rfl

/-- An object with an identity is not merged from others. -/
theorem IsSound.members_of_identity (hs : s.IsSound g) (ho : o < s.size) {i : Identity}
    (hi : (s.object o).identity? = some i) : (s.object o).node.members = [] := by
  cases hnode : (s.object o).node with
  | document id => rfl
  | literal origin text => rfl
  | merged origin ms =>
    rw [← hs.identity?_view ho, hs.view_merged ho hnode] at hi
    cases hi

def HasIdleParts (s : HandleStore) (o : ObjectId) : Prop :=
  ∀ m ∈ (s.object o).node.members, m < s.size ∧ s.IsIdle m

theorem IsIdle.hasIdleParts (hs : s.IsSound g) (ho : o < s.size) (hidle : s.IsIdle o) :
    s.HasIdleParts o := by
  intro m hm
  refine ⟨((hs.fits o ho).members m hm).trans ho, ?_⟩
  cases hidle with
  | known hi =>
    rw [hs.members_of_identity ho hi] at hm
    cases hm
  | made _ hparts => exact hparts m hm

end Views

end HandleStore

/-- How an answer with objects is read as one with handles, and when it can be read. What can be read
once is read in the same way ever after. -/
structure Reading (g : Graph) (α β : Type) where
  read : HandleStore → α → β
  Holds : HandleStore → α → Prop
  read_eq : ∀ {s s' : HandleStore} {a : α}, s.Grows s' → Holds s a → read s' a = read s a
  grows : ∀ {s s' : HandleStore} {a : α}, s.IsSound g → s.Grows s' → Holds s a → Holds s' a

namespace Reading

variable {α β : Type}

def plain (g : Graph) (α : Type) : Reading g α α where
  read _ a := a
  Holds _ _ := True
  read_eq _ _ := rfl
  grows _ _ _ := trivial

def object (g : Graph) : Reading g ObjectId Handle where
  read := HandleStore.view
  Holds s o := o < s.size ∧ s.IsIdle o
  read_eq h ho := h.view_eq ho.1
  grows hs h ho := ⟨ho.1.trans_le h.size, ho.2.grows hs h ho.1⟩

def list (R : Reading g α β) : Reading g (List α) (List β) where
  read s as := as.map (R.read s)
  Holds s as := ∀ a ∈ as, R.Holds s a
  read_eq h has := List.map_congr_left fun a ha => R.read_eq h (has a ha)
  grows hs h has := fun a ha => R.grows hs h (has a ha)

def option (R : Reading g α β) : Reading g (Option α) (Option β) where
  read s a := a.map (R.read s)
  Holds s a := ∀ a' ∈ a, R.Holds s a'
  read_eq h ha := Option.map_congr fun a' ha' => R.read_eq h (ha a' ha')
  grows hs h ha := fun a' ha' => R.grows hs h (ha a' ha')

def property (g : Graph) : Reading g ObjectProperty Property where
  read s p := ⟨p.name, s.view p.type, p.optional⟩
  Holds s p := (object g).Holds s p.type
  read_eq h hp := congrArg (Property.mk _ · _) ((object g).read_eq h hp)
  grows hs h hp := (object g).grows hs h hp

def symbol (g : Graph) : Reading g ObjectSymbol TypeSymbol where
  read s x := ⟨x.name, x.arguments.map s.view⟩
  Holds s x := (object g).list.Holds s x.arguments
  read_eq h hx := congrArg (TypeSymbol.mk _) ((object g).list.read_eq h hx)
  grows hs h hx := (object g).list.grows hs h hx

end Reading

section Mirrors

variable {α β γ δ : Type} {R : Reading g α β} {T : Reading g γ δ}

/-- A question to objects is answered as one to handles is, or fails in the same way. -/
structure Mirrors (R : Reading g α β) (s : HandleStore) (c : Asking α) (p : Except Fault β) :
    Prop where
  grows : s.Grows (c.outcome s).2
  sound : (c.outcome s).2.IsSound g
  holds : ∀ a, (c.outcome s).1 = .ok a → R.Holds (c.outcome s).2 a
  answer : (c.outcome s).1.map (R.read (c.outcome s).2) = p

namespace Mirrors

theorem of_ok {c : Asking α} {a : α} (h : c.outcome s = (.ok a, s')) (hgrows : s.Grows s')
    (hs' : s'.IsSound g) (ha : R.Holds s' a) : Mirrors R s c (.ok (R.read s' a)) := by
  refine ⟨by rwa [h], by rwa [h], ?_, by rw [h]; rfl⟩
  intro a' heq
  rw [h] at heq ⊢
  cases heq
  exact ha

theorem of_error {c : Asking α} {e : Fault} (h : c.outcome s = (.error e, s'))
    (hgrows : s.Grows s') (hs' : s'.IsSound g) : Mirrors R s c (.error e) := by
  refine ⟨by rwa [h], by rwa [h], ?_, by rw [h]; rfl⟩
  intro a' heq
  rw [h] at heq
  cases heq

theorem pure (hs : s.IsSound g) {a : α} (ha : R.Holds s a) {b : β} (hb : R.read s a = b) :
    Mirrors R s (pure a) (.ok b) :=
  hb ▸ of_ok rfl (.refl s) hs ha

theorem plain (hs : s.IsSound g) {a : α} :
    Mirrors (.plain g α) s (Pure.pure a) (.ok a) :=
  pure hs trivial rfl

theorem nil (hs : s.IsSound g) : Mirrors R.list s (Pure.pure []) (.ok []) :=
  pure hs (fun a ha => by cases ha) rfl

theorem throw (hs : s.IsSound g) {e : Fault} : Mirrors R s (throw e) (.error e) :=
  of_error rfl (.refl s) hs

theorem lift (hs : s.IsSound g) {x : Except Fault α} :
    Mirrors (.plain g α) s (Asking.lift x) x := by
  cases x with
  | ok a => exact of_ok rfl (.refl s) hs trivial
  | error e => exact of_error rfl (.refl s) hs

theorem look {f : HandleObject → Asking α} {p : Except Fault β}
    (h : Mirrors R s (f (s.object o)) p) : Mirrors R s (Asking.look o >>= f) p := by
  obtain ⟨hgrows, hsound, hholds, hanswer⟩ := h
  rw [← Asking.outcome_look_bind] at hgrows hsound hholds hanswer
  exact ⟨hgrows, hsound, hholds, hanswer⟩

theorem bind {c : Asking α} {p : Except Fault β} {f : α → Asking γ} {q : β → Except Fault δ}
    (hc : Mirrors R s c p)
    (hf : ∀ a s', s.Grows s' → s'.IsSound g → R.Holds s' a → Mirrors T s' (f a) (q (R.read s' a))) :
    Mirrors T s (c >>= f) (p >>= q) := by
  obtain ⟨hgrows, hsound, hholds, hanswer⟩ := hc
  rcases hout : c.outcome s with ⟨r, s'⟩
  rw [hout] at hgrows hsound hholds hanswer
  cases r with
  | error e =>
    subst hanswer
    exact of_error (Asking.outcome_bind_of_error hout) hgrows hsound
  | ok a =>
    subst hanswer
    obtain ⟨hgrows', hsound', hholds', hanswer'⟩ := hf a s' hgrows hsound (hholds a rfl)
    rw [← Asking.outcome_bind_of_ok hout] at hgrows' hsound' hholds' hanswer'
    exact ⟨hgrows.trans hgrows', hsound', hholds', hanswer'⟩

/-- Like `bind`, where the rest answers with what is made of the answer. -/
theorem map {c : Asking α} {p : Except Fault β} {f : α → Asking γ} {k : β → δ}
    (hc : Mirrors R s c p)
    (hf : ∀ a s', s.Grows s' → s'.IsSound g → R.Holds s' a →
      Mirrors T s' (f a) (.ok (k (R.read s' a)))) :
    Mirrors T s (c >>= f) (p.map k) := by
  have h := hc.bind (q := fun b => .ok (k b)) hf
  cases p <;> exact h

/-- A question that is put to one after the other, whatever objects have been added before. -/
theorem mapM {f : α → Asking γ} {q : β → Except Fault δ} (hs : s.IsSound g) (as : List α)
    (has : ∀ a ∈ as, R.Holds s a)
    (hf : ∀ a ∈ as, ∀ s', s.Grows s' → s'.IsSound g → R.Holds s' a →
      Mirrors T s' (f a) (q (R.read s' a))) :
    Mirrors T.list s (as.mapM f) ((as.map (R.read s)).mapM q) := by
  induction as generalizing s with
  | nil => exact nil hs
  | cons a as ih =>
    obtain ⟨ha, hrest⟩ := List.forall_mem_cons.mp has
    obtain ⟨hfa, hfrest⟩ := List.forall_mem_cons.mp hf
    rw [List.mapM_cons, List.map_cons, List.mapM_cons]
    refine (hfa s (.refl s) hs ha).bind ?_
    intro c s₁ hgrows hs₁ hc
    -- Both what is still asked and the answer so far are read as they were before the rest is asked.
    have hread : as.map (R.read s) = as.map (R.read s₁) :=
      (R.list.read_eq hgrows hrest).symm
    rw [hread]
    refine (ih hs₁ (R.list.grows hs hgrows hrest) ?_).bind ?_
    · intro a' ha' s₂ hgrows₂ hs₂ hholds
      exact hfrest a' ha' s₂ (hgrows.trans hgrows₂) hs₂ hholds
    · intro cs s₂ hgrows₂ hs₂ hcs
      refine pure hs₂ ?_ ?_
      · intro c' hc'
        rcases List.mem_cons.mp hc' with rfl | hc'
        · exact T.grows hs₁ hgrows₂ hc
        · exact hcs c' hc'
      · change T.read s₂ c :: _ = _
        rw [T.read_eq hgrows₂ hc]
        rfl

/-- Like `mapM`, for questions that are not about objects. -/
theorem mapM_plain {f : α → Asking γ} {q : α → Except Fault δ} (hs : s.IsSound g) (as : List α)
    (hf : ∀ a ∈ as, ∀ s', s.Grows s' → s'.IsSound g → Mirrors T s' (f a) (q a)) :
    Mirrors T.list s (as.mapM f) (as.mapM q) := by
  have h := mapM (R := .plain g α) (q := q) hs as (fun _ _ => trivial)
    fun a ha s' hgrows hs' _ => hf a ha s' hgrows hs'
  change Mirrors _ _ _ ((as.map id).mapM q) at h
  rwa [List.map_id] at h

theorem of_list {c : Asking (List α)} {p : Except Fault (List α)}
    (h : Mirrors (Reading.plain g α).list s c p) : Mirrors (.plain g (List α)) s c p := by
  have hread : (Reading.plain g α).list.read (c.outcome s).2 = id := by
    funext as
    exact List.map_id as
  have hanswer := h.answer
  rw [hread] at hanswer
  exact ⟨h.grows, h.sound, fun _ _ => trivial, hanswer⟩

theorem handle (hs : s.IsSound g) (v : Value) :
    Mirrors (.object g) s (Asking.handle g v) (g.handle v) := by
  rcases hs.handle_cases v with ⟨e, hhandle, hout⟩ | ⟨o, s', hgives⟩
  · rw [hhandle]
    exact of_error hout (.refl s) hs
  · rw [hgives.view]
    exact of_ok hgives.outcome hgives.grows hgives.sound ⟨hgives.lt, hgives.idle⟩

theorem property {type : ObjectId} (hs : s.IsSound g) (htype : (Reading.object g).Holds s type)
    (name : String) (optional : Bool) :
    Mirrors (.property g) s (Pure.pure ⟨name, type, optional⟩) (.ok ⟨name, s.view type, optional⟩) :=
  pure (R := .property g) (a := ⟨name, type, optional⟩) hs htype rfl

end Mirrors

end Mirrors

section Fields

theorem mirrors_single (hs : s.IsSound g) (field : String) :
    Mirrors (Reading.object g).option s (Asking.single g o field) (g.single (s.view o) field) := by
  unfold Asking.single Graph.single
  rw [HandleStore.field?_view]
  refine .look ?_
  cases Asking.field? g (s.object o) field with
  | none => exact .pure hs (fun _ h => by cases h) rfl
  | some spec =>
    refine (Mirrors.handle hs spec).map ?_
    intro e s' _ hs' he
    refine .pure hs' ?_ rfl
    intro e' he'
    cases he'
    exact he

theorem mirrors_several (hs : s.IsSound g) (field : String) :
    Mirrors (Reading.object g).list s (Asking.several g o field)
      (g.several (s.view o) field) := by
  unfold Asking.several Graph.several
  rw [HandleStore.field?_view]
  refine .look ?_
  cases Asking.field? g (s.object o) field with
  | none => exact .nil hs
  | some specs =>
    refine (Mirrors.lift hs).bind ?_
    intro vs s' _ hs' _
    exact .mapM_plain hs' vs fun v _ s'' _ hs'' => Mirrors.handle hs'' v

theorem mirrors_members (hs : s.IsSound g) (ho : o < s.size) (hparts : s.HasIdleParts o) :
    Mirrors (Reading.object g).list s (Asking.members g o) (g.members (s.view o)) := by
  unfold Asking.members
  refine .look ?_
  cases hnode : (s.object o).node with
  | document id =>
    have hview : ∀ ms, s.view o ≠ .merged ms := by
      rw [HandleStore.view_of_document hnode]
      cases (s.object o).name <;> exact fun _ h => by cases h
    rw [Graph.members.eq_2 _ _ hview]
    exact mirrors_several hs "members"
  | literal origin text =>
    have hview : ∀ ms, s.view o ≠ .merged ms := by
      rw [HandleStore.view_of_literal hnode]
      cases (s.object o).name <;> exact fun _ h => by cases h
    rw [Graph.members.eq_2 _ _ hview]
    exact mirrors_several hs "members"
  | merged origin ms =>
    rw [hs.view_merged ho hnode]
    rw [HandleStore.HasIdleParts, hnode] at hparts
    exact .pure hs hparts rfl

theorem mirrors_callSignatures (hs : s.IsSound g) :
    Mirrors (.plain g Int) s (Asking.callSignatures g o) (g.callSignatures (s.view o)) := by
  unfold Asking.callSignatures Graph.callSignatures
  rw [HandleStore.field?_view]
  refine .look ?_
  cases Asking.field? g (s.object o) "call_signatures" with
  | none => exact .plain hs
  | some v => exact .lift hs

theorem mirrors_symbol (hs : s.IsSound g) (ho : o < s.size) :
    Mirrors (Reading.symbol g).option s (Asking.symbol g o) (g.symbol (s.view o)) := by
  unfold Asking.symbol Graph.symbol
  rw [HandleStore.isKind_view, HandleStore.field?_view, hs.name?_view ho]
  refine .look ?_
  split_ifs with hkind
  · refine (mirrors_several hs "args").bind ?_
    intro es s' _ hs' hes
    cases Asking.field? g (s.object o) "name" with
    | none => exact .throw hs'
    | some name =>
      refine .pure hs' ?_ rfl
      intro x hx
      cases hx
      exact hes
  · refine .pure hs ?_ ?_
    · intro x hx
      obtain ⟨name, -, rfl⟩ := Option.mem_map.mp hx
      intro e he
      cases he
    · cases (s.object o).shownName? <;> rfl

theorem mirrors_property (hs : s.IsSound g) (e : Entry) :
    Mirrors (.property g) s (Asking.property g e) (g.property e) := by
  unfold Asking.property Graph.property
  refine (Mirrors.handle hs _).bind ?_
  intro t s' _ hs' ht
  exact .property hs' ht _ _

theorem mirrors_ownProperties (hs : s.IsSound g) :
    Mirrors (Reading.property g).list s (Asking.ownProperties g o)
      (g.ownProperties (s.view o)) := by
  unfold Asking.ownProperties Graph.ownProperties
  rw [HandleStore.field?_view]
  refine .look ((Mirrors.lift hs).bind ?_)
  intro entries s' _ hs' _
  exact .mapM_plain hs' entries fun e _ s'' _ hs'' => mirrors_property hs'' e

end Fields

section Merging

/-- A new object stands for the type that its parts are merged to. -/
theorem mirrors_createMerged (hs : s.IsSound g) {ms : List ObjectId}
    (hms : (Reading.object g).list.Holds s ms) :
    Mirrors (.object g) s (Asking.create none fun o => .merged o ms)
      (.ok (.merged (ms.map s.view))) := by
  have hfits : (ObjectNode.merged s.size ms).Fits g s.size :=
    .merged (Nat.le_refl _) fun m hm => (hms m hm).1
  obtain ⟨s', hgives, hobject⟩ := HandleStore.gives_create hs (fun o => .merged o ms) rfl hfits
  have hnode : (s'.object s.size).node = .merged s.size ms := by rw [hobject]
  have hview : s'.view s.size = .merged (ms.map s.view) := by
    rw [hgives.sound.view_merged hgives.lt hnode]
    refine congrArg Handle.merged (List.map_congr_left ?_)
    intro m hm
    exact hgives.grows.view_eq (hms m hm).1
  have hidle : s'.IsIdle s.size := by
    refine .made (by rw [hobject]) ?_
    rw [hobject]
    intro m hm
    exact (hms m hm).2.grows hs hgives.grows (hms m hm).1
  rw [← hview]
  exact .of_ok (R := .object g) hgives.outcome hgives.grows hgives.sound ⟨hgives.lt, hidle⟩

/-- Several properties of one name come to one whose type is a new object. -/
theorem mirrors_combine (hs : s.IsSound g) (name : String) (ps : List ObjectProperty)
    (hps : (Reading.property g).list.Holds s ps) :
    Mirrors (.property g) s (Asking.combine name ps)
      (.ok (Property.combine name ((Reading.property g).list.read s ps))) := by
  have htypesHold : (Reading.object g).list.Holds s (ps.map ObjectProperty.type) := by
    intro m hm
    obtain ⟨p, hp, rfl⟩ := List.mem_map.mp hm
    exact hps p hp
  have hmerged := (mirrors_createMerged hs htypesHold).map (T := .property g)
    (f := fun type => return ⟨name, type, ps.all ObjectProperty.optional⟩)
    (k := fun type => ⟨name, type, ps.all ObjectProperty.optional⟩)
    fun type s' _ hs' htype => .property hs' htype _ _
  have htypes : ((Reading.property g).list.read s ps).map Property.type =
      (ps.map ObjectProperty.type).map s.view := by
    rw [List.map_map]
    exact List.map_map
  have hoptional : ((Reading.property g).list.read s ps).all Property.optional =
      ps.all ObjectProperty.optional := List.all_map
  match ps with
  | [] => exact hmerged
  | [p] => exact .pure hs (hps p (List.mem_singleton_self p)) rfl
  | p :: q :: ps =>
    change Mirrors _ _ _ (.ok (Property.mk name
      (.merged (((Reading.property g).list.read s (p :: q :: ps)).map Property.type))
      (((Reading.property g).list.read s (p :: q :: ps)).all Property.optional)))
    rw [htypes, hoptional]
    exact hmerged

/-- Merging asks for a new object for every name that occurs again. -/
theorem mirrors_merge (hs : s.IsSound g) (ps : List ObjectProperty)
    (hps : (Reading.property g).list.Holds s ps) :
    Mirrors (Reading.property g).list s (Asking.merge ps)
      (.ok (Property.merge ((Reading.property g).list.read s ps))) := by
  have hnames : ((Reading.property g).list.read s ps).map Property.name =
      ps.map ObjectProperty.name := List.map_map
  have hmerge : (.ok (Property.merge ((Reading.property g).list.read s ps)) : Except Fault _) =
      ((ps.map ObjectProperty.name).eraseDups.mapM fun n => .ok (Property.combine n
        (((Reading.property g).list.read s ps).filter (·.name == n)))) := by
    unfold Property.merge
    rw [hnames]
    exact (List.mapM_pure (m := Except Fault)).symm
  rw [hmerge]
  refine .mapM_plain hs _ ?_
  intro name _ s' hgrows hs'
  have hfilter : ((Reading.property g).list.read s ps).filter (·.name == name) =
      (Reading.property g).list.read s' (ps.filter (·.name == name)) := by
    rw [← (Reading.property g).list.read_eq hgrows hps]
    exact List.filter_map
  rw [hfilter]
  apply mirrors_combine hs'
  intro p hp
  exact (Reading.property g).list.grows hs hgrows hps p (List.mem_of_mem_filter hp)

end Merging

section Properties

/-- The properties of several types are merged once they have all been asked for. -/
theorem mirrors_mergeAll {c : Asking (List (List ObjectProperty))}
    {p : Except Fault (List (List Property))}
    (h : Mirrors (Reading.property g).list.list s c p) :
    Mirrors (Reading.property g).list s (c >>= fun all => Asking.merge all.flatten)
      (p.map Graph.mergeAll) := by
  refine h.map ?_
  intro all s' _ hs' hall
  have hflatten : (Reading.property g).list.read s' all.flatten =
      ((Reading.property g).list.list.read s' all).flatten := List.map_flatten
  rw [Graph.mergeAll, ← hflatten]
  apply mirrors_merge hs'
  intro p hp
  obtain ⟨ps, hps, hp⟩ := List.mem_flatten.mp hp
  exact hall ps hps p hp

theorem not_intersection_of_literal {origin : ObjectId} {text : String}
    (hnode : (s.object o).node = .literal origin text) :
    Asking.kind? g (s.object o) ≠ some .intersection := by
  have hkind : g.kind? (s.view o) = some .primitive := by
    apply Graph.kind?_of_text (t := text)
    rw [HandleStore.entries_view, hnode]
    rfl
  rw [← HandleStore.kind?_view, hkind]
  decide

theorem mirrors_propertiesWithin {s : HandleStore} (free : List NodeId) (o : ObjectId)
    (hs : s.IsSound g) (ho : o < s.size) (hparts : s.HasIdleParts o) :
    Mirrors (Reading.property g).list s (Asking.propertiesWithin g free o)
      (g.propertiesWithin free (s.view o)) := by
  have hview := HandleStore.kind?_view (g := g) (s := s) o
  rw [Asking.propertiesWithin]
  refine .look ?_
  cases hkind : Asking.kind? g (s.object o) with
  | none =>
    rw [hkind] at hview
    rw [Graph.propertiesWithin_of_other (by rw [hview]; decide) (by rw [hview]; decide)]
    exact .nil hs
  | some kind =>
    rw [hkind] at hview
    cases kind with
    | object =>
      rw [Graph.propertiesWithin_of_object hview]
      exact mirrors_ownProperties hs
    | intersection =>
      cases hnode : (s.object o).node with
      | merged origin ms =>
        rw [HandleStore.HasIdleParts, hnode] at hparts
        rw [hs.view_merged ho hnode, Graph.propertiesWithin_merged]
        apply mirrors_mergeAll
        refine Mirrors.mapM (R := .object g) hs ms hparts ?_
        intro m hm s' _ hs' hmember
        -- The parts of a merged type are older than it, so that the recursion ends.
        have hlt : m < o := by
          have hfits := (hs.fits o ho).members
          rw [hnode] at hfits
          exact hfits m hm
        rw [dif_pos hlt]
        exact mirrors_propertiesWithin free m hs' hmember.1 (hmember.2.hasIdleParts hs' hmember.1)
      | document id =>
        have hid : (s.view o).node? = some id := by
          rw [HandleStore.view_of_document hnode]
          cases (s.object o).name <;> rfl
        by_cases hfree : id ∈ free
        · dsimp only
          rw [dif_pos hfree, Graph.propertiesWithin_of_node hview hid hfree]
          refine (mirrors_members hs ho hparts).bind ?_
          intro ms s' _ hs' hms
          apply mirrors_mergeAll
          refine Mirrors.mapM (R := .object g) hs' ms hms ?_
          intro m _ s'' _ hs'' hmember
          exact mirrors_propertiesWithin (free.erase id) m hs'' hmember.1
            (hmember.2.hasIdleParts hs'' hmember.1)
        · dsimp only
          rw [dif_neg hfree, Graph.propertiesWithin_of_not_mem hview hid hfree]
          exact .throw hs
      | literal origin text => exact (not_intersection_of_literal hnode hkind).elim
    | _ =>
      rw [Graph.propertiesWithin_of_other (by rw [hview]; decide) (by rw [hview]; decide)]
      exact .nil hs
termination_by (free.length, o)
decreasing_by
  · apply Prod.Lex.left
    rw [List.length_erase_of_mem hfree]
    have := List.length_pos_of_mem hfree
    omega
  · apply Prod.Lex.right
    exact hlt

theorem mirrors_properties (hs : s.IsSound g) (ho : o < s.size) (hparts : s.HasIdleParts o) :
    Mirrors (Reading.property g).list s (Asking.properties g o) (g.properties (s.view o)) :=
  mirrors_propertiesWithin g.doc.nodeIds o hs ho hparts

end Properties

end RouteCatalog
