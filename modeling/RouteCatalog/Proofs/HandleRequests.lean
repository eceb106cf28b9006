import RouteCatalog.Proofs.HandleObjects

/-! Requests for objects. An object is handed over that is kept under what is asked for, and made and
kept if there is none; what cannot be kept is made anew. -/

namespace RouteCatalog

variable {g : Graph} {s s' : HandleStore} {o : ObjectId}

namespace Asking

variable {α β : Type} {c : Asking α} {f : α → Asking β}

theorem outcome_bind_of_ok {a : α} (h : c.outcome s = (.ok a, s')) :
    (c >>= f).outcome s = (f a).outcome s' := by
  change ExceptT.bindCont f (c.outcome s).1 (c.outcome s).2 = _
  rw [h]
  rfl

theorem outcome_bind_of_error {e : Fault} (h : c.outcome s = (.error e, s')) :
    (c >>= f).outcome s = (.error e, s') := by
  change ExceptT.bindCont f (c.outcome s).1 (c.outcome s).2 = _
  rw [h]
  rfl

theorem outcome_look_bind {f : HandleObject → Asking β} :
    (look o >>= f).outcome s = (f (s.object o)).outcome s :=
  outcome_bind_of_ok rfl

theorem outcome_kept?_bind {key : HandleKey} {f : Option ObjectId → Asking β} :
    (kept? key >>= f).outcome s = (f (s.kept.lookup key)).outcome s :=
  outcome_bind_of_ok rfl

end Asking

namespace HandleStore

section Adding

variable {x : HandleObject}

/-- One object has been added, and is kept under what it can be kept under. -/
structure Adds (s : HandleStore) (x : HandleObject) (s' : HandleStore) : Prop where
  objects : s'.objects = s.objects ++ [x]
  kept : ∀ key, s'.kept.lookup key =
    if s'.key? s.size = some key then some s.size else s.kept.lookup key

theorem Adds.size (h : s.Adds x s') : s'.size = s.size + 1 := by
  unfold HandleStore.size
  rw [h.objects, List.length_append]
  rfl

theorem object_size (hobjects : s'.objects = s.objects ++ [x]) : s'.object s.size = x := by
  unfold object HandleStore.size
  rw [hobjects, List.getD_append_right _ _ _ _ (Nat.le_refl _), Nat.sub_self]
  rfl

theorem Adds.object_size (h : s.Adds x s') : s'.object s.size = x :=
  HandleStore.object_size h.objects

theorem Adds.object_of_lt (h : s.Adds x s') (ho : o < s.size) : s'.object o = s.object o := by
  unfold object
  rw [h.objects]
  exact List.getD_append _ _ _ _ ho

theorem Adds.grows (h : s.Adds x s') (hmark : x.isMarked = false) : s.Grows s' := by
  refine ⟨by rw [h.size]; exact Nat.le_succ _, fun o ho => h.object_of_lt ho, ?_⟩
  intro o ho
  rcases Nat.eq_or_lt_of_le ho with rfl | hlt
  · rw [h.object_size, hmark]
  · rw [object_of_size_le (by rw [h.size]; exact hlt)]

/-- A further object leaves a store sound if nothing was kept under what it is kept under now. -/
theorem Adds.isSound (h : s.Adds x s') (hs : s.IsSound g) (hmark : x.isMarked = false)
    (hnew : ∀ key, s'.key? s.size = some key → s.kept.lookup key = none)
    (hfits : x.node.Fits g s.size)
    (hdeclared : ∀ name ∈ x.name, (g.declaration? name).isSome ∧
      ∃ backing, g.resolve (.text name) = .ok backing ∧ x.node = .ofBacking s.size backing) :
    s'.IsSound g := by
  have hgrows := h.grows hmark
  have hcases : ∀ o, o < s'.size ↔ o < s.size ∨ o = s.size := by
    intro o
    rw [h.size]
    exact Nat.lt_succ_iff_lt_or_eq
  refine ⟨?_, ?_, ?_⟩
  · intro key o
    rw [h.kept, hcases]
    -- Only the new object can be kept under a new key: under any other key stands what stood there.
    split_ifs with hkey
    · constructor
      · intro heq
        cases heq
        exact ⟨.inr rfl, hkey⟩
      · rintro ⟨hlt | rfl, ho⟩
        · rw [hgrows.key?_eq hlt] at ho
          have hkept := (hs.kept key o).mpr ⟨hlt, ho⟩
          rw [hnew key hkey] at hkept
          cases hkept
        · rfl
    · rw [hs.kept]
      constructor
      · rintro ⟨hlt, ho⟩
        exact ⟨.inl hlt, by rw [hgrows.key?_eq hlt, ho]⟩
      · rintro ⟨hlt | rfl, ho⟩
        · exact ⟨hlt, by rw [← hgrows.key?_eq hlt, ho]⟩
        · exact (hkey ho).elim
  · intro o ho
    rcases (hcases o).mp ho with hlt | rfl
    · rw [h.object_of_lt hlt]
      exact hs.fits o hlt
    · rwa [h.object_size]
  · intro o ho name hname
    rcases (hcases o).mp ho with hlt | rfl
    · rw [h.object_of_lt hlt] at hname ⊢
      exact hs.declared o hlt name hname
    · rw [h.object_size] at hname ⊢
      exact hdeclared name hname

end Adding

structure Gives (g : Graph) (s : HandleStore) (c : Asking ObjectId) (o : ObjectId)
    (s' : HandleStore) : Prop where
  outcome : c.outcome s = (.ok o, s')
  grows : s.Grows s'
  sound : s'.IsSound g
  lt : o < s'.size

section Creating

theorem gives_create (hs : s.IsSound g) (node : ObjectId → ObjectNode)
    (horigin : (node s.size).origin? = some s.size) (hfits : (node s.size).Fits g s.size) :
    ∃ s', Gives g s (Asking.create none node) s.size s' ∧
      s'.object s.size = ⟨none, node s.size, false⟩ := by
  let x : HandleObject := ⟨none, node s.size, false⟩
  let s' : HandleStore := { s with objects := s.objects ++ [x] }
  have hobject : s'.object s.size = x := object_size rfl
  have hkey : s'.key? s.size = none := by
    unfold key?
    rw [hobject]
    exact if_pos horigin
  have hadds : s.Adds x s' := ⟨rfl, fun _ => by rw [hkey]; rfl⟩
  refine ⟨s', ⟨rfl, hadds.grows rfl, ?_, ?_⟩, hobject⟩
  · apply hadds.isSound hs rfl
    · intro key hkey'
      rw [hkey] at hkey'
      cases hkey'
    · exact hfits
    · intro name hname
      cases hname
  · rw [hadds.size]
    exact Nat.lt_succ_self _

theorem gives_createKept (hs : s.IsSound g) {key : HandleKey} (name : Option String)
    (node : ObjectId → ObjectNode) (hnone : s.kept.lookup key = none)
    (hkey : ∀ s' : HandleStore, s'.object s.size = ⟨name, node s.size, false⟩ →
      s'.key? s.size = some key)
    (hfits : (node s.size).Fits g s.size)
    (hdeclared : ∀ n ∈ name, (g.declaration? n).isSome ∧
      ∃ backing, g.resolve (.text n) = .ok backing ∧ node s.size = .ofBacking s.size backing) :
    ∃ s', Gives g s (Asking.createKept key name node) s.size s' ∧
      s'.object s.size = ⟨name, node s.size, false⟩ := by
  let x : HandleObject := ⟨name, node s.size, false⟩
  let s' : HandleStore :=
    { objects := s.objects ++ [x], kept := s.kept ++ [(key, s.size)] }
  have hobject : s'.object s.size = x := object_size rfl
  have hadds : s.Adds x s' := by
    refine ⟨rfl, ?_⟩
    intro key'
    rw [hkey s' hobject, List.lookup_append]
    by_cases heq : key = key'
    · subst heq
      rw [if_pos rfl, hnone]
      simp
    · rw [if_neg fun h => heq (Option.some.inj h)]
      have hbeq : (key' == key) = false := beq_eq_false_iff_ne.mpr (Ne.symm heq)
      simp [List.lookup, hbeq]
  refine ⟨s', ⟨rfl, hadds.grows rfl, ?_, ?_⟩, hobject⟩
  · apply hadds.isSound hs rfl
    · intro key' hkey'
      rw [hkey s' hobject] at hkey'
      cases hkey'
      exact hnone
    · exact hfits
    · exact hdeclared
  · rw [hadds.size]
    exact Nat.lt_succ_self _

end Creating

theorem IsSound.gives_kept (hs : s.IsSound g) {key : HandleKey}
    (hkept : s.kept.lookup key = some o) :
    Gives g s (pure o) o s ∧ s.key? o = some key := by
  obtain ⟨ho, hkey⟩ := (hs.kept key o).mp hkept
  exact ⟨⟨rfl, .refl s, hs, ho⟩, hkey⟩

theorem IsSound.exists_atNode (hs : s.IsSound g) {n : ObjectNode} (hfits : n.Fits g s.size)
    (horigin : n.origin? ≠ some s.size) :
    ∃ o s', Gives g s (Asking.atNode n) o s' ∧ s'.key? o = some (.node n) := by
  cases hkept : s.kept.lookup (.node n) with
  | some o =>
    obtain ⟨hgives, hkey⟩ := hs.gives_kept hkept
    refine ⟨o, s, ⟨?_, hgives.grows, hs, hgives.lt⟩, hkey⟩
    rw [Asking.atNode, Asking.outcome_kept?_bind, hkept]
    exact hgives.outcome
  | none =>
    have hkey : ∀ s' : HandleStore, s'.object s.size = ⟨none, n, false⟩ →
        s'.key? s.size = some (.node n) := by
      intro s' hobject
      rw [key?_eq_node_iff, hobject]
      exact ⟨rfl, rfl, horigin⟩
    obtain ⟨s', hgives, hobject⟩ := gives_createKept hs none (fun _ => n) hkept hkey hfits
      fun _ hn => by cases hn
    refine ⟨s.size, s', ⟨?_, hgives.grows, hgives.sound, hgives.lt⟩, hkey s' hobject⟩
    rw [Asking.atNode, Asking.outcome_kept?_bind, hkept]
    exact hgives.outcome

section Declarations

/-- What a specification comes to is a mapping of the document, or a text. -/
theorem mapping?_of_resolveWithin {free : List String} {spec : Value} {id : NodeId}
    (h : g.resolveWithin free spec = .ok (.node id)) : (g.doc.mapping? (.node id)).isSome := by
  induction free, spec using Graph.resolveWithin.induct g with
  | case1 free name hnone =>
    rw [Graph.resolveWithin] at h
    simp [hnone] at h
  | case2 free name spec hsome hmem ih =>
    rw [Graph.resolveWithin] at h
    simp only [hsome, dif_pos hmem] at h
    exact ih h
  | case3 free name spec hsome hmem =>
    rw [Graph.resolveWithin] at h
    simp [hsome, hmem] at h
  | case4 free v id' hv hid' =>
    obtain ⟨rfl, -⟩ := Document.mapping?_eq_some hid'
    rw [Graph.resolveWithin.eq_def] at h
    simp only [hid'] at h
    cases h
    rw [hid']
    rfl
  | case5 free v hv hnone =>
    rw [Graph.resolveWithin.eq_def] at h
    cases v with
    | text name => exact (hv name rfl).elim
    | _ => simp [hnone] at h

theorem fits_ofBacking {spec : Value} {backing : Backing} (h : g.resolve spec = .ok backing)
    (size : Nat) : (ObjectNode.ofBacking size backing).Fits g size := by
  cases backing with
  | node id => exact .document (mapping?_of_resolveWithin h)
  | literal text => exact .literal (Nat.le_refl size)

/-- An object with a declared name stands for the handle of that name. -/
theorem IsSound.handle_eq (hs : s.IsSound g) (ho : o < s.size) {name : String}
    (hname : (s.object o).name = some name) : g.handle (.text name) = .ok (s.view o) := by
  obtain ⟨hsome, backing, hresolve, hnode⟩ := hs.declared o ho name hname
  obtain ⟨spec, hspec⟩ := Option.isSome_iff_exists.mp hsome
  have hhandle : g.handle (.text name) = .ok (.declared name backing) := by
    simp only [Graph.handle, hspec, hresolve]
    rfl
  rw [hhandle]
  cases backing with
  | node id =>
    rw [view_of_document hnode, hname]
    rfl
  | literal text =>
    rw [view_of_literal hnode, hname]
    rfl

/-- The object for a declared name, unless the names that it is declared as have no end. -/
theorem IsSound.exists_atDeclaration (hs : s.IsSound g) {name : String}
    (hname : (g.declaration? name).isSome) :
    (∃ e, g.handle (.text name) = .error e ∧
      (Asking.atDeclaration g name).outcome s = (.error e, s)) ∨
    ∃ o s', Gives g s (Asking.atDeclaration g name) o s' ∧
      s'.key? o = some (.declaration name) := by
  obtain ⟨spec, hspec⟩ := Option.isSome_iff_exists.mp hname
  have hhandle : g.handle (.text name) = (g.resolve (.text name)).map (.declared name) := by
    simp only [Graph.handle, hspec]
  cases hkept : s.kept.lookup (.declaration name) with
  | some o =>
    obtain ⟨hgives, hkey⟩ := hs.gives_kept hkept
    refine .inr ⟨o, s, ⟨?_, hgives.grows, hs, hgives.lt⟩, hkey⟩
    rw [Asking.atDeclaration, Asking.outcome_kept?_bind, hkept]
    exact hgives.outcome
  | none =>
    cases hresolve : g.resolve (.text name) with
    | error e =>
      refine .inl ⟨e, by rw [hhandle, hresolve]; rfl, ?_⟩
      rw [Asking.atDeclaration, Asking.outcome_kept?_bind, hkept, hresolve]
      rfl
    | ok backing =>
      have hkey : ∀ s' : HandleStore,
          s'.object s.size = ⟨some name, .ofBacking s.size backing, false⟩ →
            s'.key? s.size = some (.declaration name) := by
        intro s' hobject
        rw [key?_eq_declaration_iff, hobject]
      have hdeclared : ∀ n ∈ some name, (g.declaration? n).isSome ∧ ∃ backing',
          g.resolve (.text n) = .ok backing' ∧
            ObjectNode.ofBacking s.size backing = .ofBacking s.size backing' := by
        intro n hn
        cases hn
        exact ⟨hname, backing, hresolve, rfl⟩
      obtain ⟨s', hgives, hobject⟩ := gives_createKept hs (some name)
        (fun o => .ofBacking o backing) hkept hkey (fits_ofBacking hresolve s.size) hdeclared
      refine .inr ⟨s.size, s', ⟨?_, hgives.grows, hgives.sound, hgives.lt⟩, hkey s' hobject⟩
      rw [Asking.atDeclaration, Asking.outcome_kept?_bind, hkept, hresolve]
      exact hgives.outcome

end Declarations

section Handles

/-- An object is handed over for a specification: it stands for its handle, and is kept unless that
is made anew. -/
structure GivesHandle (g : Graph) (s : HandleStore) (v : Value) (c : Asking ObjectId) (o : ObjectId)
    (s' : HandleStore) : Prop extends Gives g s c o s' where
  view : g.handle v = .ok (s'.view o)
  key : s'.key? o = g.keyOf? v
  idle : s'.IsIdle o
  fresh : g.keyOf? v = none → o = s.size

theorem IsSound.exists_literal (hs : s.IsSound g) {v : Value} {text : String}
    (hview : g.handle v = .ok (.leaf text)) (hkey : g.keyOf? v = none) :
    ∃ s', GivesHandle g s v (Asking.create none fun o => .literal o text) s.size s' := by
  obtain ⟨s', hgives, hobject⟩ := gives_create hs (fun o => .literal o text) rfl
    (.literal (Nat.le_refl _))
  have hnode : (s'.object s.size).node = .literal s.size text := by rw [hobject]
  refine ⟨s', hgives, ?_, ?_, ?_, fun _ => rfl⟩
  · rw [hview, view_of_literal hnode, hobject]
    rfl
  · rw [hkey, key?, hobject]
    exact if_pos rfl
  · refine .made (by rw [hobject]) ?_
    rw [hobject]
    intro m hm
    cases hm

theorem IsSound.exists_mapping (hs : s.IsSound g) {v : Value} {id : NodeId}
    (hid : g.doc.mapping? v = some id) (hview : g.handle v = .ok (.anonymous id)) :
    ∃ o s', GivesHandle g s v (Asking.atNode (.document id)) o s' := by
  obtain ⟨rfl, -⟩ := Document.mapping?_eq_some hid
  have hfits : (ObjectNode.document id).Fits g s.size := .document (by rw [hid]; rfl)
  have hkey : g.keyOf? (.node id) = some (.node (.document id)) := by
    simp only [Graph.keyOf?, hid, Option.map_some]
  obtain ⟨o, s', hgives, hkept⟩ := hs.exists_atNode hfits (by simp [ObjectNode.origin?])
  obtain ⟨hname, hnode, -⟩ := key?_eq_node_iff.mp hkept
  refine ⟨o, s', hgives, ?_, ?_, ?_, ?_⟩
  · rw [hview, view_of_document hnode, hname]
    rfl
  · rw [hkept, hkey]
  · refine .known (i := .node id) ?_
    simp only [HandleObject.identity?, hname, hnode]
  · intro hnone
    rw [hkey] at hnone
    cases hnone

theorem IsSound.exists_declared (hs : s.IsSound g) {name : String}
    (hname : (g.declaration? name).isSome) :
    (∃ e, g.handle (.text name) = .error e ∧
      (Asking.atDeclaration g name).outcome s = (.error e, s)) ∨
    ∃ o s', GivesHandle g s (.text name) (Asking.atDeclaration g name) o s' := by
  have hkey : g.keyOf? (.text name) = some (.declaration name) := if_pos hname
  rcases hs.exists_atDeclaration hname with herror | ⟨o, s', hgives, hkept⟩
  · exact .inl herror
  · have hobject := key?_eq_declaration_iff.mp hkept
    refine .inr ⟨o, s', hgives, ?_, ?_, ?_, ?_⟩
    · exact hgives.sound.handle_eq hgives.lt hobject
    · rw [hkept, hkey]
    · refine .known (i := .declaration name) ?_
      simp only [HandleObject.identity?, hobject]
    · intro hnone
      rw [hkey] at hnone
      cases hnone

/-- The object for a specification, unless it names a declaration that has no end. -/
theorem IsSound.handle_cases (hs : s.IsSound g) (v : Value) :
    (∃ e, g.handle v = .error e ∧ (Asking.handle g v).outcome s = (.error e, s)) ∨
    ∃ o s', GivesHandle g s v (Asking.handle g v) o s' := by
  cases hid : g.doc.mapping? v with
  | some id =>
    obtain ⟨rfl, -⟩ := Document.mapping?_eq_some hid
    have hasking : Asking.handle g (.node id) = Asking.atNode (.document id) := by
      simp only [Asking.handle, hid]
    rw [hasking]
    exact .inr (hs.exists_mapping hid (by simp only [Graph.handle, hid]))
  | none =>
    cases v with
    | text name =>
      cases hspec : g.declaration? name with
      | some spec =>
        have hasking : Asking.handle g (.text name) = Asking.atDeclaration g name := by
          simp only [Asking.handle, hspec]
        rw [hasking]
        exact hs.exists_declared (by rw [hspec]; rfl)
      | none =>
        have hasking : Asking.handle g (.text name) =
            Asking.create none fun o => .literal o name := by
          simp only [Asking.handle, hspec]
        rw [hasking]
        refine .inr ⟨s.size, hs.exists_literal ?_ ?_⟩
        · simp only [Graph.handle, hspec]
        · simp only [Graph.keyOf?, hspec]
          rfl
    | _ =>
      unfold Asking.handle
      simp only [hid]
      refine .inr ⟨s.size, hs.exists_literal ?_ ?_⟩
      · simp only [Graph.handle, hid]
      · simp only [Graph.keyOf?, hid]
        rfl

end Handles

end HandleStore

end RouteCatalog
