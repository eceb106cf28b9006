import RouteCatalog.Graph.Objects
import RouteCatalog.Proofs.NestedMappings
import RouteCatalog.Proofs.Property

/-! The objects behind handles. Whatever is asked, every object stays as it is and keeps standing for
the handle that it stood for, no new object is marked, and an object is kept under what tells it from
the others. A question to objects mirrors one to handles if it comes to the same under this view. -/

namespace RouteCatalog

variable {g : Graph} {s s' s'' : HandleStore} {o o' : ObjectId}

namespace HandleStore

structure Grows (s s' : HandleStore) : Prop where
  size : s.size ≤ s'.size
  object : ∀ o < s.size, s'.object o = s.object o
  unmarked : ∀ o, s.size ≤ o → (s'.object o).isMarked = false

end HandleStore

theorem HandleObject.identity?_eq_none_iff {x : HandleObject} :
    x.identity? = none ↔ x.name = none ∧ ∀ id, x.node ≠ .document id := by
  obtain ⟨name, node, isMarked⟩ := x
  cases name <;> cases node <;> simp [identity?]

namespace ObjectNode

def members : ObjectNode → List ObjectId
  | merged _ members => members
  | _ => []

/-- A mapping that a further object of a store may have: those that it refers to are there. -/
structure Fits (g : Graph) (size : Nat) (n : ObjectNode) : Prop where
  origin : ∀ origin ∈ n.origin?, origin ≤ size
  members : ∀ m ∈ n.members, m < size
  mapping : ∀ id, n = .document id → (g.doc.mapping? (.node id)).isSome

theorem Fits.mono {size size' : Nat} {n : ObjectNode} (h : n.Fits g size) (hle : size ≤ size') :
    n.Fits g size' := by
  refine ⟨?_, ?_, h.mapping⟩
  · intro origin horigin
    exact (h.origin origin horigin).trans hle
  · intro m hm
    exact (h.members m hm).trans_le hle

theorem Fits.document {size : Nat} {id : NodeId} (h : (g.doc.mapping? (.node id)).isSome) :
    (document id).Fits g size := by
  refine ⟨?_, ?_, ?_⟩
  · intro origin horigin
    cases horigin
  · intro m hm
    cases hm
  · intro id' heq
    cases heq
    exact h

theorem Fits.literal {size : Nat} {origin : ObjectId} {text : String} (h : origin ≤ size) :
    (literal origin text).Fits g size := by
  refine ⟨?_, ?_, ?_⟩
  · intro origin' horigin
    cases horigin
    exact h
  · intro m hm
    cases hm
  · intro id heq
    cases heq

theorem Fits.merged {size : Nat} {origin : ObjectId} {ms : List ObjectId} (h : origin ≤ size)
    (hms : ∀ m ∈ ms, m < size) : (merged origin ms).Fits g size := by
  refine ⟨?_, hms, ?_⟩
  · intro origin' horigin
    cases horigin
    exact h
  · intro id heq
    cases heq

end ObjectNode

namespace HandleStore

/-- The objects that are kept are all that can be, each under its own name or mapping; the mapping of a
declared name is the one that it comes to; and mappings refer to what was there before. -/
structure IsSound (g : Graph) (s : HandleStore) : Prop where
  kept : ∀ key o, s.kept.lookup key = some o ↔ o < s.size ∧ s.key? o = some key
  fits : ∀ o < s.size, (s.object o).node.Fits g o
  declared : ∀ o < s.size, ∀ name ∈ (s.object o).name, (g.declaration? name).isSome ∧
    ∃ backing, g.resolve (.text name) = .ok backing ∧ (s.object o).node = .ofBacking o backing

/-- No object without an identity is being rendered among those that an object is merged from. -/
inductive IsIdle (s : HandleStore) : ObjectId → Prop where
  | known {o : ObjectId} {i : Identity} : (s.object o).identity? = some i → IsIdle s o
  | made {o : ObjectId} : (s.object o).isMarked = false →
      (∀ m ∈ (s.object o).node.members, IsIdle s m) → IsIdle s o

section Growth

theorem object_of_size_le (h : s.size ≤ o) : s.object o = ⟨none, .literal o "", false⟩ := by
  rw [object, List.getD_eq_default _ _ h]

theorem Grows.refl (s : HandleStore) : s.Grows s := by
  refine ⟨Nat.le_refl _, fun _ _ => rfl, ?_⟩
  intro o ho
  rw [object_of_size_le ho]

theorem Grows.trans (h : s.Grows s') (h' : s'.Grows s'') : s.Grows s'' := by
  refine ⟨h.size.trans h'.size, ?_, ?_⟩
  · intro o ho
    rw [h'.object o (ho.trans_le h.size), h.object o ho]
  · intro o ho
    by_cases hold : o < s'.size
    · rw [h'.object o hold]
      exact h.unmarked o ho
    · exact h'.unmarked o (Nat.le_of_not_lt hold)

theorem Grows.key?_eq (h : s.Grows s') (ho : o < s.size) : s'.key? o = s.key? o := by
  simp only [key?, h.object o ho]

theorem view_of_document {id : NodeId} (hnode : (s.object o).node = .document id) :
    s.view o = ((s.object o).name.elim (.anonymous id) fun name => .declared name (.node id)) := by
  rw [view, hnode]
  cases (s.object o).name <;> rfl

theorem view_of_literal {origin : ObjectId} {text : String}
    (hnode : (s.object o).node = .literal origin text) :
    s.view o = ((s.object o).name.elim (.leaf text) fun name => .declared name (.literal text)) := by
  rw [view, hnode]
  cases (s.object o).name <;> rfl

theorem view_of_merged {origin : ObjectId} {members : List ObjectId}
    (hnode : (s.object o).node = .merged origin members) (hmembers : ∀ m ∈ members, m < o) :
    s.view o = .merged (members.map s.view) := by
  rw [view, hnode]
  refine congrArg Handle.merged (List.map_congr_left ?_)
  intro m hm
  rw [dif_pos (hmembers m hm)]

/-- An object stands for the same handle in every store where it and those before it are the same,
apart from marks. -/
theorem view_congr (hsame : ∀ p ≤ o, (s'.object p).name = (s.object p).name ∧
    (s'.object p).node = (s.object p).node) : s'.view o = s.view o := by
  induction o using Nat.strong_induction_on with
  | _ o ih =>
    obtain ⟨hname, hnode⟩ := hsame o (Nat.le_refl o)
    rw [view, view, hname, hnode]
    split
    · rfl
    · rfl
    · rfl
    · rfl
    · refine congrArg Handle.merged (List.map_congr_left ?_)
      intro m _
      split
      · rename_i hm
        exact ih m hm fun p hp => hsame p (hp.trans (Nat.le_of_lt hm))
      · rfl

theorem Grows.view_eq (h : s.Grows s') (ho : o < s.size) : s'.view o = s.view o := by
  apply view_congr
  intro p hp
  rw [h.object p (hp.trans_lt ho)]
  exact ⟨rfl, rfl⟩

theorem IsSound.view_merged (hs : s.IsSound g) (ho : o < s.size) {origin : ObjectId}
    {members : List ObjectId} (hnode : (s.object o).node = .merged origin members) :
    s.view o = .merged (members.map s.view) := by
  apply view_of_merged hnode
  have hfits := (hs.fits o ho).members
  rw [hnode] at hfits
  exact hfits

theorem IsIdle.grows (hs : s.IsSound g) (h : s.Grows s') (ho : o < s.size) (hidle : s.IsIdle o) :
    s'.IsIdle o := by
  induction hidle with
  | @known o i hi => exact .known (i := i) (by rw [h.object o ho, hi])
  | @made o hmark _ ih =>
    refine .made (by rw [h.object o ho, hmark]) ?_
    intro m hm
    rw [h.object o ho] at hm
    exact ih m hm (((hs.fits o ho).members m hm).trans ho)

end Growth

section Identity

theorem key?_eq_declaration_iff {name : String} :
    s.key? o = some (.declaration name) ↔ (s.object o).name = some name := by
  unfold key?
  cases (s.object o).name with
  | none =>
    simp only
    split <;> simp
  | some name' => simp

theorem key?_eq_node_iff {n : ObjectNode} : s.key? o = some (.node n) ↔
    (s.object o).name = none ∧ (s.object o).node = n ∧ n.origin? ≠ some o := by
  unfold key?
  cases (s.object o).name with
  | none =>
    simp only
    split_ifs with horigin
    · simp only [true_and, false_iff, not_and, not_not]
      rintro rfl
      exact horigin
    · simp only [Option.some.injEq, HandleKey.node.injEq, true_and]
      constructor
      · rintro rfl
        exact ⟨rfl, horigin⟩
      · exact fun h => h.1
  | some name => simp

def keyOf : Identity → HandleKey
  | .declaration name => .declaration name
  | .node id => .node (.document id)

theorem key?_of_identity {i : Identity} (hi : (s.object o).identity? = some i) :
    s.key? o = some (keyOf i) := by
  unfold HandleObject.identity? at hi
  split at hi
  · rename_i name hname
    cases hi
    exact key?_eq_declaration_iff.mpr hname
  · rename_i id hname hnode
    cases hi
    exact key?_eq_node_iff.mpr ⟨hname, hnode, by simp [ObjectNode.origin?]⟩
  · cases hi

theorem IsSound.eq_of_key (hs : s.IsSound g) {key : HandleKey} (ho : o < s.size) (ho' : o' < s.size)
    (hkey : s.key? o = some key) (hkey' : s.key? o' = some key) : o = o' := by
  have hkept := (hs.kept key o).mpr ⟨ho, hkey⟩
  have hkept' := (hs.kept key o').mpr ⟨ho', hkey'⟩
  exact Option.some.inj (hkept.symm.trans hkept')

theorem IsSound.eq_of_identity (hs : s.IsSound g) (ho : o < s.size) (ho' : o' < s.size)
    {i : Identity} (hi : (s.object o).identity? = some i) (hi' : (s.object o').identity? = some i) :
    o = o' :=
  hs.eq_of_key ho ho' (key?_of_identity hi) (key?_of_identity hi')

end Identity

section Marking

theorem size_setMark (s : HandleStore) (o : ObjectId) (b : Bool) : (s.setMark o b).size = s.size :=
  List.length_modify ..

theorem object_setMark (ho : o < s.size) (b : Bool) (o' : ObjectId) : (s.setMark o b).object o' =
    if o' = o then { s.object o with isMarked := b } else s.object o' := by
  unfold setMark object
  simp only [List.getD_eq_getElem?_getD, List.getElem?_modify]
  split_ifs with h h' h'
  · subst h
    rw [List.getElem?_eq_getElem ho]
    rfl
  · exact (h' h.symm).elim
  · exact (h h'.symm).elim
  · cases s.objects[o']? <;> rfl

theorem same_setMark (ho : o < s.size) (b : Bool) (o' : ObjectId) :
    ((s.setMark o b).object o').name = (s.object o').name ∧
      ((s.setMark o b).object o').node = (s.object o').node := by
  rw [object_setMark ho]
  split_ifs with h
  · rw [h]
    exact ⟨rfl, rfl⟩
  · exact ⟨rfl, rfl⟩

theorem view_setMark (ho : o < s.size) (b : Bool) (o' : ObjectId) :
    (s.setMark o b).view o' = s.view o' :=
  view_congr fun p _ => same_setMark ho b p

theorem identity?_setMark (ho : o < s.size) (b : Bool) (o' : ObjectId) :
    ((s.setMark o b).object o').identity? = (s.object o').identity? := by
  obtain ⟨hname, hnode⟩ := same_setMark ho b o'
  simp only [HandleObject.identity?, hname, hnode]

theorem IsSound.setMark (hs : s.IsSound g) (ho : o < s.size) (b : Bool) :
    (s.setMark o b).IsSound g := by
  have hkey : ∀ o', (s.setMark o b).key? o' = s.key? o' := by
    intro o'
    obtain ⟨hname, hnode⟩ := same_setMark ho b o'
    simp only [key?, hname, hnode]
  refine ⟨?_, ?_, ?_⟩
  · intro key o'
    rw [size_setMark, hkey]
    exact hs.kept key o'
  · intro o' ho'
    rw [size_setMark] at ho'
    rw [(same_setMark ho b o').2]
    exact hs.fits o' ho'
  · intro o' ho' name hname
    rw [size_setMark] at ho'
    rw [(same_setMark ho b o').1] at hname
    rw [(same_setMark ho b o').2]
    exact hs.declared o' ho' name hname

/-- Marking an object disturbs none that is merged from others. -/
theorem IsIdle.setMark (hs : s.IsSound g) (ho : o < s.size) (b : Bool) {m : ObjectId}
    (hm : m < s.size) (hother : m < o ∨ (s.object o).identity? ≠ none) (hidle : s.IsIdle m) :
    (s.setMark o b).IsIdle m := by
  induction hidle with
  | @known m i hi => exact .known (i := i) (by rw [identity?_setMark ho, hi])
  | @made m hmark _ ih =>
    by_cases hknown : (s.object m).identity? = none
    · have hne : m ≠ o := by
        rintro rfl
        rcases hother with hlt | hknown'
        · exact lt_irrefl m hlt
        · exact hknown' hknown
      have hsame : (s.setMark o b).object m = s.object m := by rw [object_setMark ho, if_neg hne]
      refine .made (by rw [hsame, hmark]) ?_
      intro m' hm'
      rw [hsame] at hm'
      have hlt := (hs.fits m hm).members m' hm'
      refine ih m' hm' (hlt.trans hm) ?_
      rcases hother with hlt' | hknown'
      · exact .inl (hlt.trans hlt')
      · exact .inr hknown'
    · obtain ⟨i, hi⟩ := Option.ne_none_iff_exists'.mp hknown
      exact .known (i := i) (by rw [identity?_setMark ho, hi])

/-- A mark that is put on and taken off again leaves no trace. -/
theorem Grows.of_setMark (ho : o < s.size) (hmark : (s.object o).isMarked = false)
    (h : (s.setMark o true).Grows s') : s.Grows (s'.setMark o false) := by
  have hsize := h.size
  rw [size_setMark] at hsize
  have ho' : o < s'.size := ho.trans_le hsize
  have hobject : ∀ p < s.size, s'.object p = (s.setMark o true).object p := by
    intro p hp
    exact h.object p (by rwa [size_setMark])
  refine ⟨by rwa [size_setMark], ?_, ?_⟩
  · intro p hp
    rw [object_setMark ho']
    split_ifs with hp'
    · subst hp'
      rw [hobject p ho, object_setMark ho, if_pos rfl]
      exact congrArg (HandleObject.mk _ _) hmark.symm
    · rw [hobject p hp, object_setMark ho, if_neg hp']
  · intro p hp
    have hne : p ≠ o := (ho.trans_le hp).ne'
    rw [object_setMark ho', if_neg hne]
    exact h.unmarked p (by rwa [size_setMark])

end Marking

end HandleStore

end RouteCatalog
