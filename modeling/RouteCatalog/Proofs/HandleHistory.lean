import RouteCatalog.Graph.ObjectHistory
import RouteCatalog.Proofs.HandleRendering

/-! Histories of the objects of a graph. Whatever has been asked, and whatever has failed, nothing is
left marked, an object is told from others by its declared name or its mapping, and every answer is
the one that a graph gives that has not been asked anything. -/

namespace RouteCatalog

variable {g : Graph} {s s' : HandleStore} {o : ObjectId}

section Answers

variable {η θ : Type}

def HandleAnswer.contents : HandleAnswer η → List η
  | kind _ => []
  | type t => t.toList
  | types ts => ts
  | properties ps => ps.map fun p => p.2.1
  | count _ => []
  | symbol s => s.toList.flatMap Prod.snd
  | label _ => []

theorem HandleAnswer.map_congr {f f' : η → θ} {a : HandleAnswer η}
    (h : ∀ t ∈ a.contents, f t = f' t) : a.map f = a.map f' := by
  cases a with
  | kind stated => rfl
  | type t => exact congrArg type (Option.map_congr fun t' ht => h t' (Option.mem_toList.mpr ht))
  | types ts => exact congrArg types (List.map_congr_left h)
  | properties ps =>
    refine congrArg properties (List.map_congr_left ?_)
    intro p hp
    rw [h p.2.1 (List.mem_map_of_mem hp)]
  | count n => rfl
  | symbol s =>
    refine congrArg symbol (Option.map_congr ?_)
    intro x hx
    refine congrArg (Prod.mk x.1) (List.map_congr_left ?_)
    intro t ht
    exact h t (List.mem_flatMap.mpr ⟨x, Option.mem_toList.mpr hx, ht⟩)
  | label l => rfl

def Reading.answer (g : Graph) : Reading g (HandleAnswer ObjectId) (HandleAnswer Handle) where
  read s a := a.map s.view
  Holds s a := (object g).list.Holds s a.contents
  read_eq h ha := HandleAnswer.map_congr fun o ho => (object g).read_eq h (ha o ho)
  grows hs h ha := (object g).list.grows hs h ha

end Answers

theorem HandleCall.IsPossible.grows {call : HandleCall} (hcall : call.IsPossible s)
    (h : s.Grows s') : call.IsPossible s' := by
  match call with
  | .request (.spec _) => trivial
  | .request (.nodeOf _) => exact Nat.lt_of_lt_of_le hcall h.size
  | .request (.object _) => exact Nat.lt_of_lt_of_le hcall h.size
  | .query _ _ => exact Nat.lt_of_lt_of_le hcall h.size

namespace HandleStore

/-- The store is sound and no object is being rendered. -/
structure IsResting (g : Graph) (s : HandleStore) : Prop where
  sound : s.IsSound g
  unmarked : ∀ o, (s.object o).isMarked = false

theorem isResting_empty (g : Graph) : ({} : HandleStore).IsResting g := by
  have hnone : ∀ o, ¬ o < ({} : HandleStore).size := fun o ho => Nat.not_lt_zero o ho
  refine ⟨⟨?_, ?_, ?_⟩, fun o => rfl⟩
  · intro key o
    constructor
    · intro h
      cases h
    · exact fun h => (hnone o h.1).elim
  · exact fun o ho => (hnone o ho).elim
  · exact fun o ho => (hnone o ho).elim

theorem IsResting.grows (hrest : s.IsResting g) (h : s.Grows s') (hs' : s'.IsSound g) :
    s'.IsResting g := by
  refine ⟨hs', ?_⟩
  intro o
  by_cases ho : o < s.size
  · rw [h.object o ho, hrest.unmarked]
  · exact h.unmarked o (Nat.le_of_not_lt ho)

theorem IsResting.holds (hrest : s.IsResting g) (ho : o < s.size) :
    (Reading.object g).Holds s o := by
  refine ⟨ho, ?_⟩
  induction o using Nat.strong_induction_on with
  | _ o ih =>
    refine .made (hrest.unmarked o) ?_
    intro m hm
    have hlt := (hrest.sound.fits o ho).members m hm
    exact ih m hlt (hlt.trans ho)

end HandleStore

section Queries

/-- Every question to an object is answered as it is for its handle. -/
theorem mirrors_answer (hrest : s.IsResting g) (ho : o < s.size) (q : HandleQuery) :
    Mirrors (.answer g) s (Asking.answer g q o) (g.answer q (s.view o)) := by
  have hs := hrest.sound
  have hholds := hrest.holds ho
  have hparts := hholds.2.hasIdleParts hs ho
  cases q with
  | kind =>
    have hkind : g.statedKind (s.view o) = Asking.statedKind g (s.object o) := by
      rw [Graph.statedKind, HandleStore.field?_view, Asking.statedKind]
    rw [Graph.answer, hkind]
    exact .look (.pure hs (fun _ h => by cases h) rfl)
  | element =>
    refine (mirrors_single hs "element").map ?_
    intro t s' _ hs' ht
    exact .pure hs' (fun t' ht' => ht t' (Option.mem_toList.mp ht')) rfl
  | numberIndex =>
    refine (mirrors_single hs "number_index").map ?_
    intro t s' _ hs' ht
    exact .pure hs' (fun t' ht' => ht t' (Option.mem_toList.mp ht')) rfl
  | elements =>
    refine (mirrors_several hs "elements").map ?_
    intro ts s' _ hs' hts
    exact .pure (R := .answer g) (a := .types ts) hs' hts rfl
  | members =>
    refine (mirrors_members hs ho hparts).map ?_
    intro ts s' _ hs' hts
    exact .pure (R := .answer g) (a := .types ts) hs' hts rfl
  | properties =>
    refine (mirrors_properties hs ho hparts).map ?_
    intro ps s' _ hs' hps
    refine .pure hs' ?_ ?_
    · intro t ht
      obtain ⟨e, he, rfl⟩ := List.mem_map.mp ht
      obtain ⟨p, hp, rfl⟩ := List.mem_map.mp he
      exact hps p hp
    · simp [Reading.answer, HandleAnswer.map, Reading.list, Reading.property]
  | callSignatures =>
    refine (mirrors_callSignatures hs).map ?_
    intro n s' _ hs' _
    exact .pure hs' (fun _ h => by cases h) rfl
  | symbol =>
    refine (mirrors_symbol hs ho).map ?_
    intro x s' _ hs' hx
    refine .pure hs' ?_ ?_
    · intro t ht
      obtain ⟨y, hy, ht⟩ := List.mem_flatMap.mp ht
      obtain ⟨x', hx', rfl⟩ := Option.mem_map.mp (Option.mem_toList.mp hy)
      exact hx x' hx' t ht
    · cases x <;> rfl
  | text =>
    refine (mirrors_text hs hrest.unmarked hholds).map ?_
    intro l s' _ hs' _
    exact .pure hs' (fun _ h => by cases h) rfl

theorem mirrors_handle_answer (hrest : s.IsResting g) (v : Value) (q : HandleQuery) :
    Mirrors (.answer g) s (Asking.handle g v >>= Asking.answer g q) (g.handle v >>= g.answer q) := by
  refine (Mirrors.handle hrest.sound v).bind ?_
  intro o s' hgrows hs' ho
  exact mirrors_answer (hrest.grows hgrows hs') ho.1 q

end Queries

namespace HandleStore

section Steps

/-- What is granted to a request: the object that it passes, or one that is kept under what it asks
for, or a new one. -/
structure Grants (g : Graph) (s : HandleStore) (r : HandleRequest) (o : ObjectId)
    (s' : HandleStore) : Prop extends Gives g s (Asking.request g r) o s' where
  object : ∀ p, r = .object p → o = p
  key : (∀ p, r ≠ .object p) → s'.key? o = r.key? g s
  fresh : (∀ p, r ≠ .object p) → r.key? g s = none → o = s.size

theorem IsSound.request_cases (hs : s.IsSound g) {r : HandleRequest}
    (hr : (HandleCall.request r).IsPossible s) :
    (∃ e, (Asking.request g r).outcome s = (.error e, s)) ∨ ∃ o s', Grants g s r o s' := by
  cases r with
  | spec v =>
    rcases hs.handle_cases v with ⟨e, -, hout⟩ | ⟨o, s', hgives⟩
    · exact .inl ⟨e, hout⟩
    · refine .inr ⟨o, s', hgives.toGives, ?_, fun _ => hgives.key, fun _ => hgives.fresh⟩
      intro p heq
      cases heq
  | nodeOf p =>
    have hfits := hs.fits p hr
    have horigin : (s.object p).node.origin? ≠ some s.size := by
      intro heq
      exact absurd (hfits.origin s.size heq) (Nat.not_le.mpr hr)
    obtain ⟨o, s', hgives, hkey⟩ := hs.exists_atNode (hfits.mono (Nat.le_of_lt hr)) horigin
    refine .inr ⟨o, s', ⟨?_, hgives.grows, hgives.sound, hgives.lt⟩, ?_, fun _ => hkey, ?_⟩
    · rw [Asking.request, Asking.outcome_look_bind]
      exact hgives.outcome
    · intro q heq
      cases heq
    · intro _ heq
      cases heq
  | object p =>
    refine .inr ⟨p, s, ⟨rfl, .refl s, hs, hr⟩, ?_, ?_, ?_⟩
    · intro q heq
      cases heq
      rfl
    · exact fun h => (h p rfl).elim
    · exact fun h => (h p rfl).elim

/-- A call adds objects and leaves nothing marked. -/
theorem IsResting.after (hrest : s.IsResting g) {call : HandleCall} (hcall : call.IsPossible s) :
    s.Grows (s.after g call) ∧ (s.after g call).IsResting g := by
  have hgrows : s.Grows (s.after g call) ∧ (s.after g call).IsSound g := by
    cases call with
    | request r =>
      change s.Grows ((Asking.request g r).outcome s).2 ∧ ((Asking.request g r).outcome s).2.IsSound g
      rcases hrest.sound.request_cases hcall with ⟨e, hout⟩ | ⟨o, s', hgrants⟩
      · rw [hout]
        exact ⟨.refl s, hrest.sound⟩
      · rw [hgrants.outcome]
        exact ⟨hgrants.grows, hgrants.sound⟩
    | query q o =>
      have h := mirrors_answer hrest hcall q
      exact ⟨h.grows, h.sound⟩
  exact ⟨hgrows.1, hrest.grows hgrows.1 hgrows.2⟩

theorem IsResting.afterAll (hrest : s.IsResting g) {calls : List HandleCall}
    (hcalls : s.ArePossible g calls) :
    s.Grows (s.afterAll g calls) ∧ (s.afterAll g calls).IsResting g := by
  induction calls generalizing s with
  | nil => exact ⟨.refl s, hrest⟩
  | cons call calls ih =>
    obtain ⟨hcall, hcalls⟩ := hcalls
    obtain ⟨hgrows, hrest₁⟩ := hrest.after hcall
    obtain ⟨hgrows', hrest'⟩ := ih hrest₁ hcalls
    exact ⟨hgrows.trans hgrows', hrest'⟩

end Steps

section Grants

theorem IsSound.of_mem_granted (hs : s.IsSound g) {call : HandleCall} (hcall : call.IsPossible s)
    {a : Grant} (ha : a ∈ s.granted g call) :
    Grants g s a.request a.object (s.after g call) ∧ a.key? = a.request.key? g s := by
  cases call with
  | query q o => cases ha
  | request r =>
    rcases hs.request_cases hcall with ⟨e, hout⟩ | ⟨o, s', hgrants⟩
    · simp [granted, hout] at ha
    · simp only [granted, hgrants.outcome, Option.mem_some_iff] at ha
      subst ha
      rw [HandleStore.after, hgrants.outcome]
      exact ⟨hgrants, rfl⟩

theorem IsResting.of_mem_grantedAll (hrest : s.IsResting g) {calls : List HandleCall}
    (hcalls : s.ArePossible g calls) {b : Grant} (hb : b ∈ s.grantedAll g calls) :
    ∃ t t', s.Grows t ∧ Grants g t b.request b.object t' ∧ b.key? = b.request.key? g t := by
  induction calls generalizing s with
  | nil => cases hb
  | cons call calls ih =>
    obtain ⟨hcall, hcalls⟩ := hcalls
    rcases List.mem_append.mp hb with hb | hb
    · obtain ⟨hgrants, hkey⟩ := hrest.sound.of_mem_granted hcall (Option.mem_toList.mp hb)
      exact ⟨s, _, .refl s, hgrants, hkey⟩
    · obtain ⟨hgrows, hrest₁⟩ := hrest.after hcall
      obtain ⟨t, t', ht, hgrants, hkey⟩ := ih hrest₁ hcalls hb
      exact ⟨t, t', hgrows.trans ht, hgrants, hkey⟩

/-- Two requests, one after the other, are granted the same object exactly if they match. -/
theorem Grants.object_eq_iff {a b : Grant} {t t' : HandleStore}
    (ha : Grants g s a.request a.object s') (hakey : a.key? = a.request.key? g s)
    (hb : Grants g t b.request b.object t') (hbkey : b.key? = b.request.key? g t)
    (hgrows : s'.Grows t) : a.object = b.object ↔ a.Matches b := by
  have hrun := hgrows.trans hb.grows
  have halt : a.object < t'.size := ha.lt.trans_le hrun.size
  have hasks : ∀ x u p, HandleRequest.object p = x → x.key? g u = none := by
    rintro _ u p rfl
    rfl
  constructor
  · intro heq
    by_cases hapass : ∃ p, a.request = .object p
    · obtain ⟨p, hp⟩ := hapass
      rw [ha.object p hp] at heq
      exact .inr (.inr (.inl (heq ▸ hp)))
    by_cases hbpass : ∃ p, b.request = .object p
    · obtain ⟨p, hp⟩ := hbpass
      rw [hb.object p hp] at heq
      exact .inr (.inr (.inr (heq ▸ hp)))
    -- Neither passes an object, so that the key of the object tells what was asked for.
    have hka : t'.key? a.object = a.key? := by
      rw [hrun.key?_eq ha.lt, hakey]
      exact ha.key (not_exists.mp hapass)
    have hkb : t'.key? b.object = b.key? := by
      rw [hbkey]
      exact hb.key (not_exists.mp hbpass)
    have hsame : a.key? = b.key? := by rw [← hka, heq, hkb]
    cases hkey : b.key? with
    | none =>
      have hfresh := hb.fresh (not_exists.mp hbpass) (hbkey ▸ hkey)
      have hold : a.object < t.size := ha.lt.trans_le hgrows.size
      rw [heq, hfresh] at hold
      exact (lt_irrefl _ hold).elim
    | some key =>
      cases key with
      | declaration name => exact .inl ⟨name, hsame.trans hkey, hkey⟩
      | node n => exact .inr (.inl ⟨n, hsame.trans hkey, hkey⟩)
  · have hkeyed : ∀ key, a.key? = some key → b.key? = some key → a.object = b.object := by
      intro key hak hbk
      have hapass : ∀ p, a.request ≠ .object p := by
        intro p hp
        rw [hakey, hasks _ s p hp.symm] at hak
        cases hak
      have hbpass : ∀ p, b.request ≠ .object p := by
        intro p hp
        rw [hbkey, hasks _ t p hp.symm] at hbk
        cases hbk
      have haobject : t'.key? a.object = some key := by
        rw [hrun.key?_eq ha.lt, ha.key hapass, ← hakey, hak]
      have hbobject : t'.key? b.object = some key := by rw [hb.key hbpass, ← hbkey, hbk]
      exact hb.sound.eq_of_key halt hb.lt haobject hbobject
    rintro (⟨name, hak, hbk⟩ | ⟨n, hak, hbk⟩ | hp | hp)
    · exact hkeyed _ hak hbk
    · exact hkeyed _ hak hbk
    · exact ha.object _ hp
    · exact (hb.object _ hp).symm

theorem IsResting.pairwise_grantedAll (hrest : s.IsResting g) {calls : List HandleCall}
    (hcalls : s.ArePossible g calls) :
    (s.grantedAll g calls).Pairwise fun a b => a.object = b.object ↔ a.Matches b := by
  induction calls generalizing s with
  | nil => exact .nil
  | cons call calls ih =>
    obtain ⟨hcall, hcalls⟩ := hcalls
    obtain ⟨hgrows, hrest₁⟩ := hrest.after hcall
    refine List.pairwise_append.mpr ⟨?_, ih hrest₁ hcalls, ?_⟩
    · cases s.granted g call with
      | none => exact .nil
      | some a => exact List.pairwise_singleton _ a
    · intro a ha b hb
      obtain ⟨hgranted, hakey⟩ := hrest.sound.of_mem_granted hcall (Option.mem_toList.mp ha)
      obtain ⟨t, t', ht, hgrants, hbkey⟩ := hrest₁.of_mem_grantedAll hcalls hb
      exact hgranted.object_eq_iff hakey hgrants hbkey ht

end Grants

theorem IsSound.hasKey (hs : s.IsSound g) {key : HandleKey} (hkept : s.kept.lookup key = some o) :
    o < s.size ∧ s.HasKey g o key := by
  obtain ⟨ho, hkey⟩ := (hs.kept key o).mp hkept
  refine ⟨ho, ?_⟩
  cases key with
  | declaration name =>
    have hname := key?_eq_declaration_iff.mp hkey
    exact ⟨hname, (hs.declared o ho name hname).2⟩
  | node n =>
    obtain ⟨hname, hnode, -⟩ := key?_eq_node_iff.mp hkey
    exact ⟨hname, hnode⟩

theorem IsResting.arePossible (hrest : s.IsResting g) {calls : List HandleCall}
    (hcalls : ∀ call ∈ calls, call.IsPossible s) : s.ArePossible g calls := by
  induction calls generalizing s with
  | nil => trivial
  | cons call calls ih =>
    obtain ⟨hcall, hcalls⟩ := List.forall_mem_cons.mp hcalls
    obtain ⟨hgrows, hrest₁⟩ := hrest.after hcall
    refine ⟨hcall, ih hrest₁ ?_⟩
    intro call' hcall'
    exact (hcalls call' hcall').grows hgrows

end HandleStore

namespace Graph

def objectsAfter (g : Graph) (calls : List HandleCall) : HandleStore :=
  ({} : HandleStore).afterAll g calls

/-- Objects are canonical and keep no visible state. Whatever has been requested and asked, also if
it failed, two requests were granted the same object exactly if they name the same declaration, pass
the same mapping, or one passes the object that the other was granted. What is kept has the name and
the mapping of its key, and no other object has that key; no object is left marked; and an answer
depends only on the handle that an object stands for, so that it is the same as when nothing has been
asked before. -/
theorem objects_are_canonical {calls : List HandleCall}
    (hcalls : ({} : HandleStore).ArePossible g calls) :
    (({} : HandleStore).grantedAll g calls).Pairwise
        (fun a b => a.object = b.object ↔ a.Matches b) ∧
      (∀ key o, (g.objectsAfter calls).kept.lookup key = some o →
        o < (g.objectsAfter calls).size ∧ (g.objectsAfter calls).HasKey g o key) ∧
      (∀ key, ∀ o < (g.objectsAfter calls).size, ∀ o' < (g.objectsAfter calls).size,
        (g.objectsAfter calls).key? o = some key → (g.objectsAfter calls).key? o' = some key →
          o = o') ∧
      (∀ o, ((g.objectsAfter calls).object o).isMarked = false) ∧
      (∀ q, ∀ o < (g.objectsAfter calls).size,
        (g.objectsAfter calls).seen (Asking.answer g q o) =
          g.answer q ((g.objectsAfter calls).view o)) ∧
      ∀ v q, (g.objectsAfter calls).seen (Asking.handle g v >>= Asking.answer g q) =
        (g.objectsAfter []).seen (Asking.handle g v >>= Asking.answer g q) := by
  have hstart := HandleStore.isResting_empty g
  have hrest := (hstart.afterAll hcalls).2
  refine ⟨hstart.pairwise_grantedAll hcalls, ?_, ?_, hrest.unmarked, ?_, ?_⟩
  · intro key o hkept
    exact hrest.sound.hasKey hkept
  · intro key o ho o' ho' hkey hkey'
    exact hrest.sound.eq_of_key ho ho' hkey hkey'
  · intro q o ho
    exact (mirrors_answer hrest ho q).answer
  · intro v q
    exact (mirrors_handle_answer hrest v q).answer.trans (mirrors_handle_answer hstart v q).answer.symm

/-- A mapping that is an array of itself and is declared under a name. -/
def cyclicArray : Graph where
  doc := ⟨#[.mapping [(.text "kind", .text "array"), (.text "element", .node 0)]]⟩
  source := "<memory>"
  files := []
  declarations := [(.text "Rows", .node 0)]

/-- The array is rendered inside its own rendering and requested again, by its name, by its mapping
and as an object. -/
def cyclicCalls : List HandleCall :=
  [.request (.spec (.node 0)), .query .text 0, .request (.spec (.text "Rows")),
    .request (.nodeOf 0), .request (.object 0)]

example : (({} : HandleStore).grantedAll cyclicArray cyclicCalls).map Grant.object = [0, 1, 0, 0] := by
  cbv

theorem cyclicArray_objects :
    ({} : HandleStore).ArePossible cyclicArray cyclicCalls ∧
      ((cyclicArray.objectsAfter cyclicCalls).object 0).isMarked = false ∧
      (cyclicArray.objectsAfter cyclicCalls).seen (Asking.answer cyclicArray .text 0) =
        .ok (.label (.text "any[]")) := by
  let s : HandleStore := cyclicArray.objectsAfter [.request (.spec (.node 0))]
  have hsize : s.size = 1 := rfl
  have hview : s.view 0 = .anonymous 0 := HandleStore.view_of_document rfl
  have hfirst : ({} : HandleStore).ArePossible cyclicArray [.request (.spec (.node 0))] :=
    ⟨trivial, trivial⟩
  have hrest : s.IsResting cyclicArray := ((HandleStore.isResting_empty _).afterAll hfirst).2
  have hmore : s.ArePossible cyclicArray cyclicCalls.tail := by
    apply hrest.arePossible
    simp [cyclicCalls, HandleCall.IsPossible, hsize]
  have hgrows : s.Grows (cyclicArray.objectsAfter cyclicCalls) := (hrest.afterAll hmore).1
  have hcalls : ({} : HandleStore).ArePossible cyclicArray cyclicCalls := ⟨trivial, hmore⟩
  obtain ⟨-, -, -, hunmarked, hanswers, -⟩ := objects_are_canonical hcalls
  refine ⟨hcalls, hunmarked 0, ?_⟩
  have hlt : 0 < s.size := Nat.zero_lt_one
  rw [hanswers .text 0 (Nat.lt_of_lt_of_le hlt hgrows.size), hgrows.view_eq hlt, hview]
  cbv

end Graph

end RouteCatalog
