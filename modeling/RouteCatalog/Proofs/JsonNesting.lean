import RouteCatalog.Json.Reading
import RouteCatalog.Proofs.NestedMappings

/-! Documents that are read from JSON. A collection becomes a node when it is closed, so that all it
holds has been read before: every node refers backward, and no collection is inside itself. -/

namespace RouteCatalog

/-- A value is no collection, or one of the first nodes of a table. -/
def Value.IsBefore (bound : Nat) (v : Value) : Prop := ∀ id, v = .node id → id < bound

def Node.contents : Node → List Value
  | .list items | .tuple items | .set items => items
  | .mapping entries => entries.flatMap fun e => [e.1, e.2]

theorem Value.IsBefore.mono {bound bound' : Nat} {v : Value} (h : v.IsBefore bound)
    (hle : bound ≤ bound') : v.IsBefore bound' :=
  fun id hid => lt_of_lt_of_le (h id hid) hle

theorem Value.isBefore_of_forall_ne {v : Value} (h : ∀ id, v ≠ .node id) (bound : Nat) :
    v.IsBefore bound :=
  fun id hid => (h id hid).elim

namespace Document

variable {doc : Document} {v : Value} {a b id : NodeId}

def RefersBackward (doc : Document) : Prop :=
  ∀ id, ∀ w ∈ (doc.node id).contents, w.IsBefore id

namespace RefersBackward

theorem empty : RefersBackward {} := by
  intro id w hw
  simp [node, Node.contents] at hw

/-- A node may be added that holds what is in the document already. -/
theorem add {n : Node} (h : doc.RefersBackward) (hn : ∀ w ∈ n.contents, w.IsBefore doc.nodes.size) :
    (doc.add n).2.RefersBackward := by
  intro id w hw
  have hnode : (doc.add n).2.node id = if id = doc.nodes.size then n else doc.node id := by
    simp only [Document.add, node, Array.getD_eq_getD_getElem?, Array.getElem?_push]
    split <;> rfl
  rw [hnode] at hw
  split_ifs at hw with hid
  · exact hid ▸ hn w hw
  · exact h id w hw

theorem lt_of_hasListItem (h : doc.RefersBackward) (hab : doc.HasListItem a b) : b < a := by
  obtain ⟨items, hitems, hb, -⟩ := hab
  obtain ⟨n, heq, hn⟩ := list?_eq_some hitems
  cases heq
  exact h a (.node b) (by simpa only [hn, Node.contents] using hb) b rfl

theorem listsEnd (h : doc.RefersBackward) (hv : v.IsBefore doc.nodes.size) : doc.ListsEnd v := by
  intro id hid
  refine ⟨?_, fun hcycle => ?_⟩
  · induction hid with
    | self _ => exact List.mem_range.mpr (hv _ rfl)
    | item hlist hw _ ih =>
      obtain ⟨n, rfl, hn⟩ := list?_eq_some hlist
      refine ih ((h n _ ?_).mono (hv n rfl).le)
      simpa only [hn, Node.contents] using hw
  · have hback : ∀ b, Relation.TransGen doc.HasListItem id b → b < id := by
      intro b hb
      induction hb with
      | single hb => exact h.lt_of_hasListItem hb
      | tail _ hb ih => exact (h.lt_of_hasListItem hb).trans ih
    exact Nat.lt_irrefl id (hback id hcycle)

theorem isBefore_of_contents {w : Value} (h : doc.RefersBackward)
    (hw : w ∈ (doc.node id).contents) : w.IsBefore doc.nodes.size := by
  by_cases hid : id < doc.nodes.size
  · exact (h id w hw).mono hid.le
  · simp [node, Array.getD, hid, Node.contents] at hw

theorem isBefore_of_entries? {entries : List Entry} {e : Entry} (h : doc.RefersBackward)
    (hentries : doc.entries? v = some entries) (he : e ∈ entries) :
    e.1.IsBefore doc.nodes.size ∧ e.2.IsBefore doc.nodes.size := by
  cases v with
  | node id =>
    cases hn : doc.node id <;> simp [entries?, hn] at hentries
    subst hentries
    have hcontents {w : Value} (hw : w ∈ [e.1, e.2]) : w ∈ (doc.node id).contents := by
      rw [hn]
      exact List.mem_flatMap.mpr ⟨e, he, hw⟩
    exact ⟨h.isBefore_of_contents (hcontents (by simp)), h.isBefore_of_contents (hcontents (by simp))⟩
  | _ => cases hentries

theorem isBefore_of_items? {items : List Value} {w : Value} (h : doc.RefersBackward)
    (hitems : doc.items? v = some items) (hw : w ∈ items) : w.IsBefore doc.nodes.size := by
  cases v with
  | node id =>
    have hcontents : w ∈ (doc.node id).contents → w.IsBefore doc.nodes.size :=
      h.isBefore_of_contents
    refine hcontents ?_
    cases hn : doc.node id <;> simp only [items?, hn, Option.some.injEq] at hitems <;> subst hitems
    case mapping entries =>
      obtain ⟨e, he, rfl⟩ := List.mem_map.mp hw
      exact List.mem_flatMap.mpr ⟨e, he, by simp⟩
    all_goals exact hw
  | text s =>
    cases hitems
    obtain ⟨c, -, rfl⟩ := List.mem_map.mp hw
    exact Value.isBefore_of_forall_ne (by simp) _
  | bytes bs =>
    cases hitems
    obtain ⟨b, -, rfl⟩ := List.mem_map.mp hw
    exact Value.isBefore_of_forall_ne (by simp) _
  | _ => cases hitems

end RefersBackward

end Document

namespace Entries

theorem mem_put {entries : List Entry} {key value : Value} {e : Entry}
    (he : e ∈ put entries key value) :
    (e.1 = key ∨ ∃ a ∈ entries, e.1 = a.1) ∧ (e.2 = value ∨ ∃ b ∈ entries, e.2 = b.2) := by
  unfold put at he
  split_ifs at he
  · obtain ⟨a, ha, rfl⟩ := List.mem_map.mp he
    split_ifs
    · exact ⟨.inr ⟨a, ha, rfl⟩, .inl rfl⟩
    · exact ⟨.inr ⟨a, ha, rfl⟩, .inr ⟨a, ha, rfl⟩⟩
  · rcases List.mem_append.mp he with he | he
    · exact ⟨.inr ⟨e, he, rfl⟩, .inr ⟨e, he, rfl⟩⟩
    · rw [List.mem_singleton.mp he]
      exact ⟨.inl rfl, .inl rfl⟩

/-- Putting pairs together makes no keys and no values. -/
theorem forall_mem_ofPairs {P Q : Value → Prop} {pairs : List Entry}
    (h : ∀ e ∈ pairs, P e.1 ∧ Q e.2) : ∀ e ∈ ofPairs pairs, P e.1 ∧ Q e.2 := by
  suffices hfold : ∀ entries : List Entry, (∀ e ∈ entries, P e.1 ∧ Q e.2) →
      ∀ e ∈ pairs.foldl (fun entries e => put entries e.1 e.2) entries, P e.1 ∧ Q e.2 from
    hfold [] (by simp)
  induction pairs with
  | nil => exact fun _ hentries => hentries
  | cons pair pairs ih =>
    obtain ⟨hpair, hpairs⟩ := List.forall_mem_cons.mp h
    refine fun entries hentries => ih hpairs _ fun e he => ?_
    obtain ⟨hkey, hvalue⟩ := mem_put he
    constructor
    · rcases hkey with hkey | ⟨a, ha, hkey⟩
      · exact hkey ▸ hpair.1
      · exact hkey ▸ (hentries a ha).1
    · rcases hvalue with hvalue | ⟨b, hb, hvalue⟩
      · exact hvalue ▸ hpair.2
      · exact hvalue ▸ (hentries b hb).2

end Entries

namespace Json

variable {s s' : State} {cs rest : List Char} {v : Value} {id : NodeId}

section Scalars

theorem takeNumber_ne_node (h : takeNumber cs = .ok (v, rest)) : v ≠ .node id := by
  unfold takeNumber at h
  rintro rfl
  simp only at h
  split at h
  · cases h
  · split_ifs at h <;> cases h

theorem takeScalar_ne_node (h : takeScalar cs = .ok (v, rest)) : v ≠ .node id := by
  unfold takeScalar at h
  rintro rfl
  split at h
  · split at h <;> cases h
  · split at h
    · rename_i hnamed
      cases h
      obtain ⟨named, hmem, hnamed⟩ := List.exists_of_findSome?_eq_some hnamed
      obtain ⟨rest', -, heq⟩ := Option.map_eq_some_iff.mp hnamed
      have hvalues : ∀ named ∈ namedValues, ∀ id, named.2 ≠ .node id := by simp [namedValues]
      exact hvalues named hmem id (congrArg Prod.fst heq)
    · exact takeNumber_ne_node h rfl

end Scalars

def Open.contents : Open → List Value
  | .array items => items
  | .object entries _ => entries.flatMap fun e => [e.1, e.2]

/-- All that is held while reading refers to nodes of the document, and these refer backward. -/
structure State.RefersBackward (s : State) : Prop where
  doc : s.doc.RefersBackward
  last : s.last.IsBefore s.doc.nodes.size
  opened : ∀ o ∈ s.opened, ∀ w ∈ o.contents, w.IsBefore s.doc.nodes.size

namespace State.RefersBackward

theorem complete (h : s.RefersBackward) (hv : v.IsBefore s.doc.nodes.size) :
    (s.complete v).RefersBackward := by
  have hopened := h.opened
  unfold State.complete
  split
  · exact ⟨h.doc, hv, hopened⟩
  · rename_i items outer heq
    rw [heq] at hopened
    obtain ⟨hitems, houter⟩ := List.forall_mem_cons.mp hopened
    refine ⟨h.doc, h.last, List.forall_mem_cons.mpr ⟨?_, houter⟩⟩
    exact List.forall_mem_cons.mpr ⟨hv, hitems⟩
  · rename_i entries key outer heq
    rw [heq] at hopened
    obtain ⟨hentries, houter⟩ := List.forall_mem_cons.mp hopened
    refine ⟨h.doc, h.last, List.forall_mem_cons.mpr ⟨?_, houter⟩⟩
    intro w hw
    simp only [Open.contents, List.flatMap_cons, List.cons_append, List.nil_append,
      List.mem_cons] at hw
    rcases hw with rfl | rfl | hw
    · exact Value.isBefore_of_forall_ne (by simp) _
    · exact hv
    · exact hentries w hw

theorem close {n : Node} {o : Open} {outer : List Open} (h : s.RefersBackward)
    (hopened : s.opened = o :: outer) (hn : ∀ w ∈ n.contents, w.IsBefore s.doc.nodes.size) :
    (s.close n outer).RefersBackward := by
  have houter := (List.forall_mem_cons.mp (hopened ▸ h.opened)).2
  have hgrown : (s.doc.add n).2.nodes.size = s.doc.nodes.size + 1 := by simp [Document.add]
  have hle : s.doc.nodes.size ≤ (s.doc.add n).2.nodes.size := by omega
  refine complete (s := { s with doc := (s.doc.add n).2, opened := outer })
    ⟨h.doc.add hn, h.last.mono hle, fun o ho w hw => (houter o ho w hw).mono hle⟩ ?_
  rintro id ⟨⟩
  simp [Document.add]

theorem closeArray {items : List Value} {outer : List Open} (h : s.RefersBackward)
    (hopened : s.opened = .array items :: outer) :
    (s.close (.list items.reverse) outer).RefersBackward := by
  refine h.close hopened fun w hw => ?_
  have hitems := (List.forall_mem_cons.mp (hopened ▸ h.opened)).1
  exact hitems w (List.mem_reverse.mp hw)

theorem closeObject {entries : List Entry} {key : String} {outer : List Open}
    (h : s.RefersBackward) (hopened : s.opened = .object entries key :: outer) :
    (s.close (.mapping (Entries.ofPairs entries.reverse)) outer).RefersBackward := by
  have hentries := (List.forall_mem_cons.mp (hopened ▸ h.opened)).1
  have hpairs : ∀ e ∈ Entries.ofPairs entries.reverse,
      e.1.IsBefore s.doc.nodes.size ∧ e.2.IsBefore s.doc.nodes.size := by
    refine Entries.forall_mem_ofPairs fun e he => ?_
    have hmem {w : Value} (hw : w ∈ [e.1, e.2]) : w ∈ (Open.object entries key).contents :=
      List.mem_flatMap.mpr ⟨e, List.mem_reverse.mp he, hw⟩
    exact ⟨hentries _ (hmem (by simp)), hentries _ (hmem (by simp))⟩
  refine h.close hopened fun w hw => ?_
  obtain ⟨e, he, hw⟩ := List.mem_flatMap.mp hw
  rcases List.mem_cons.mp hw with rfl | hw
  · exact (hpairs e he).1
  · exact List.mem_singleton.mp hw ▸ (hpairs e he).2

theorem expect (h : s.RefersBackward) (expecting : Expecting) :
    { s with expecting := expecting }.RefersBackward :=
  ⟨h.doc, h.last, h.opened⟩

theorem opening {o : Open} (h : s.RefersBackward) (ho : o.contents = []) (expecting : Expecting) :
    { s with opened := o :: s.opened, expecting := expecting }.RefersBackward :=
  ⟨h.doc, h.last, List.forall_mem_cons.mpr ⟨by simp [ho], h.opened⟩⟩

theorem readKey {entries : List Entry} {key : String} {outer : List Open} (h : s.RefersBackward)
    (hopened : s.opened = .object entries key :: outer)
    (hread : (match takeKey cs with
      | some (key, rest) => Except.ok
        ({ s with opened := .object entries key :: outer, expecting := .value }, rest)
      | none => .error ReadError.malformed) = .ok (s', rest)) : s'.RefersBackward := by
  split at hread
  · cases hread
    obtain ⟨hentries, houter⟩ := List.forall_mem_cons.mp (hopened ▸ h.opened)
    exact ⟨h.doc, h.last, List.forall_mem_cons.mpr ⟨hentries, houter⟩⟩
  · cases hread

theorem readScalar (h : s.RefersBackward)
    (hread : (do let (v, rest) ← takeScalar cs; return (s.complete v, rest)) = .ok (s', rest)) :
    s'.RefersBackward := by
  obtain ⟨⟨v, rest'⟩, hv, hread⟩ := bind_eq_ok_iff.mp hread
  cases hread
  exact h.complete (Value.isBefore_of_forall_ne (fun _ => takeScalar_ne_node hv) _)

/-- A step opens or closes a collection, or it reads a separator, a key or a scalar. -/
theorem step (h : s.RefersBackward) (hstep : s.step cs = .ok (s', rest)) : s'.RefersBackward := by
  unfold State.step at hstep
  split at hstep
  case h_1 _ hopened | h_2 _ hopened =>
    cases hstep
    exact h.closeArray hopened
  case h_4 _ hopened | h_5 _ hopened =>
    cases hstep
    exact h.closeObject hopened
  case h_3 | h_6 =>
    cases hstep
    exact h.expect _
  case h_7 hopened | h_8 hopened _ => exact h.readKey hopened hstep
  case h_9 | h_10 | h_11 | h_12 =>
    cases hstep
    exact h.opening rfl _
  case h_13 | h_14 => exact h.readScalar hstep
  case h_15 => cases hstep

theorem run {fuel : Nat} {final : State} (h : s.RefersBackward)
    (hrun : Json.run fuel s cs = .ok final) : final.RefersBackward := by
  induction fuel generalizing s cs with
  | zero => cases hrun
  | succ fuel ih =>
    unfold Json.run at hrun
    simp only at hrun
    split at hrun
    · cases hrun
      exact h
    · obtain ⟨⟨s', rest⟩, hstep, hrun⟩ := bind_eq_ok_iff.mp hrun
      exact ih (h.step hstep) hrun

end State.RefersBackward

theorem refersBackward_of_read {doc : Document} {text : String} (h : read {} text = .ok (v, doc)) :
    doc.RefersBackward ∧ v.IsBefore doc.nodes.size := by
  obtain ⟨final, hrun, hfinal⟩ := bind_eq_ok_iff.mp h
  cases hfinal
  have hstart : State.RefersBackward ⟨{}, [], .value, .null⟩ :=
    ⟨.empty, Value.isBefore_of_forall_ne (by simp) _, by simp⟩
  have hbackward := hstart.run hrun
  exact ⟨hbackward.doc, hbackward.last⟩

end Json

end RouteCatalog
