import RouteCatalog.Proofs.LocalValidity
import RouteCatalog.Proofs.Property

/-! Validation is exact reachability. It accepts a graph if every mapping that its declarations and
aliases lead to is valid by itself, however often and in whatever cycles mappings are met; a
mapping that was visited before is skipped without loss. Without cycles the complaint is the one
that a traversal without such skips comes to first. -/

namespace RouteCatalog

namespace Document

variable {doc : Document} {P : NodeId → Prop} {unseen : List NodeId} {pending rest : List Pending}
  {place : String} {a b c id : NodeId}

section Reaches

theorem Reaches.head (hab : doc.LeadsTo a b) (hbc : doc.Reaches b c) : doc.Reaches a c := by
  obtain ⟨v, hv, hlead⟩ := hab
  exact .cons hv hlead hbc

theorem Leads.mem_nodeIds {v : Value} (h : doc.Leads v b) : b ∈ doc.nodeIds := by
  obtain ⟨entries, hb⟩ := h.isMapping
  exact Graph.mem_nodeIds (by simp [mapping?, hb])

theorem LeadsTo.mem_nodeIds (h : doc.LeadsTo a b) : b ∈ doc.nodeIds := by
  obtain ⟨v, -, hlead⟩ := h
  exact hlead.mem_nodeIds

theorem Reaches.mem_nodeIds (hab : doc.Reaches a b) (ha : a ∈ doc.nodeIds) : b ∈ doc.nodeIds := by
  induction hab with
  | refl => exact ha
  | cons _ hlead _ ih => exact ih hlead.mem_nodeIds

theorem Reaches.cases_head (h : doc.Reaches a c) : a = c ∨ ∃ b, doc.LeadsTo a b ∧ doc.Reaches b c := by
  cases h with
  | refl => exact .inl rfl
  | cons hv hlead hbc => exact .inr ⟨_, ⟨_, hv, hlead⟩, hbc⟩

end Reaches

/-- Everything that is pending, and everything that it leads to, has the shape that validation
expects. -/
structure Explores (doc : Document) (P : NodeId → Prop) (pending : List Pending) : Prop where
  pending : Only P pending
  visitable : ∀ id, P id → doc.IsVisitable id
  closed : ∀ a b, P a → doc.LeadsTo a b → P b

namespace Explores

theorem head (h : doc.Explores P (.node id place :: rest)) : P id := by
  obtain ⟨id', place', heq, hid⟩ := h.pending _ List.mem_cons_self
  cases heq
  exact hid

theorem not_fault {f : Fault} (h : doc.Explores P (.fault f :: rest)) : False :=
  h.pending.not_fault f List.mem_cons_self

theorem tail {p : Pending} (h : doc.Explores P (p :: rest)) : doc.Explores P rest :=
  ⟨fun q hq => h.pending q (List.mem_cons_of_mem p hq), h.visitable, h.closed⟩

theorem found {found : List Pending} (h : doc.Explores P (.node id place :: rest))
    (hfound : Covers (doc.LeadsTo id) found) : doc.Explores P (found ++ rest) := by
  have hclosed := hfound.sound.mono fun b hb => h.closed id b h.head hb
  exact ⟨hclosed.append h.tail.pending, h.visitable, h.closed⟩

theorem visit_cases (h : doc.Explores P (.node id place :: rest)) :
    (∃ m, doc.complaint? place id = some m ∧
        doc.visit place (doc.entriesAt id) = .error (.malformed m)) ∨
      doc.IsLocallyValid id ∧ ∃ found, doc.visit place (doc.entriesAt id) = .ok found ∧
        Covers (doc.LeadsTo id) found := by
  exact visit_cases_of_not_obstructs (h.visitable id h.head).not_obstructs place

theorem of_visit_ok {found : List Pending} (h : doc.Explores P (.node id place :: rest))
    (hvisit : doc.visit place (doc.entriesAt id) = .ok found) :
    doc.IsLocallyValid id ∧ Covers (doc.LeadsTo id) found := by
  rcases h.visit_cases with ⟨m, -, herror⟩ | ⟨hvalid, found', hok, hfound⟩
  · rw [herror] at hvisit
    cases hvisit
  · rw [hok] at hvisit
    cases hvisit
    exact ⟨hvalid, hfound⟩

theorem of_visit_error {e : Rejection} (h : doc.Explores P (.node id place :: rest))
    (hvisit : doc.visit place (doc.entriesAt id) = .error e) :
    ∃ m, doc.complaint? place id = some m ∧ e = .malformed m := by
  rcases h.visit_cases with ⟨m, hm, herror⟩ | ⟨-, found, hok, -⟩
  · rw [herror] at hvisit
    cases hvisit
    exact ⟨m, hm, rfl⟩
  · rw [hok] at hvisit
    cases hvisit

end Explores

section Equations

theorem checkPending_nil : doc.checkPending unseen [] = .ok () := by
  simp [checkPending]

theorem checkPending_of_mem {found : List Pending} (hid : id ∈ unseen)
    (hvisit : doc.visit place (doc.entriesAt id) = .ok found) :
    doc.checkPending unseen (.node id place :: rest) =
      doc.checkPending (unseen.erase id) (found ++ rest) := by
  rw [checkPending]
  simp [hid, hvisit]

theorem checkPending_of_error {e : Rejection} (hid : id ∈ unseen)
    (hvisit : doc.visit place (doc.entriesAt id) = .error e) :
    doc.checkPending unseen (.node id place :: rest) = .error e := by
  rw [checkPending]
  simp [hid, hvisit]

theorem checkPending_of_not_mem (hid : id ∉ unseen) :
    doc.checkPending unseen (.node id place :: rest) = doc.checkPending unseen rest := by
  rw [checkPending]
  simp [hid]

end Equations

/-- What is rejected is rejected for a complaint about a mapping, or for a fault that was pending or
stood in the way. -/
theorem cause_of_error {Q : Fault → Prop} {e : Rejection}
    (hpending : ∀ p ∈ pending, (∃ id place, p = .node id place ∧ P id) ∨ ∃ f, p = .fault f ∧ Q f)
    (hclosed : ∀ a b, P a → doc.LeadsTo a b → P b)
    (hobstructs : ∀ id f, P id → doc.Obstructs id f → Q f)
    (herror : doc.checkPending unseen pending = .error e) :
    (∃ id place m, P id ∧ doc.complaint? place id = some m ∧ e = .malformed m) ∨
      ∃ f, Q f ∧ e = .fault f := by
  induction unseen, pending using checkPending.induct doc with
  | case1 unseen =>
    rw [checkPending_nil] at herror
    cases herror
  | case2 unseen f rest =>
    unfold checkPending at herror
    cases herror
    obtain ⟨id, place, heq, -⟩ | ⟨f', heq, hf⟩ := hpending _ List.mem_cons_self <;> cases heq
    exact .inr ⟨f, hf, rfl⟩
  | case3 unseen id place rest hid found hvisit ih =>
    rw [checkPending_of_mem hid hvisit] at herror
    obtain ⟨hhead, hrest⟩ := List.forall_mem_cons.mp hpending
    obtain ⟨id', place', heq, hP⟩ | ⟨f, heq, -⟩ := hhead <;> cases heq
    refine ih (fun p hp => ?_) herror
    rcases List.mem_append.mp hp with hp | hp
    · rcases (isFound_of_visit hvisit).sound p hp with ⟨b, at', rfl, hb⟩ | ⟨f, rfl, hf⟩
      · exact .inl ⟨b, at', rfl, hclosed _ b hP hb⟩
      · exact .inr ⟨f, rfl, hobstructs _ f hP hf⟩
    · exact hrest p hp
  | case4 unseen id place rest hid e' hvisit =>
    rw [checkPending_of_error hid hvisit] at herror
    cases herror
    obtain ⟨id', place', heq, hP⟩ | ⟨f, heq, -⟩ := hpending _ List.mem_cons_self <;> cases heq
    rcases doc.visit_cases place id with ⟨m, hm, hmalformed⟩ | ⟨hf, hfault⟩ | ⟨-, found, hok, -⟩
    · rw [hmalformed] at hvisit
      cases hvisit
      exact .inl ⟨id, place, m, hP, hm, rfl⟩
    · rw [hfault] at hvisit
      cases hvisit
      exact .inr ⟨_, hobstructs id _ hP hf, rfl⟩
    · rw [hok] at hvisit
      cases hvisit
  | case5 unseen id place rest hid ih =>
    rw [checkPending_of_not_mem hid] at herror
    exact ih (fun p hp => hpending p (List.mem_cons_of_mem _ hp)) herror

theorem exists_complaint_of_error {e : Rejection} (hexplores : doc.Explores P pending)
    (herror : doc.checkPending unseen pending = .error e) :
    ∃ id place m, P id ∧ doc.complaint? place id = some m ∧ e = .malformed m := by
  have hcause := cause_of_error (Q := fun _ => False) (fun p hp => .inl (hexplores.pending p hp))
    hexplores.closed (fun id f hid => (hexplores.visitable id hid).not_obstructs f) herror
  exact hcause.resolve_right fun ⟨_, hfalse, _⟩ => hfalse

theorem checkPending_of_valid (hexplores : doc.Explores P pending)
    (hvalid : ∀ id, P id → doc.IsLocallyValid id) : doc.checkPending unseen pending = .ok () := by
  cases hcheck : doc.checkPending unseen pending with
  | ok _ => rfl
  | error e =>
    obtain ⟨id, place, m, hid, hm, -⟩ := exists_complaint_of_error hexplores hcheck
    simp [complaint?_eq_none_iff.mpr (hvalid id hid)] at hm

section Soundness

def IsMet (doc : Document) (unseen : List NodeId) (pending : List Pending) (id : NodeId) : Prop :=
  id ∈ doc.nodeIds ∧ (id ∉ unseen ∨ ∃ place, .node id place ∈ pending)

/-- What has been visited has been inspected, and what it leads to is met. -/
def IsClosedUnderVisits (doc : Document) (unseen : List NodeId) (pending : List Pending) : Prop :=
  ∀ a ∈ doc.nodeIds, a ∉ unseen →
    doc.IsInspected a ∧ ∀ b, doc.LeadsTo a b → doc.IsMet unseen pending b

theorem IsMet.of_visit {found : List Pending} (hnodup : unseen.Nodup)
    (h : doc.IsMet unseen (.node id place :: rest) a) :
    doc.IsMet (unseen.erase id) (found ++ rest) a := by
  obtain ⟨hnode, h⟩ := h
  refine ⟨hnode, ?_⟩
  rcases h with h | ⟨place', h⟩
  · exact .inl fun hmem => h (List.mem_of_mem_erase hmem)
  · rcases List.mem_cons.mp h with heq | h
    · cases heq
      exact .inl hnodup.not_mem_erase
    · exact .inr ⟨place', List.mem_append_right _ h⟩

theorem IsMet.of_skip (hid : id ∉ unseen) (h : doc.IsMet unseen (.node id place :: rest) a) :
    doc.IsMet unseen rest a := by
  obtain ⟨hnode, h⟩ := h
  refine ⟨hnode, ?_⟩
  rcases h with h | ⟨place', h⟩
  · exact .inl h
  · rcases List.mem_cons.mp h with heq | h
    · cases heq
      exact .inl hid
    · exact .inr ⟨place', h⟩

theorem IsClosedUnderVisits.visit {found : List Pending} (hnodup : unseen.Nodup)
    (h : doc.IsClosedUnderVisits unseen (.node id place :: rest)) (hid : doc.IsInspected id)
    (hfound : ∀ b, doc.LeadsTo id b → ∃ at', .node b at' ∈ found) :
    doc.IsClosedUnderVisits (unseen.erase id) (found ++ rest) := by
  intro a hnode hnot
  by_cases hsame : a = id
  · subst hsame
    refine ⟨hid, fun b hb => ⟨hb.mem_nodeIds, ?_⟩⟩
    obtain ⟨at', hmem⟩ := hfound b hb
    exact .inr ⟨at', List.mem_append_left _ hmem⟩
  · have hnot' : a ∉ unseen := fun hmem => hnot ((List.mem_erase_of_ne hsame).mpr hmem)
    obtain ⟨hinspected, hleads⟩ := h a hnode hnot'
    exact ⟨hinspected, fun b hb => (hleads b hb).of_visit hnodup⟩

theorem IsClosedUnderVisits.skip (hid : id ∉ unseen)
    (h : doc.IsClosedUnderVisits unseen (.node id place :: rest)) :
    doc.IsClosedUnderVisits unseen rest := by
  intro a hnode hnot
  obtain ⟨hinspected, hleads⟩ := h a hnode hnot
  exact ⟨hinspected, fun b hb => (hleads b hb).of_skip hid⟩

/-- Once nothing is pending, all that is reached from what has been visited has been inspected. -/
theorem IsClosedUnderVisits.isInspected (h : doc.IsClosedUnderVisits unseen [])
    (ha : doc.IsMet unseen [] a) (hab : doc.Reaches a b) : doc.IsInspected b := by
  have hvisited : ∀ {id}, doc.IsMet unseen [] id → id ∈ doc.nodeIds ∧ id ∉ unseen :=
    fun h => ⟨h.1, h.2.resolve_right (by simp)⟩
  induction hab with
  | refl a =>
    obtain ⟨hnode, hnot⟩ := hvisited ha
    exact (h a hnode hnot).1
  | cons hv hlead _ ih =>
    obtain ⟨hnode, hnot⟩ := hvisited ha
    exact ih ((h _ hnode hnot).2 _ ⟨_, hv, hlead⟩)

/-- A pending fault is met before anything is accepted. -/
theorem not_fault_of_checkPending (hok : doc.checkPending unseen pending = .ok ()) :
    ∀ f, .fault f ∉ pending := by
  intro f hf
  induction unseen, pending using checkPending.induct doc with
  | case1 unseen => cases hf
  | case2 unseen f' rest =>
    unfold checkPending at hok
    cases hok
  | case3 unseen id place rest hid found hvisit ih =>
    rw [checkPending_of_mem hid hvisit] at hok
    have hrest : .fault f ∈ rest := by simpa using hf
    exact ih hok (List.mem_append_right _ hrest)
  | case4 unseen id place rest hid e hvisit =>
    rw [checkPending_of_error hid hvisit] at hok
    cases hok
  | case5 unseen id place rest hid ih =>
    rw [checkPending_of_not_mem hid] at hok
    exact ih hok (by simpa using hf)

theorem isInspected_of_checkPending (hnodup : unseen.Nodup)
    (hclosed : doc.IsClosedUnderVisits unseen pending)
    (hok : doc.checkPending unseen pending = .ok ()) (ha : doc.IsMet unseen pending a)
    (hab : doc.Reaches a b) : doc.IsInspected b := by
  induction unseen, pending using checkPending.induct doc with
  | case1 unseen => exact hclosed.isInspected ha hab
  | case2 unseen f rest => exact (not_fault_of_checkPending hok f List.mem_cons_self).elim
  | case3 unseen id place rest hid found hvisit ih =>
    rw [checkPending_of_mem hid hvisit] at hok
    have hfault : ∀ f, .fault f ∉ found := fun f hf =>
      not_fault_of_checkPending hok f (List.mem_append_left _ hf)
    obtain ⟨hinspected, hfound⟩ := isInspected_of_visit hvisit hfault
    exact ih (hnodup.erase id) (hclosed.visit hnodup hinspected hfound) hok (ha.of_visit hnodup)
  | case4 unseen id place rest hid e hvisit =>
    rw [checkPending_of_error hid hvisit] at hok
    cases hok
  | case5 unseen id place rest hid ih =>
    rw [checkPending_of_not_mem hid] at hok
    exact ih hnodup (hclosed.skip hid) hok (ha.of_skip hid)

theorem nodup_nodeIds : doc.nodeIds.Nodup := List.nodup_range

/-- At the beginning nothing has been visited. -/
theorem isClosedUnderVisits_nodeIds : doc.IsClosedUnderVisits doc.nodeIds pending :=
  fun _ hnode hnot => (hnot hnode).elim

end Soundness

section Traversal

/-- The traversal that visits a mapping as often as it meets it. It ends with the first complaint
in its order, or without any. -/
inductive Traversal (doc : Document) : List Pending → Option Malformation → Prop where
  | done : Traversal doc [] none
  | complaint {id : NodeId} {place : String} {rest : List Pending} {m : Malformation} :
      doc.complaint? place id = some m → Traversal doc (.node id place :: rest) (some m)
  | deeper {id : NodeId} {place : String} {rest found : List Pending} {r : Option Malformation} :
      doc.complaint? place id = none → doc.visit place (doc.entriesAt id) = .ok found →
      Traversal doc (found ++ rest) r → Traversal doc (.node id place :: rest) r

def verdict : Option Malformation → Except Rejection Unit
  | none => .ok ()
  | some m => .error (.malformed m)

theorem verdict_injective : Function.Injective verdict := by
  intro r r' h
  cases r <;> cases r' <;> simp_all [verdict]

theorem Traversal.unique {r r' : Option Malformation} (h : doc.Traversal pending r)
    (h' : doc.Traversal pending r') : r = r' := by
  induction h with
  | done =>
    cases h'
    rfl
  | complaint hm =>
    cases h' with
    | complaint hm' => exact hm.symm.trans hm'
    | deeper hnone => simp [hm] at hnone
  | deeper hnone hvisit _ ih =>
    cases h' with
    | complaint hm => simp [hm] at hnone
    | deeper _ hvisit' hrest =>
      rw [hvisit] at hvisit'
      cases hvisit'
      exact ih hrest

def IsAcyclic (doc : Document) : Prop := ∀ id, ¬ Relation.TransGen doc.LeadsTo id id

/-- In a finite document, descents without cycles end. -/
theorem IsAcyclic.acc (h : doc.IsAcyclic) (a : NodeId) :
    Acc (fun b a => doc.LeadsTo a b) a := by
  let below : Fin doc.nodes.size → Fin doc.nodes.size → Prop :=
    fun b a => Relation.TransGen doc.LeadsTo a b
  have : IsTrans _ below := ⟨fun _ _ _ hab hbc => hbc.trans hab⟩
  have : Std.Irrefl below := ⟨fun a => h a⟩
  have hwf : WellFounded below := Finite.wellFounded_of_trans_of_irrefl below
  have hsize : ∀ {a b}, doc.LeadsTo a b → b < doc.nodes.size := by
    intro a b hab
    simpa [nodeIds] using hab.mem_nodeIds
  have hacc : ∀ i : Fin doc.nodes.size, Acc (fun b a => doc.LeadsTo a b) i.val := by
    intro i
    induction i using hwf.induction with
    | _ i ih =>
      constructor
      intro b hb
      exact ih ⟨b, hsize hb⟩ (.single hb)
  constructor
  intro b hb
  exact hacc ⟨b, hsize hb⟩

/-- A traversal passes a mapping from which everything is valid. -/
theorem Traversal.pass {r : Option Malformation} (hacc : Acc (fun b a => doc.LeadsTo a b) id)
    (hvisitable : ∀ b, doc.Reaches id b → doc.IsVisitable b)
    (hvalid : ∀ b, doc.Reaches id b → doc.IsLocallyValid b) (place : String)
    (h : doc.Traversal rest r) : doc.Traversal (.node id place :: rest) r := by
  induction hacc generalizing place rest with
  | intro id _ ih =>
    have hself := hvalid id (.refl id)
    obtain ⟨found, hvisit, hfound⟩ :=
      visit_of_isLocallyValid (hvisitable id (.refl id)).not_obstructs hself place
    refine .deeper (complaint?_eq_none_iff.mpr hself) hvisit ?_
    have hsound := hfound.sound
    clear hvisit hfound
    induction found with
    | nil => exact h
    | cons p found ihfound =>
      obtain ⟨b, place', rfl, hb⟩ := hsound p List.mem_cons_self
      refine ih b hb (fun c hc => hvisitable c (.head hb hc)) (fun c hc => hvalid c (.head hb hc))
        place' ?_
      exact ihfound fun q hq => hsound q (List.mem_cons_of_mem _ hq)

/-- Behind a visited mapping stand, on top of what is pending, mappings that it leads to; all else
that is reached from it is valid. -/
def IsUnfinished (doc : Document) (pending : List Pending) (a : NodeId) : Prop :=
  ∃ top bottom, pending = top ++ bottom ∧
    (∀ b place, .node b place ∈ top → Relation.TransGen doc.LeadsTo a b) ∧
    ∀ c, doc.Reaches a c → doc.IsLocallyValid c ∨ ∃ b place, .node b place ∈ top ∧ doc.Reaches b c

theorem IsUnfinished.visited {found : List Pending} (hvalid : doc.IsLocallyValid id)
    (hfound : Covers (doc.LeadsTo id) found) : doc.IsUnfinished (found ++ rest) id := by
  refine ⟨found, rest, rfl, ?_, ?_⟩
  · intro b at' hb
    obtain ⟨b', at'', heq, hlead⟩ := hfound.sound _ hb
    cases heq
    exact .single hlead
  · intro c hc
    rcases hc.cases_head with rfl | ⟨b, hb, hbc⟩
    · exact .inl hvalid
    · obtain ⟨at', hmem⟩ := hfound.complete b hb
      exact .inr ⟨b, at', hmem, hbc⟩

theorem IsUnfinished.visit {found : List Pending} (hvalid : doc.IsLocallyValid id)
    (hfound : Covers (doc.LeadsTo id) found)
    (h : doc.IsUnfinished (.node id place :: rest) a) : doc.IsUnfinished (found ++ rest) a := by
  obtain ⟨top, bottom, heq, hbelow, hreach⟩ := h
  cases top with
  | nil => exact ⟨[], found ++ rest, rfl, by simp, fun c hc => (hreach c hc).imp_right (by simp)⟩
  | cons p top =>
    cases heq
    have hid := hbelow id place List.mem_cons_self
    refine ⟨found ++ top, bottom, (List.append_assoc _ _ _).symm, ?_, ?_⟩
    · intro b at' hb
      rcases List.mem_append.mp hb with hb | hb
      · obtain ⟨b', at'', heq, hlead⟩ := hfound.sound _ hb
        cases heq
        exact hid.tail hlead
      · exact hbelow b at' (List.mem_cons_of_mem _ hb)
    · intro c hc
      rcases hreach c hc with hc | ⟨b, at', hb, hbc⟩
      · exact .inl hc
      · rcases List.mem_cons.mp hb with heq | hb
        · cases heq
          rcases hbc.cases_head with rfl | ⟨d, hd, hdc⟩
          · exact .inl hvalid
          · obtain ⟨at'', hmem⟩ := hfound.complete d hd
            exact .inr ⟨d, at'', List.mem_append_left _ hmem, hdc⟩
        · exact .inr ⟨b, at', List.mem_append_right _ hb, hbc⟩

theorem IsUnfinished.skip (hvalid : ∀ c, doc.Reaches id c → doc.IsLocallyValid c)
    (h : doc.IsUnfinished (.node id place :: rest) a) : doc.IsUnfinished rest a := by
  obtain ⟨top, bottom, heq, hbelow, hreach⟩ := h
  cases top with
  | nil => exact ⟨[], rest, rfl, by simp, fun c hc => (hreach c hc).imp_right (by simp)⟩
  | cons p top =>
    cases heq
    refine ⟨top, bottom, rfl, fun b at' hb => hbelow b at' (List.mem_cons_of_mem _ hb), ?_⟩
    intro c hc
    rcases hreach c hc with hc | ⟨b, at', hb, hbc⟩
    · exact .inl hc
    · rcases List.mem_cons.mp hb with heq | hb
      · cases heq
        exact .inl (hvalid c hbc)
      · exact .inr ⟨b, at', hb, hbc⟩

/-- A visited mapping that is met again has nothing left below it, or else it led to itself. -/
theorem IsUnfinished.isLocallyValid (hacyclic : doc.IsAcyclic)
    (h : doc.IsUnfinished (.node id place :: rest) id) (hc : doc.Reaches id c) :
    doc.IsLocallyValid c := by
  obtain ⟨top, bottom, heq, hbelow, hreach⟩ := h
  cases top with
  | nil => exact (hreach c hc).resolve_right (by simp)
  | cons p top =>
    cases heq
    exact (hacyclic id (hbelow id place List.mem_cons_self)).elim

/-- Without cycles, skipping what has been visited does not change how the traversal ends. -/
theorem exists_traversal (hacyclic : doc.IsAcyclic) (hexplores : doc.Explores P pending)
    (hnode : ∀ id, P id → id ∈ doc.nodeIds)
    (hvisited : ∀ a ∈ doc.nodeIds, a ∉ unseen → doc.IsUnfinished pending a) :
    ∃ r, doc.Traversal pending r ∧ doc.checkPending unseen pending = verdict r := by
  induction unseen, pending using checkPending.induct doc with
  | case1 unseen => exact ⟨none, .done, checkPending_nil⟩
  | case2 unseen f rest => exact hexplores.not_fault.elim
  | case3 unseen id place rest hid found hvisit ih =>
    obtain ⟨hvalid, hfound⟩ := hexplores.of_visit_ok hvisit
    obtain ⟨r, htraversal, hverdict⟩ := ih (hexplores.found hfound) fun a ha hnot => by
      by_cases hsame : a = id
      · exact hsame ▸ .visited hvalid hfound
      · have hnot' : a ∉ unseen := fun hmem => hnot ((List.mem_erase_of_ne hsame).mpr hmem)
        exact (hvisited a ha hnot').visit hvalid hfound
    refine ⟨r, .deeper (complaint?_eq_none_iff.mpr hvalid) hvisit htraversal, ?_⟩
    rw [checkPending_of_mem hid hvisit, hverdict]
  | case4 unseen id place rest hid e hvisit =>
    obtain ⟨m, hm, rfl⟩ := hexplores.of_visit_error hvisit
    exact ⟨some m, .complaint hm, checkPending_of_error hid hvisit⟩
  | case5 unseen id place rest hid ih =>
    have hmem := hnode id hexplores.head
    have hvalid : ∀ c, doc.Reaches id c → doc.IsLocallyValid c :=
      fun c hc => (hvisited id hmem hid).isLocallyValid hacyclic hc
    have hreached : ∀ {a c}, P a → doc.Reaches a c → P c := by
      intro a c ha hac
      induction hac with
      | refl => exact ha
      | cons hv hlead _ ihreach => exact ihreach (hexplores.closed _ _ ha ⟨_, hv, hlead⟩)
    obtain ⟨r, htraversal, hverdict⟩ := ih hexplores.tail fun a ha hnot =>
      (hvisited a ha hnot).skip hvalid
    refine ⟨r, htraversal.pass (hacyclic.acc id) ?_ hvalid place, ?_⟩
    · exact fun c hc => hexplores.visitable c (hreached hexplores.head hc)
    · rw [checkPending_of_not_mem hid, hverdict]

end Traversal

end Document

end RouteCatalog
