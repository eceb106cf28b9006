import RouteCatalog.Graph.Query
import RouteCatalog.Proofs.Sequence

/-! Names that are declared as other names. Without a circle among them every specification comes
to a node or a text. -/

namespace RouteCatalog.Graph

variable {g : Graph}

def IsAliasOf (g : Graph) (name next : String) : Prop := g.declaration? name = some (.text next)

def HasAcyclicAliases (g : Graph) : Prop := ∀ name, ¬ Relation.TransGen g.IsAliasOf name name

/-- A specification is a name that leads into a circle. -/
def IsCircular (g : Graph) (spec : Value) : Prop :=
  ∃ name next, spec = .text name ∧ Relation.ReflTransGen g.IsAliasOf name next ∧
    Relation.TransGen g.IsAliasOf next next

theorem HasAcyclicAliases.not_isCircular (hacyclic : g.HasAcyclicAliases) (spec : Value) :
    ¬ g.IsCircular spec := by
  rintro ⟨-, next, -, -, hcycle⟩
  exact hacyclic next hcycle

theorem IsCircular.of_isAliasOf {name next : String} (hstep : g.IsAliasOf name next)
    (h : g.IsCircular (.text next)) : g.IsCircular (.text name) := by
  obtain ⟨name', last, heq, hrest, hcycle⟩ := h
  cases heq
  exact ⟨name, last, rfl, .head hstep hrest, hcycle⟩

theorem IsCircular.exists_next {name : String} (h : g.IsCircular (.text name)) :
    ∃ next, g.IsAliasOf name next ∧ g.IsCircular (.text next) := by
  obtain ⟨name', last, heq, hrest, hcycle⟩ := h
  cases heq
  rcases hrest.cases_head with rfl | ⟨next, hstep, hrest⟩
  · obtain ⟨next, hstep, hback⟩ := Relation.TransGen.head'_iff.mp hcycle
    exact ⟨next, hstep, next, next, rfl, .refl, .tail' hback hstep⟩
  · exact ⟨next, hstep, next, last, rfl, hrest, hcycle⟩

theorem hasAcyclicAliases_of_no_declarations (hnone : g.declarations = []) :
    g.HasAcyclicAliases := by
  intro name hchain
  obtain ⟨next, hnext, -⟩ := Relation.TransGen.head'_iff.mp hchain
  simp [IsAliasOf, declaration?, hnone, Entries.get?] at hnext

theorem mem_declaredNames {name : String} {spec : Value} (h : g.declaration? name = some spec) :
    name ∈ g.declaredNames := by
  obtain ⟨e, he, -⟩ := Option.map_eq_some_iff.mp h
  have hkey : e.1 = .text name := by simpa using List.find?_some he
  exact List.mem_filterMap.mpr ⟨e, List.mem_of_find?_eq_some he, by simp [hkey]⟩

/-- The names that are no longer free lead to the one that is followed now. -/
theorem exists_resolveWithin_eq_ok (free : List String) (spec : Value)
    (hends : ¬ g.IsCircular spec) (hpassed : ∀ passed name, (g.declaration? passed).isSome →
      passed ∉ free → spec = .text name → Relation.TransGen g.IsAliasOf passed name) :
    ∃ b, g.resolveWithin free spec = .ok b := by
  induction free, spec using resolveWithin.induct (g := g) with
  | case1 free name hnone => exact ⟨.literal name, by simp [resolveWithin, hnone]⟩
  | case2 free name next hnext hfree ih =>
    have hends' : ¬ g.IsCircular next := by
      rintro ⟨target, hcircular⟩
      obtain ⟨-, rfl, -, -⟩ := id hcircular
      exact hends (.of_isAliasOf hnext ⟨target, hcircular⟩)
    obtain ⟨b, hb⟩ := ih hends' fun passed target hsome hnot heq => by
      subst heq
      by_cases hname : passed = name
      · subst hname
        exact .single hnext
      · have hnot' : passed ∉ free := fun hmem => hnot ((List.mem_erase_of_ne hname).mpr hmem)
        exact (hpassed passed name hsome hnot' rfl).tail hnext
    exact ⟨b, by simp [resolveWithin, hnext, hfree, hb]⟩
  | case3 free name next hnext hfree =>
    have hcycle := hpassed name name (by simp [hnext]) hfree rfl
    exact (hends ⟨name, name, rfl, .refl, hcycle⟩).elim
  | case4 free v id _ hid => exact ⟨.node id, by simp [resolveWithin, hid]⟩
  | case5 free v _ hid => exact ⟨.literal (literalText g.doc v), by simp [resolveWithin, hid]⟩

theorem exists_resolve_eq_ok {spec : Value} (hends : ¬ g.IsCircular spec) :
    ∃ b, g.resolve spec = .ok b := by
  refine exists_resolveWithin_eq_ok _ spec hends fun passed _ hsome hnot _ => ?_
  obtain ⟨next, hnext⟩ := Option.isSome_iff_exists.mp hsome
  exact (hnot (mem_declaredNames hnext)).elim

theorem resolveWithin_of_isCircular (free : List String) (spec : Value)
    (hcircular : g.IsCircular spec) : g.resolveWithin free spec = .error .endless := by
  induction free, spec using resolveWithin.induct (g := g) with
  | case1 free name hnone =>
    obtain ⟨next, hstep, -⟩ := hcircular.exists_next
    rw [IsAliasOf, hnone] at hstep
    cases hstep
  | case2 free name next hnext hfree ih =>
    obtain ⟨next', hstep, hnext'⟩ := hcircular.exists_next
    rw [IsAliasOf, hnext] at hstep
    cases hstep
    rw [resolveWithin]
    simp only [hnext, dif_pos hfree]
    exact ih hnext'
  | case3 free name next hnext hfree => simp [resolveWithin, hnext, hfree]
  | case4 free v id hnot _ =>
    obtain ⟨name, -, rfl, -⟩ := hcircular
    exact (hnot name rfl).elim
  | case5 free v hnot _ =>
    obtain ⟨name, -, rfl, -⟩ := hcircular
    exact (hnot name rfl).elim

theorem exists_handle_iff {spec : Value} : (∃ h, g.handle spec = .ok h) ↔ ¬ g.IsCircular spec := by
  constructor
  · rintro ⟨h, hh⟩ hcircular
    obtain ⟨name, last, rfl, hrest, hcycle⟩ := id hcircular
    obtain ⟨next, hstep, -⟩ := hcircular.exists_next
    have hname : g.declaration? name = some (.text next) := hstep
    simp only [handle, hname, resolve, resolveWithin_of_isCircular _ _ hcircular] at hh
    cases hh
  · intro hends
    unfold handle
    split
    · rename_i name
      split
      · obtain ⟨b, hb⟩ := exists_resolve_eq_ok hends
        exact ⟨.declared name b, by rw [hb]; rfl⟩
      · exact ⟨_, rfl⟩
    · split <;> exact ⟨_, rfl⟩

theorem exists_handle_eq_ok (hacyclic : g.HasAcyclicAliases) (spec : Value) :
    ∃ h, g.handle spec = .ok h :=
  exists_handle_iff.mpr (hacyclic.not_isCircular spec)

/-- Names can be followed only where none is declared in a circle. -/
theorem hasAcyclicAliases_of_handles
    (h : ∀ name, (g.declaration? name).isSome → ∃ h, g.handle (.text name) = .ok h) :
    g.HasAcyclicAliases := by
  intro name hcycle
  obtain ⟨next, hstep, -⟩ := Relation.TransGen.head'_iff.mp hcycle
  have hname : g.declaration? name = some (.text next) := hstep
  exact exists_handle_iff.mp (h name (by simp [hname])) ⟨name, name, rfl, .refl, hcycle⟩

end RouteCatalog.Graph
