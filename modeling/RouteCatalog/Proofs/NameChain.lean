import RouteCatalog.Proofs.RouteEnumeration

/-! Chains of names. Where no descriptor declares a name twice, the names of a descent lead to one
descriptor only, and the names of a site together with its method determine the site. A catalogue
lists the records of a walk under these chains. -/

namespace RouteCatalog.Route

variable {H I : Type} {sys : HandleSystem H I} {h last : H}

def typeUnder? (sys : HandleSystem H I) (h : H) (name : String) : Option H :=
  ((propertiesOf sys h).find? (·.1 == name)).map Prod.snd

def reach? (sys : HandleSystem H I) (h : H) : List String → Option H
  | [] => some h
  | name :: names => (typeUnder? sys h name).bind (reach? sys · names)

def HasDistinctNames (sys : HandleSystem H I) (root : H) : Prop :=
  ∀ steps last, Descent sys root steps last → ((propertiesOf sys last).map Prod.fst).Nodup

theorem HasDistinctNames.of_step {s : Step H} {properties : List (String × H)}
    (hdistinct : HasDistinctNames sys h) (hok : sys.properties h = .ok properties)
    (hget : properties[s.position]? = some (s.name, s.handle)) (hname : LeadsDown s.name) :
    HasDistinctNames sys s.handle :=
  fun steps last hd => hdistinct (s :: steps) last (.down hok hget hname hd)

theorem find?_eq_of_getElem? {α : Type} {properties : List (String × α)}
    (hnodup : (properties.map Prod.fst).Nodup) {i : Nat} {p : String × α}
    (hget : properties[i]? = some p) : properties.find? (·.1 == p.1) = some p := by
  induction properties generalizing i with
  | nil => cases hget
  | cons q rest ih =>
    obtain ⟨hnot, hrest⟩ := List.nodup_cons.mp hnodup
    cases i with
    | zero =>
      cases hget
      simp
    | succ i =>
      have hmem : p.1 ∈ rest.map Prod.fst := List.mem_map_of_mem (List.mem_of_getElem? hget)
      have hne : q.1 ≠ p.1 := fun heq => hnot (heq ▸ hmem)
      rw [List.find?_cons_of_neg (by simpa using hne)]
      exact ih hrest hget

theorem exists_getElem?_of_typeUnder? {name : String} {t : H}
    (ht : typeUnder? sys h name = some t) :
    ∃ i : Nat, (propertiesOf sys h)[i]? = some (name, t) := by
  obtain ⟨p, hp, rfl⟩ := Option.map_eq_some_iff.mp ht
  obtain rfl : p.1 = name := by simpa using List.find?_some hp
  exact List.mem_iff_getElem?.mp (List.mem_of_find?_eq_some hp)

theorem typeUnder?_eq_some {name : String} {t : H} {i : Nat}
    (hnodup : ((propertiesOf sys h).map Prod.fst).Nodup)
    (hget : (propertiesOf sys h)[i]? = some (name, t)) : typeUnder? sys h name = some t := by
  have hfind := find?_eq_of_getElem? hnodup hget
  simp [typeUnder?, hfind]

theorem reach?_append (names names' : List String) :
    reach? sys h (names ++ names') = (reach? sys h names).bind (reach? sys · names') := by
  induction names generalizing h with
  | nil => rfl
  | cons name names ih =>
    simp only [List.cons_append, reach?, ih, Option.bind_assoc]

theorem reach?_singleton (name : String) : reach? sys h [name] = typeUnder? sys h name := by
  simp [reach?]

theorem reach?_of_descent {steps : List (Step H)} (hd : Descent sys h steps last)
    (hdistinct : HasDistinctNames sys h) :
    reach? sys h (steps.map Step.name) = some last ∧ ∀ name ∈ steps.map Step.name,
      LeadsDown name := by
  induction hd with
  | here h => exact ⟨rfl, by simp⟩
  | down hok hget hname _ ih =>
    obtain ⟨hreach, hnames⟩ := ih (hdistinct.of_step hok hget hname)
    have htype := typeUnder?_eq_some (hdistinct _ _ (.here _))
      (getElem?_propertiesOf.mpr ⟨_, hok, hget⟩)
    refine ⟨?_, List.forall_mem_cons.mpr ⟨hname, hnames⟩⟩
    rw [List.map_cons, reach?, htype]
    exact hreach

theorem exists_descent_of_reach? {names : List String} (hnames : ∀ name ∈ names, LeadsDown name)
    (hreach : reach? sys h names = some last) :
    ∃ steps, Descent sys h steps last ∧ steps.map Step.name = names := by
  induction names generalizing h with
  | nil =>
    cases hreach
    exact ⟨[], .here _, rfl⟩
  | cons name names ih =>
    obtain ⟨hname, hrest⟩ := List.forall_mem_cons.mp hnames
    obtain ⟨t, ht, hreach⟩ := Option.bind_eq_some_iff.mp hreach
    obtain ⟨i, hget⟩ := exists_getElem?_of_typeUnder? ht
    obtain ⟨properties, hok, hget⟩ := getElem?_propertiesOf.mp hget
    obtain ⟨steps, hd, rfl⟩ := ih hrest hreach
    exact ⟨⟨i, name, t⟩ :: steps, .down hok hget hname hd, rfl⟩

namespace Site

/-- The names that lead to a site and the method that it ends in. -/
def chain (s : Site H) : List String × Method := (s.names, s.method)

def trail (s : Site H) : List String := s.names ++ [s.method.name]

end Site

theorem reach?_of_declares {s : Site H} (hs : Declares sys h s)
    (hdistinct : HasDistinctNames sys h) :
    reach? sys h s.trail = some s.descriptor ∧ ∀ name ∈ s.names, LeadsDown name := by
  obtain ⟨last, properties, hd, hok, hget⟩ := hs
  obtain ⟨hreach, hnames⟩ := reach?_of_descent hd hdistinct
  refine ⟨?_, hnames⟩
  have htype := typeUnder?_eq_some (hdistinct _ _ hd)
    (getElem?_propertiesOf.mpr ⟨_, hok, hget⟩)
  have hlast : reach? sys h s.names = some last := hreach
  rw [Site.trail, reach?_append, hlast, Option.bind_some, reach?_singleton]
  exact htype

theorem exists_declares_of_reach? {names : List String} {m : Method} {descriptor : H}
    (hnames : ∀ name ∈ names, LeadsDown name)
    (hreach : reach? sys h (names ++ [m.name]) = some descriptor) :
    ∃ s, Declares sys h s ∧ s.names = names ∧ s.method = m ∧ s.descriptor = descriptor := by
  rw [reach?_append] at hreach
  obtain ⟨last, hlast, htype⟩ := Option.bind_eq_some_iff.mp hreach
  rw [reach?_singleton] at htype
  obtain ⟨steps, hd, hsteps⟩ := exists_descent_of_reach? hnames hlast
  obtain ⟨i, hi⟩ := exists_getElem?_of_typeUnder? htype
  obtain ⟨properties, hok, hget⟩ := getElem?_propertiesOf.mp hi
  exact ⟨⟨steps, i, m, descriptor⟩, ⟨last, properties, hd, hok, hget⟩, hsteps, rfl, rfl⟩

theorem exists_declares_iff {names : List String} {m : Method}
    (hdistinct : HasDistinctNames sys h) : (∃ s, Declares sys h s ∧ s.chain = (names, m)) ↔
      (∀ name ∈ names, LeadsDown name) ∧ (reach? sys h (names ++ [m.name])).isSome := by
  constructor
  · rintro ⟨s, hs, heq⟩
    cases heq
    obtain ⟨hreach, hnames⟩ := reach?_of_declares hs hdistinct
    refine ⟨hnames, ?_⟩
    change (reach? sys h s.trail).isSome
    rw [hreach]
    rfl
  · rintro ⟨hnames, hsome⟩
    obtain ⟨descriptor, hreach⟩ := Option.isSome_iff_exists.mp hsome
    obtain ⟨s, hs, rfl, rfl, -⟩ := exists_declares_of_reach? hnames hreach
    exact ⟨s, hs, rfl⟩

theorem position_unique {α : Type} {properties : List (String × α)}
    (hnodup : (properties.map Prod.fst).Nodup) {i j : Nat} {name : String} {t u : α}
    (hi : properties[i]? = some (name, t)) (hj : properties[j]? = some (name, u)) : i = j := by
  have hsome {k : Nat} {v : α} (hk : properties[k]? = some (name, v)) :
      (properties.map Prod.fst)[k]? = some name := by simp [hk]
  have hlt : i < (properties.map Prod.fst).length := by
    obtain ⟨hlt, -⟩ := List.getElem?_eq_some_iff.mp (hsome hi)
    exact hlt
  exact (List.getElem?_inj hlt hnodup).mp ((hsome hi).trans (hsome hj).symm)

theorem site_unique {s t : Site H} (hs : Declares sys h s) (ht : Declares sys h t)
    (hdistinct : HasDistinctNames sys h) (hchain : s.chain = t.chain) : s = t := by
  obtain ⟨hnames, hmethod⟩ := Prod.mk.inj hchain
  clear hchain
  obtain ⟨steps, i, m, d⟩ := s
  obtain ⟨steps', j, m', d'⟩ := t
  obtain rfl : m = m' := hmethod
  induction steps generalizing h steps' with
  | nil =>
    obtain rfl : steps' = [] := List.map_eq_nil_iff.mp hnames.symm
    have hi := declares_here_iff.mp hs
    have hj := declares_here_iff.mp ht
    have hnodup := hdistinct _ _ (.here h)
    obtain rfl := position_unique hnodup hi hj
    rw [hi] at hj
    cases hj
    rfl
  | cons first steps ih =>
    cases steps' with
    | nil => cases hnames
    | cons first' steps' =>
      obtain ⟨hget, hname, hbelow⟩ := declares_under_iff (s := ⟨steps, i, m, d⟩).mp hs
      obtain ⟨hget', _, hbelow'⟩ := declares_under_iff (s := ⟨steps', j, m, d'⟩).mp ht
      obtain ⟨position, name, t⟩ := first
      obtain ⟨position', name', t'⟩ := first'
      obtain ⟨hhead, htail⟩ := List.cons.inj hnames
      obtain rfl : name = name' := hhead
      obtain rfl := position_unique (hdistinct _ _ (.here h)) hget hget'
      rw [hget] at hget'
      cases hget'
      obtain ⟨properties, hok, hget⟩ := getElem?_propertiesOf.mp hget
      have heq := ih (hdistinct.of_step hok hget hname) hbelow steps' hbelow' htail
      cases heq
      rfl

/-- No descent takes more steps than a walk may follow. -/
def IsShallow (sys : HandleSystem H I) (root : H) : Prop :=
  ∀ steps last, Descent sys root steps last → steps.length ≤ maxAncestors

theorem Descent.length_le_succ {properties : List (String × H)} {depth : Nat}
    {steps : List (Step H)} (hd : Descent sys h steps last)
    (hok : sys.properties h = .ok properties)
    (hbelow : ∀ p ∈ properties, LeadsDown p.1 →
      ∀ steps last, Descent sys p.2 steps last → steps.length ≤ depth) :
    steps.length ≤ depth + 1 := by
  cases hd with
  | here => exact Nat.zero_le _
  | down hok' hget hname hrest =>
    rw [hok] at hok'
    cases hok'
    exact Nat.succ_le_succ (hbelow _ (List.mem_of_getElem? hget) hname _ _ hrest)

theorem path_congr {s t : Site H} {start : String} (hchain : s.chain = t.chain) :
    s.path start = t.path start := by
  rw [Site.path, Site.path, (Prod.mk.inj hchain).1]

theorem recordOf_congr {s t : Site H} {start : String} (hchain : s.chain = t.chain)
    (hdescriptor : s.descriptor = t.descriptor) :
    recordOf sys start s = recordOf sys start t := by
  rw [recordOf, recordOf, path_congr hchain, (Prod.mk.inj hchain).2, hdescriptor]

section Catalogue

variable [DecidableEq I] {root : H} {start : String}

/-- The records of a walk, each with the names and the method that lead to it: every site with a
path has its record, and there is no other. -/
structure IsCatalogue (sys : HandleSystem H I) (root : H) (start : String)
    (entries : List ((List String × Method) × Endpoint)) : Prop where
  walked : sys.walk root start = .ok (entries.map Prod.snd)
  distinct : (entries.map Prod.fst).Nodup
  mem_iff : ∀ chain r, (chain, r) ∈ entries ↔ ∃ s, Declares sys root s ∧
    s.chain = chain ∧ s.path start ≠ "" ∧ recordOf sys start s = .ok r
  complete : ∀ s, Declares sys root s → s.path start ≠ "" →
    ∃ r, (s.chain, r) ∈ entries

theorem exists_isCatalogue (hopen : IsOpen sys root) (hdistinct : HasDistinctNames sys root)
    (hsimple : ∀ s, Declares sys root s → s.path start ≠ "" → IsSite sys root start s)
    (hreadable : ∀ s, Declares sys root s → IsReadable sys s.descriptor) :
    ∃ entries, IsCatalogue sys root start entries := by
  have hmem : ∀ s, s ∈ sitesWithin sys (maxAncestors + 1) [] root start ↔
      Declares sys root s ∧ s.path start ≠ "" := by
    intro s
    rw [mem_sitesWithin_iff, isSiteWithin_iff]
    exact ⟨fun hs => ⟨hs.declared, hs.placed⟩, fun hs => hsimple s hs.1 hs.2⟩
  have hwalk := walkWithin_eq_mapM (maxAncestors + 1) [] root start hopen
  have hsorted : (sitesWithin sys (maxAncestors + 1) [] root start).Pairwise
      (·.positions < ·.positions) := sitesWithin_sorted _ _ _ _
  -- Of the list itself only its members, its order and the records that it makes are used.
  generalize sitesWithin sys (maxAncestors + 1) [] root start = sites at hmem hwalk hsorted
  have hnodup : sites.Nodup := hsorted.imp fun hlt heq => by
    rw [heq] at hlt
    exact List.lt_irrefl _ hlt
  have : Nonempty Endpoint := ⟨⟨"", .get, none, none, none, ""⟩⟩
  have hrecords : ∀ s ∈ sites, ∃ r, recordOf sys start s = .ok r := fun s hs =>
    HandleSystem.exists_endpoint_eq_ok (hreadable s ((hmem s).mp hs).1) (s.path start) s.method
  choose! record hrecord using hrecords
  refine ⟨sites.map fun s => (s.chain, record s), ?_, ?_, ?_, ?_⟩
  · refine hwalk.trans (mapM_eq_ok_iff.mpr ?_)
    rw [List.map_map, List.forall₂_map_right_iff]
    exact List.forall₂_same.mpr hrecord
  · rw [List.map_map]
    refine (List.nodup_map_iff_inj_on hnodup).mpr fun s hs t ht heq => ?_
    exact site_unique ((hmem s).mp hs).1 ((hmem t).mp ht).1 hdistinct heq
  · intro chain r
    rw [List.mem_map]
    constructor
    · rintro ⟨s, hs, heq⟩
      obtain ⟨hchain, rfl⟩ := Prod.mk.inj heq
      obtain ⟨hdeclares, hpath⟩ := (hmem s).mp hs
      exact ⟨s, hdeclares, hchain, hpath, hrecord s hs⟩
    · rintro ⟨s, hdeclares, rfl, hpath, hr⟩
      have hs := (hmem s).mpr ⟨hdeclares, hpath⟩
      rw [hrecord s hs] at hr
      cases hr
      exact ⟨s, hs, rfl⟩
  · intro s hdeclares hpath
    exact ⟨record s, List.mem_map_of_mem ((hmem s).mpr ⟨hdeclares, hpath⟩)⟩

namespace IsCatalogue

variable {entries : List ((List String × Method) × Endpoint)}
  (hc : IsCatalogue sys root start entries)
include hc

theorem existsUnique_record {s : Site H} (hs : Declares sys root s) (hpath : s.path start ≠ "") :
    ∃! r, (s.chain, r) ∈ entries := by
  obtain ⟨r, hr⟩ := hc.complete s hs hpath
  refine ⟨r, hr, fun r' hr' => ?_⟩
  have heq := List.inj_on_of_nodup_map hc.distinct hr' hr rfl
  exact (Prod.mk.inj heq).2

/-- The paths and methods of a walk are those of the chains that are declared. -/
theorem exists_record_iff {path : String} {method : Method} :
    (∃ r ∈ entries.map Prod.snd, r.path = path ∧ r.method = method) ↔
      ∃ chain, (∃ s, Declares sys root s ∧ s.chain = chain) ∧ pathAlong start chain.1 = path ∧
        path ≠ "" ∧ chain.2 = method := by
  constructor
  · rintro ⟨r, hr, rfl, rfl⟩
    obtain ⟨⟨chain, r⟩, he, rfl⟩ := List.mem_map.mp hr
    obtain ⟨s, hs, rfl, hpath, hrecord⟩ := (hc.mem_iff chain r).mp he
    obtain ⟨hkeep, hmethod⟩ := HandleSystem.of_endpoint_eq_ok hrecord
    dsimp only
    rw [hkeep, hmethod]
    exact ⟨s.chain, ⟨s, hs, rfl⟩, rfl, hpath, rfl⟩
  · rintro ⟨chain, ⟨s, hs, rfl⟩, rfl, hpath, rfl⟩
    obtain ⟨r, hr⟩ := hc.complete s hs hpath
    obtain ⟨t, -, hchain, -, hrecord⟩ := (hc.mem_iff s.chain r).mp hr
    obtain ⟨hkeep, hmethod⟩ := HandleSystem.of_endpoint_eq_ok hrecord
    exact ⟨r, List.mem_map_of_mem hr, hkeep.trans (path_congr hchain),
      hmethod.trans (Prod.mk.inj hchain).2⟩

end IsCatalogue

end Catalogue

end RouteCatalog.Route
