import RouteCatalog.Config.Loading
import RouteCatalog.Proofs.Rejection
import RouteCatalog.Proofs.ReaderFaults

/-! What is reported when a configuration cannot be loaded. Of bytes, texts and entries that make no
options, only some are reported as a bad configuration. The others come out as they are met: bytes
that are no text, versions and scalars without a value, and fields that are not named by a text. -/

namespace RouteCatalog.Options

variable {t : FileTree} {path : Path} {text : String} {doc : Document} {v : Value}
  {entries : List Entry} {f : Fault} {e : ConfigError} {o : Options}

def HasMapping (t : FileTree) (path : Path) (doc : Document) (entries : List Entry) : Prop :=
  ∃ text v, t.readText path = .ok (some text) ∧ Yaml.read {} text = .ok (v, doc) ∧
    doc.entries? v = some entries

/-- What keeps options from being loaded and is not reported as a bad configuration. -/
inductive IsUnreported (t : FileTree) (path : Path) : Fault → Prop where
  | path : path.holdsNull → IsUnreported t path .badPath
  | bytes {bytes : List UInt8} : ¬ path.holdsNull → t.look path = .file bytes →
      String.fromUTF8? ⟨bytes.toArray⟩ = none → IsUnreported t path .notUnicode
  | content {text : String} {f : Fault} : t.readText path = .ok (some text) →
      Yaml.read {} text = .error (.fault f) → IsUnreported t path f
  | field {doc : Document} {entries : List Entry} {entry : Entry} :
      HasMapping t path doc entries → entry ∈ entries → entry.1.isText = false →
      IsUnreported t path .badField

inductive IsReported (t : FileTree) (path : Path) : ConfigError → Prop where
  | inaccessible : ¬ path.holdsNull → (∀ bytes, t.look path ≠ .file bytes) →
      IsReported t path (.unreadable path.text .inaccessible)
  | malformed {text : String} : t.readText path = .ok (some text) →
      Yaml.read {} text = .error .malformed → IsReported t path (.unreadable path.text .notYaml)
  | notMapping {text : String} {v : Value} {doc : Document} : t.readText path = .ok (some text) →
      Yaml.read {} text = .ok (v, doc) → doc.entries? v = none →
      IsReported t path (.notMapping path.text)
  | invalid {doc : Document} {entries : List Entry} {findings : List Finding} :
      HasMapping t path doc entries → (∀ entry ∈ entries, entry.1.isText = true) →
      check doc entries = .invalid findings → IsReported t path (.invalid path.text findings)

section Steps

theorem hasTextKeys_eq_false_iff :
    hasTextKeys entries = false ↔ ∃ entry ∈ entries, entry.1.isText = false := by
  simp [hasTextKeys]

theorem hasTextKeys_iff : hasTextKeys entries = true ↔ ∀ entry ∈ entries, entry.1.isText = true :=
  List.all_eq_true

theorem readText_eq_none_iff :
    t.readText path = .ok none ↔ ¬ path.holdsNull ∧ ∀ bytes, t.look path ≠ .file bytes := by
  unfold FileTree.readText
  by_cases hnull : path.holdsNull
  · simp [hnull]
  · cases hlook : t.look path with
    | file bytes => cases htext : String.fromUTF8? ⟨bytes.toArray⟩ <;> simp [hnull, htext]
    | _ => simp [hnull]

theorem ofEntries_cases (doc : Document) (path : Path) (entries : List Entry) :
    (hasTextKeys entries = false ∧ ofEntries doc path entries = .error (.fault .badField)) ∨
      (∃ findings, hasTextKeys entries = true ∧ check doc entries = .invalid findings ∧
        ofEntries doc path entries = .error (.config (.invalid path.text findings))) ∨
      ∃ o, hasTextKeys entries = true ∧ check doc entries = .valid o ∧
        ofEntries doc path entries = .ok (o.anchored path) := by
  unfold ofEntries
  cases hkeys : hasTextKeys entries with
  | false => exact .inl ⟨rfl, rfl⟩
  | true =>
    cases hcheck : check doc entries with
    | invalid findings => exact .inr (.inl ⟨findings, rfl, rfl, rfl⟩)
    | valid o => exact .inr (.inr ⟨o, rfl, rfl, rfl⟩)

theorem load_of_readText (htext : t.readText path = .ok (some text)) :
    load t path = ofText path text := by
  unfold load
  rw [htext]
  rfl

theorem HasMapping.load_eq (h : HasMapping t path doc entries) :
    load t path = ofEntries doc path entries := by
  obtain ⟨text, v, htext, hread, hentries⟩ := h
  rw [load_of_readText htext]
  simp only [ofText, hread, hentries]

end Steps

section Causes

theorem IsUnreported.load_eq (h : IsUnreported t path f) : load t path = .error (.fault f) := by
  cases h with
  | path hnull =>
    have htext : t.readText path = .error .badPath :=
      Graph.readText_eq_error_iff.mpr (.inl ⟨hnull, rfl⟩)
    unfold load
    rw [htext]
    rfl
  | bytes hnull hlook hno =>
    have htext : t.readText path = .error .notUnicode :=
      Graph.readText_eq_error_iff.mpr (.inr ⟨hnull, rfl, _, hlook, hno⟩)
    unfold load
    rw [htext]
    rfl
  | content htext hread =>
    rw [load_of_readText htext]
    simp only [ofText, hread]
  | field hmapping hentry hkey =>
    have hkeys := hasTextKeys_eq_false_iff.mpr ⟨_, hentry, hkey⟩
    rw [hmapping.load_eq, ofEntries, hkeys]
    rfl

theorem IsReported.load_eq (h : IsReported t path e) : load t path = .error (.config e) := by
  cases h with
  | inaccessible hnull hlook =>
    unfold load
    rw [readText_eq_none_iff.mpr ⟨hnull, hlook⟩]
    rfl
  | malformed htext hread =>
    rw [load_of_readText htext]
    simp only [ofText, hread]
  | notMapping htext hread hentries =>
    rw [load_of_readText htext]
    simp only [ofText, hread, hentries]
  | invalid hmapping hkeys hcheck =>
    rw [hmapping.load_eq, ofEntries, hasTextKeys_iff.mpr hkeys]
    simp only [hcheck, if_true]

theorem HasMapping.load_eq_ok (h : HasMapping t path doc entries)
    (hkeys : ∀ entry ∈ entries, entry.1.isText = true) (hcheck : check doc entries = .valid o) :
    load t path = .ok (o.anchored path) := by
  rw [h.load_eq, ofEntries, hasTextKeys_iff.mpr hkeys]
  simp only [hcheck, if_true]

/-- Every way in which loading can come out, with what it comes from. -/
theorem load_cases (t : FileTree) (path : Path) :
    (∃ f, IsUnreported t path f ∧ load t path = .error (.fault f)) ∨
      (∃ e, IsReported t path e ∧ load t path = .error (.config e)) ∨
      ∃ doc entries o, HasMapping t path doc entries ∧ hasTextKeys entries = true ∧
        check doc entries = .valid o ∧ load t path = .ok (o.anchored path) := by
  unfold load
  cases htext : t.readText path with
  | error f =>
    refine .inl ⟨f, ?_, rfl⟩
    rcases Graph.readText_eq_error_iff.mp htext with ⟨hnull, rfl⟩ | ⟨hnull, rfl, bytes, hlook, hno⟩
    · exact .path hnull
    · exact .bytes hnull hlook hno
  | ok text? =>
    cases text? with
    | none =>
      obtain ⟨hnull, hlook⟩ := readText_eq_none_iff.mp htext
      exact .inr (.inl ⟨_, .inaccessible hnull hlook, rfl⟩)
    | some text =>
      change (∃ f, _ ∧ ofText path text = _) ∨ (∃ e, _ ∧ ofText path text = _) ∨
        ∃ doc entries o, _ ∧ _ ∧ _ ∧ ofText path text = _
      unfold ofText
      cases hread : Yaml.read {} text with
      | error cause =>
        cases cause with
        | malformed => exact .inr (.inl ⟨_, .malformed htext hread, rfl⟩)
        | fault f => exact .inl ⟨f, .content htext hread, rfl⟩
      | ok r =>
        obtain ⟨v, doc⟩ := r
        cases hentries : doc.entries? v with
        | none =>
          simp only [hentries]
          exact .inr (.inl ⟨_, .notMapping htext hread hentries, rfl⟩)
        | some entries =>
          have hmapping : HasMapping t path doc entries := ⟨text, v, htext, hread, hentries⟩
          simp only [hentries]
          rcases ofEntries_cases doc path entries with
            ⟨hkeys, h⟩ | ⟨findings, hkeys, hcheck, h⟩ | ⟨o, hkeys, hcheck, h⟩
          · obtain ⟨entry, hentry, hkey⟩ := hasTextKeys_eq_false_iff.mp hkeys
            exact .inl ⟨_, .field hmapping hentry hkey, h⟩
          · exact .inr (.inl ⟨_, .invalid hmapping (hasTextKeys_iff.mp hkeys) hcheck, h⟩)
          · exact .inr (.inr ⟨doc, entries, o, hmapping, hkeys, hcheck, h⟩)

theorem load_eq_fault_iff : load t path = .error (.fault f) ↔ IsUnreported t path f := by
  constructor
  · intro h
    rcases load_cases t path with ⟨f', hf, h'⟩ | ⟨e, -, h'⟩ | ⟨doc, entries, o, -, -, -, h'⟩
    · cases h.symm.trans h'
      exact hf
    · cases h.symm.trans h'
    · cases h.symm.trans h'
  · exact IsUnreported.load_eq

theorem load_eq_config_iff : load t path = .error (.config e) ↔ IsReported t path e := by
  constructor
  · intro h
    rcases load_cases t path with ⟨f, -, h'⟩ | ⟨e', he, h'⟩ | ⟨doc, entries, o, -, -, -, h'⟩
    · cases h.symm.trans h'
    · cases h.symm.trans h'
      exact he
    · cases h.symm.trans h'
  · exact IsReported.load_eq

theorem load_eq_ok_iff : load t path = .ok o ↔ ∃ doc entries o', HasMapping t path doc entries ∧
    (∀ entry ∈ entries, entry.1.isText = true) ∧ check doc entries = .valid o' ∧
    o = o'.anchored path := by
  constructor
  · intro h
    rcases load_cases t path with ⟨f, -, h'⟩ | ⟨e, -, h'⟩ | ⟨doc, entries, o', hmapping, hkeys, hcheck, h'⟩
    · cases h.symm.trans h'
    · cases h.symm.trans h'
    · cases h.symm.trans h'
      exact ⟨doc, entries, o', hmapping, hasTextKeys_iff.mp hkeys, hcheck, rfl⟩
  · rintro ⟨doc, entries, o', hmapping, hkeys, hcheck, rfl⟩
    exact hmapping.load_eq_ok hkeys hcheck

end Causes

/-- Loading gives options or reports a bad configuration exactly if nothing else stands in the way:
the path and the bytes are text, every version and scalar has a value, and every field of the mapping
is named by a text. What is met otherwise comes out as it is. -/
theorem bad_configuration_is_reported_iff (t : FileTree) (path : Path) :
    ((∃ o, load t path = .ok o) ∨ (∃ e, load t path = .error (.config e)) ↔
      ∀ f, ¬ IsUnreported t path f) ∧
    (∀ f, load t path = .error (.fault f) ↔ IsUnreported t path f) ∧
    (∀ e, load t path = .error (.config e) ↔ IsReported t path e) ∧
    (∀ text f, Yaml.read {} text = .error (.fault f) → Yaml.IsReaderFault f) ∧
    ∀ o, load t path = .ok o ↔ ∃ doc entries o', HasMapping t path doc entries ∧
      (∀ entry ∈ entries, entry.1.isText = true) ∧ check doc entries = .valid o' ∧
      o = o'.anchored path := by
  refine ⟨?_, fun f => load_eq_fault_iff, fun e => load_eq_config_iff,
    fun text => (Yaml.isReadable_read {} text).fault, fun o => load_eq_ok_iff⟩
  constructor
  · intro hdone f hf
    rcases hdone with ⟨o, h⟩ | ⟨e, h⟩
    · cases h.symm.trans hf.load_eq
    · cases h.symm.trans hf.load_eq
  · intro hclear
    rcases load_cases t path with ⟨f, hf, -⟩ | ⟨e, -, h⟩ | ⟨doc, entries, o, -, -, -, h⟩
    · exact (hclear f hf).elim
    · exact .inr ⟨e, h⟩
    · exact .inl ⟨_, h⟩

def numberedField : FileTree where
  home := ["work"]
  nodes := [(["work", "cfg.yaml"], .file "services: []\n1: x\n".toUTF8.toList)]

theorem numberedField_is_not_reported :
    IsUnreported numberedField (.ofText "cfg.yaml") .badField ∧
      load numberedField (.ofText "cfg.yaml") = .error (.fault .badField) := by
  have hfault : load numberedField (.ofText "cfg.yaml") = .error (.fault .badField) := by
    decide +kernel
  obtain ⟨-, hiff, -⟩ := bad_configuration_is_reported_iff numberedField (.ofText "cfg.yaml")
  exact ⟨(hiff _).mp hfault, hfault⟩

end RouteCatalog.Options
