import RouteCatalog.Graph.Normalization
import RouteCatalog.Proofs.ExampleValues
import RouteCatalog.Proofs.ExpansionNoise
import RouteCatalog.Proofs.PathParams
import RouteCatalog.Proofs.SpelledTypes

/-! The example constant of a snippet. The type of the parameters, however it is spelled, becomes an
object literal with the same fields, each of them as the replacements leave it. It is the object of
the example values exactly if no field is optional and no replacement finds anything in a key. -/

namespace RouteCatalog.Markdown

open Text TypeExpr

variable {key padding : List Char}

section Literals

/-- The text of a key: a name in which no sign of a literal stands, or a quoted text. -/
def IsKey (key : List Char) : Prop :=
  (key ≠ [] ∧ ∀ c ∈ key, c ∉ [';', ',', ':', '?', '"', '\x7b', '\x7d']) ∨
    ∃ name, key = (quoted name).toList

structure Field where
  key : List Char
  optional : Bool
  isKey : IsKey key

def mark (optional : Bool) : List Char := if optional then ['?'] else []

def Field.type (f : Field) : List Char := f.key ++ mark f.optional ++ ": string".toList

def Field.value (f : Field) : List Char := f.key ++ ": \"example-value\"".toList

/-- The field as the replacements leave it. -/
def Field.converted (f : Field) : List Char :=
  Markdown.converted f.key ++ mark f.optional ++ ": \"example-value\"".toList

/-- How the type of an object is spelled: what stands within its braces, what separates its fields
and whether a separator stands behind the last one too. -/
structure Spelling where
  padding : List Char
  separator : Char
  isTerminated : Bool
  blank : ∀ c ∈ padding, isBlank c = true
  separates : separator = ',' ∨ separator = ';'

def Spelling.type (s : Spelling) (fields : List Field) : List Char :=
  '\x7b' :: (s.padding ++ ([s.separator, ' '].intercalate (fields.map Field.type) ++
    ((if s.isTerminated then [s.separator] else []) ++ (s.padding ++ ['\x7d']))))

def literal (padding : List Char) (entries : List (List Char)) : List Char :=
  '\x7b' :: (padding ++ ([',', ' '].intercalate entries ++ (padding ++ ['\x7d'])))

/-- As a path spells its parameters. -/
def Spelling.compact : Spelling := ⟨[], ',', false, by simp, .inl rfl⟩

/-- As an object is spelled. -/
def Spelling.spaced : Spelling := ⟨[' '], ';', false, by simp [isBlank_blank], .inr rfl⟩

variable {f : Field}

theorem IsKey.closes_eq_false (h : IsKey key) : closes key = false := by
  rcases h with ⟨-, hplain⟩ | ⟨name, rfl⟩
  · rw [closes, beq_eq_false_iff_ne]
    intro hhead
    have hmem : '\x7d' ∈ key :=
      (List.dropWhile_suffix isBlank).subset (List.mem_of_mem_head? hhead)
    exact hplain _ hmem (by simp)
  · rw [toList_quoted]
    rfl

/-- The comma in front of a field is not one too many. -/
theorem closes_type_append (f : Field) (rest : List Char) : closes (f.type ++ rest) = false := by
  unfold Field.type mark
  rw [List.append_assoc, List.append_assoc, ← f.isKey.closes_eq_false]
  cases f.optional with
  | false => exact closes_append_cons (c := ':') (by decide) (by decide) _ _
  | true => exact closes_append_cons (c := '?') (by decide) (by decide) _ _

theorem converted_type_append (f : Field) (rest : List Char) :
    converted (f.type ++ rest) = f.converted ++ converted rest := by
  unfold Field.type Field.converted mark
  cases f.optional with
  | false =>
    simp only [Bool.false_eq_true, if_false, List.append_nil]
    rw [List.append_assoc, converted_append_type, List.append_assoc]
  | true =>
    have htype : converted (": string".toList ++ rest) =
        ": \"example-value\"".toList ++ converted rest := by
      simpa [converted_nil] using converted_append_type [] rest
    simp only [if_true, List.append_assoc, List.cons_append, List.nil_append]
    rw [converted_append_mark, htype]

theorem converted_type (s : Spelling) (fields : List Field) :
    converted (s.type fields) = literal s.padding (fields.map Field.converted) := by
  have hclosing : converted ((if s.isTerminated then [s.separator] else []) ++
      (s.padding ++ ['\x7d'])) = s.padding ++ ['\x7d'] := by
    cases s.isTerminated with
    | false => exact converted_closing s.blank
    | true => exact converted_terminator s.separates s.blank
  have hfields (closing : List Char) : converted ([s.separator, ' '].intercalate
      (fields.map Field.type) ++ closing) =
        [',', ' '].intercalate (fields.map Field.converted) ++ converted closing := by
    induction fields with
    | nil => rfl
    | cons f fields ih =>
      cases fields with
      | nil => simpa using converted_type_append f closing
      | cons f' fields =>
        have hopen : closes ([s.separator, ' '].intercalate ((f' :: fields).map Field.type) ++
            closing) = false := by
          cases fields with
          | nil => simpa using closes_type_append f' closing
          | cons f'' fields =>
            rw [intercalate_map_cons_cons, List.append_assoc]
            exact closes_type_append f' _
        rw [intercalate_map_cons_cons, intercalate_map_cons_cons, List.append_assoc,
          List.append_assoc, converted_type_append, List.append_assoc, List.append_assoc, ← ih]
        exact congrArg _ (converted_separator s.separates hopen)
  rw [Spelling.type, ← List.singleton_append, converted_append (by simp),
    converted_append (not_mem_of_blank s.blank), hfields, hclosing]
  rfl

theorem weigh_mark (optional : Bool) : weigh (mark optional) = if optional then -1 else 0 := by
  cases optional <;> decide

theorem noHeavier_field_converted (f : Field) : NoHeavier f.converted f.value := by
  have hmark : NoHeavier (mark f.optional) [] := by
    cases f.optional with
    | false => exact .inl rfl
    | true => exact .inr (by decide)
  have hkey : NoHeavier (converted f.key ++ mark f.optional) (f.key ++ []) :=
    (noHeavier_converted f.key).append hmark
  rw [List.append_nil] at hkey
  exact hkey.append (.inl rfl)

theorem field_converted_eq_value_iff :
    f.converted = f.value ↔ f.optional = false ∧ IsUntouched f.key := by
  rw [← converted_eq_self_iff]
  constructor
  · intro h
    have hweigh := congrArg weigh h
    have hkey := noHeavier_converted f.key
    have hle := hkey.le
    rw [Field.converted, Field.value, weigh_append, weigh_append, weigh_append, weigh_mark] at hweigh
    cases hoptional : f.optional with
    | false =>
      rw [hoptional] at hweigh
      exact ⟨rfl, hkey.eq_of_le (by simp at hweigh; omega)⟩
    | true =>
      rw [hoptional, if_pos rfl] at hweigh
      omega
  · rintro ⟨hoptional, hkey⟩
    rw [Field.converted, Field.value, hkey, hoptional]
    simp [mark]

theorem weigh_literal (hpadding : ∀ c ∈ padding, isBlank c = true) (entries : List (List Char)) :
    weigh (literal padding entries) = weigh ([',', ' '].intercalate entries) := by
  have hblanks : weigh padding = 0 := by
    refine List.sum_eq_zero fun w hw => ?_
    obtain ⟨c, hc, rfl⟩ := List.mem_map.mp hw
    have hblank := hpadding c hc
    have hne : c ∉ [';', ',', '"', '?'] := by
      intro hmem
      simp only [List.mem_cons, List.not_mem_nil, or_false] at hmem
      rcases hmem with rfl | rfl | rfl | rfl <;> exact absurd hblank (by decide)
    simp only [List.mem_cons, List.not_mem_nil, or_false, not_or] at hne
    simp [weight, hne]
  have hopening : weigh ['\x7b'] = 0 := by decide
  have hclosing : weigh ['\x7d'] = 0 := by decide
  rw [literal, ← List.singleton_append, weigh_append, weigh_append, weigh_append, weigh_append,
    hblanks, hopening, hclosing]
  omega

/-- The fields as the replacements leave them are those of the example values if nothing has been
found in them: whatever is found makes a text lighter. -/
theorem literal_converted_iff (hpadding : ∀ c ∈ padding, isBlank c = true) (fields : List Field) :
    (∃ padding', (∀ c ∈ padding', isBlank c = true) ∧
      String.ofList (literal padding (fields.map Field.converted)) =
        .ofList (literal padding' (fields.map Field.value))) ↔
      ∀ f ∈ fields, f.optional = false ∧ IsUntouched f.key := by
  constructor
  · rintro ⟨padding', hpadding', heq⟩ f hf
    have hliteral : literal padding (fields.map Field.converted) =
        literal padding' (fields.map Field.value) := by
      simpa using congrArg String.toList heq
    have hweigh := congrArg weigh hliteral
    rw [weigh_literal hpadding, weigh_literal hpadding'] at hweigh
    exact field_converted_eq_value_iff.mp
      (eq_of_weigh_intercalate_le (fun f _ => noHeavier_field_converted f) hweigh.ge f hf)
  · intro h
    have hsame : fields.map Field.converted = fields.map Field.value :=
      List.map_congr_left fun f hf => field_converted_eq_value_iff.mpr (h f hf)
    exact ⟨padding, hpadding, by rw [hsame]⟩

end Literals

section Spelled

theorem isKey_of_isRawKey (h : isRawKey key = true) : IsKey key := by
  obtain ⟨hne, hkey⟩ := isKeyChar_of_isRawKey h
  refine .inl ⟨hne, fun c hc hmem => ?_⟩
  have hsigns : ∀ c ∈ [';', ',', ':', '?', '"', '\x7b', '\x7d'], c ∈ '[' :: punctuation := by
    simp [punctuation]
  exact ne_of_isKeyChar (hkey c hc) (hsigns c hmem) rfl

theorem isKey_rawKey (name : String) : IsKey (rawKey name).toList := by
  cases h : isRawKey name.toList with
  | true =>
    rw [rawKey_of_isRawKey h]
    exact isKey_of_isRawKey h
  | false => exact .inr ⟨name, by rw [rawKey_of_not_isRawKey h]⟩

theorem isKey_formatKey (name : String) : IsKey (formatKey name).toList := by
  cases h : isIdentifier name.toList with
  | true =>
    rw [formatKey_of_isIdentifier h]
    exact isKey_of_isRawKey (isIdentifier_iff.mp h).1
  | false => exact .inr ⟨name, by rw [formatKey_of_not_isIdentifier h]⟩

variable {path : String} {fields : List Field} {g : Graph} {h : Handle}
  {render : Handle → Except Fault Label} {ps : List Property} {keyOf : String → String}

/-- The parameters of a path are spelled without blanks; a name may carry the optional mark. -/
theorem paramsType_eq_type
    (hnames : Route.paramNames path = fields.map fun f => String.ofList (f.key ++ mark f.optional)) :
    Route.paramsType path = .ofList (Spelling.compact.type fields) := by
  have hwhole : Route.paramsType path =
      "\x7b" ++ ", ".intercalate ((Route.paramNames path).map (· ++ ": string")) ++ "\x7d" := by
    by_cases hnil : Route.paramNames path = []
    · rw [Route.paramsType_eq_empty_iff.mpr hnil, hnil]
      rfl
    · exact Route.paramsType_of_ne_nil hnil
  apply String.toList_inj.mp
  rw [hwhole, hnames, List.map_map]
  have hentries : (fields.map ((· ++ ": string") ∘
      fun f => String.ofList (f.key ++ mark f.optional))).map String.toList =
        fields.map Field.type := by
    rw [List.map_map]
    refine List.map_congr_left fun f _ => ?_
    simp [Field.type]
  simp only [String.toList_append, String.toList_intercalate, hentries, String.toList_ofList]
  simp [Spelling.type, Spelling.compact]

def Field.ofProperty (keyOf : String → String) (hkey : ∀ name, IsKey (keyOf name).toList)
    (p : Property) : Field := ⟨(keyOf p.name).toList, p.optional, hkey p.name⟩

theorem entries_eq_type (hkey : ∀ name, IsKey (keyOf name).toList) (ps : List Property) :
    "\x7b " ++ "; ".intercalate (ps.map fun p =>
      keyOf p.name ++ (if p.optional then "?" else "") ++ ": " ++ "string") ++ " \x7d" =
        .ofList (Spelling.spaced.type (ps.map (Field.ofProperty keyOf hkey))) := by
  have hentries : (ps.map fun p =>
      keyOf p.name ++ (if p.optional then "?" else "") ++ ": " ++ "string").map String.toList =
        (ps.map (Field.ofProperty keyOf hkey)).map Field.type := by
    rw [List.map_map, List.map_map]
    refine List.map_congr_left fun p _ => ?_
    cases hoptional : p.optional <;> simp [Field.type, Field.ofProperty, mark, hoptional]
  apply String.toList_inj.mp
  simp only [String.toList_append, String.toList_intercalate, hentries, String.toList_ofList]
  simp [Spelling.type, Spelling.spaced]

theorem mapM_entries_eq (keyOf : String → String)
    (hstrings : ∀ p ∈ ps, render p.type = .ok (.text "string")) :
    (ps.mapM fun p => do
      let label ← render p.type
      return keyOf p.name ++ (if p.optional then "?" else "") ++ ": " ++ label.spliced g.doc) =
        .ok (ps.map fun p =>
          keyOf p.name ++ (if p.optional then "?" else "") ++ ": " ++ "string") := by
  rw [mapM_eq_ok_iff, List.forall₂_map_right_iff, List.forall₂_same]
  intro p hp
  rw [hstrings p hp]
  rfl

/-- An object whose properties are strings is spelled with blanks where it is rendered, -/
theorem renderNode_eq_type (hkind : g.kind? h = some .object) (hps : g.properties h = .ok ps)
    (hne : ps ≠ []) (hstrings : ∀ p ∈ ps, render p.type = .ok (.text "string")) :
    g.renderNode render h =
      .ok (.text (.ofList (Spelling.spaced.type (ps.map (Field.ofProperty rawKey isKey_rawKey))))) := by
  rw [Graph.renderNode, hkind, ← entries_eq_type]
  simp only [hps, bind, Except.bind, List.isEmpty_iff, hne, if_false]
  have hentries := mapM_entries_eq (g := g) rawKey hstrings
  simp only [bind, Except.bind] at hentries
  rw [hentries]
  rfl

/-- and where it is written property by property. -/
theorem objectLiteral_eq_type {written : List Property}
    (hwritten : ps.filter (fun p => !symbolMark.toList.isPrefixOf p.name.toList) = written)
    (hne : written ≠ []) (hstrings : ∀ p ∈ written, render p.type = .ok (.text "string")) :
    g.objectLiteral render ps = .ok (some (.text (.ofList
      (Spelling.spaced.type (written.map (Field.ofProperty formatKey isKey_formatKey)))))) := by
  have hentries := mapM_entries_eq (g := g) formatKey hstrings
  rw [Graph.objectLiteral, hwritten, ← entries_eq_type]
  simp only [bind, Except.bind] at hentries ⊢
  rw [hentries]
  simp only [List.isEmpty_iff, List.map_eq_nil_iff, hne, if_false]
  rfl

end Spelled

/-- The example constant is the object of the fields as the replacements leave them. It is the object
of the example values under the same keys, whatever stands within its braces, exactly if no field is
optional and no replacement finds anything in a key. What a path, the rendering of an object and an
object literal give for fields that hold texts is spelled so. -/
theorem example_params_are_values_iff (s : Spelling) (fields : List Field) :
    exampleParams (.ofList (s.type fields)) =
      .ofList (literal s.padding (fields.map Field.converted)) ∧
    ((∃ padding, (∀ c ∈ padding, isBlank c = true) ∧
      exampleParams (.ofList (s.type fields)) = .ofList (literal padding (fields.map Field.value))) ↔
      ∀ f ∈ fields, f.optional = false ∧ IsUntouched f.key) ∧
    (∀ path, Route.paramNames path = fields.map (fun f => .ofList (f.key ++ mark f.optional)) →
      Route.paramsType path = .ofList (Spelling.compact.type fields)) ∧
    (∀ (g : Graph) (h : Handle) (render : Handle → Except Fault Label) (ps : List Property),
      g.kind? h = some .object → g.properties h = .ok ps → ps ≠ [] →
      (∀ p ∈ ps, render p.type = .ok (.text "string")) →
      fields = ps.map (Field.ofProperty rawKey isKey_rawKey) →
      g.renderNode render h = .ok (.text (.ofList (Spelling.spaced.type fields)))) ∧
    ∀ (g : Graph) (render : Handle → Except Fault Label) (ps written : List Property),
      ps.filter (fun p => !symbolMark.toList.isPrefixOf p.name.toList) = written → written ≠ [] →
      (∀ p ∈ written, render p.type = .ok (.text "string")) →
      fields = written.map (Field.ofProperty formatKey isKey_formatKey) →
      g.objectLiteral render ps = .ok (some (.text (.ofList (Spelling.spaced.type fields)))) := by
  have hconverted : exampleParams (.ofList (s.type fields)) =
      .ofList (literal s.padding (fields.map Field.converted)) := by
    apply String.toList_inj.mp
    rw [toList_exampleParams, String.toList_ofList, String.toList_ofList, converted_type]
  refine ⟨hconverted, ?_, fun path => paramsType_eq_type, ?_, ?_⟩
  · rw [hconverted]
    exact literal_converted_iff s.blank fields
  · rintro g h render ps hkind hps hne hstrings rfl
    exact renderNode_eq_type hkind hps hne hstrings
  · rintro g render ps written hwritten hne hstrings rfl
    exact objectLiteral_eq_type hwritten hne hstrings

def pageFields : List Field :=
  [⟨"id".toList, false, .inl (by simp)⟩, ⟨"tab".toList, true, .inl (by simp)⟩]

theorem optional_mark_stays :
    String.ofList (Spelling.spaced.type pageFields) = "\x7b id: string; tab?: string \x7d" ∧
      exampleParams "\x7b id: string; tab?: string \x7d" =
        "\x7b id: \"example-value\", tab?: \"example-value\" \x7d" ∧
      (∀ padding, (∀ c ∈ padding, isBlank c = true) →
        exampleParams "\x7b id: string; tab?: string \x7d" ≠
          .ofList (literal padding (pageFields.map Field.value))) ∧
      Route.paramsType "/:id/:tab?" = .ofList (Spelling.compact.type pageFields) := by
  have htype : String.ofList (Spelling.spaced.type pageFields) =
      "\x7b id: string; tab?: string \x7d" := by rfl
  have hkey (key : List Char) (h : ∀ c ∈ key, c ∉ [',', ';', ':']) : converted key = key := by
    rw [← List.append_nil key, converted_append h, converted_nil]
  obtain ⟨hconverted, hiff, hpath, -⟩ := example_params_are_values_iff Spelling.spaced pageFields
  rw [htype] at hconverted hiff
  refine ⟨htype, ?_, ?_, hpath "/:id/:tab?" (by decide)⟩
  · rw [hconverted, pageFields]
    simp only [List.map_cons, List.map_nil, Field.converted]
    rw [hkey _ (by simp), hkey _ (by simp)]
    rfl
  · intro padding hpadding heq
    have hall := hiff.mp ⟨padding, hpadding, heq⟩
    have hoptional := (hall ⟨"tab".toList, true, .inl (by simp)⟩ (by simp [pageFields])).1
    cases hoptional

end RouteCatalog.Markdown
