import RouteCatalog.Proofs.Sequence
import RouteCatalog.Route.Descent

/-! The record of one endpoint: what it takes over unchanged, and when there is one. -/

namespace RouteCatalog

namespace Parts

def AreTexts (parts : Parts) : Prop :=
  ∃ body params query response, parts = ⟨.text body, .text params, .text query, .text response⟩

theorem areTexts_default : AreTexts {} := ⟨_, _, _, _, rfl⟩

theorem areTexts_set? {parts : Parts} (h : parts.AreTexts) (name text : String) :
    ((parts.set? name (.text text)).getD parts).AreTexts := by
  obtain ⟨body, params, query, response, rfl⟩ := h
  unfold set?
  split
  · exact ⟨text, params, query, response, rfl⟩
  · exact ⟨body, text, query, response, rfl⟩
  · exact ⟨body, params, text, response, rfl⟩
  · exact ⟨body, params, query, text, rfl⟩
  · exact ⟨body, params, query, response, rfl⟩

theorem exists_repair_eq_ok {parts : Parts} (h : parts.AreTexts) (path : String) :
    ∃ repaired, parts.repair path = .ok repaired ∧ repaired.AreTexts := by
  obtain ⟨body, params, query, response, rfl⟩ := h
  exact ⟨_, rfl, body, _, query, response, rfl⟩

theorem checkOptionalText_present (default text : String) :
    (present default (.text text)).checkOptionalText =
      .valid (if text = default then none else some text) := by
  by_cases h : text = default
  · simp [present, h, Value.checkOptionalText]
  · simp [present, h, Value.checkOptionalText, Value.checkText, Functor.map, Checked.apply]

theorem exists_check_eq_valid {parts : Parts} (h : parts.AreTexts) (path : String) (m : Method) :
    ∃ e, parts.check path m = .valid e := by
  obtain ⟨body, params, query, response, rfl⟩ := h
  simp only [check, checkOptionalText_present, value, Value.checkText]
  exact ⟨_, rfl⟩

theorem of_check_eq_valid {parts : Parts} {path : String} {m : Method} {e : Endpoint}
    (h : parts.check path m = .valid e) : e.path = path ∧ e.method = m := by
  unfold check at h
  cases hb : (present "unknown" parts.body).checkOptionalText <;>
    cases hp : (present "\x7b\x7d" parts.params).checkOptionalText <;>
    cases hq : (present "unknown" parts.query).checkOptionalText <;>
    cases hr : (value parts.response).checkText <;>
    rw [hb, hp, hq, hr] at h <;> cases h
  exact ⟨rfl, rfl⟩

end Parts

namespace HandleSystem

variable {H I : Type} {sys : HandleSystem H I}

theorem exists_collectParts_eq_ok {parts : Parts} {properties : List (String × H)}
    (hparts : parts.AreTexts)
    (h : ∀ p ∈ properties, Parts.isPart p.1 → ∃ text, sys.express p.2 = .ok (.text text)) :
    ∃ collected, sys.collectParts parts properties = .ok collected ∧ collected.AreTexts := by
  induction properties generalizing parts with
  | nil => exact ⟨parts, rfl, hparts⟩
  | cons p rest ih =>
    have hrest := fun q hq => h q (List.mem_cons_of_mem p hq)
    unfold collectParts
    split
    · rename_i hpart
      obtain ⟨text, htext⟩ := h p List.mem_cons_self hpart
      rw [htext]
      exact ih (Parts.areTexts_set? hparts p.1 text) hrest
    · exact ih hparts hrest

theorem exists_endpoint_eq_ok {descriptor : H} (h : Route.IsReadable sys descriptor)
    (path : String) (m : Method) : ∃ e, sys.endpoint descriptor path m = .ok e := by
  obtain ⟨properties, hproperties, htexts⟩ := h
  obtain ⟨parts, hparts, hcollected⟩ := exists_collectParts_eq_ok Parts.areTexts_default htexts
  obtain ⟨repaired, hrepaired, hall⟩ := Parts.exists_repair_eq_ok hcollected path
  obtain ⟨e, he⟩ := Parts.exists_check_eq_valid hall path m
  refine ⟨e, ?_⟩
  unfold endpoint
  rw [hproperties]
  change liftFault (sys.collectParts {} properties >>= fun parts => parts.repair path) >>= _ = _
  rw [hparts]
  change liftFault (parts.repair path) >>= _ = _
  rw [hrepaired]
  change (repaired.check path m).toExcept = _
  rw [he]
  rfl

theorem of_endpoint_eq_ok {descriptor : H} {path : String} {m : Method} {e : Endpoint}
    (h : sys.endpoint descriptor path m = .ok e) : e.path = path ∧ e.method = m := by
  obtain ⟨parts, -, h⟩ := bind_eq_ok_iff.mp h
  cases hc : parts.check path m with
  | valid e' =>
    rw [hc] at h
    cases h
    exact Parts.of_check_eq_valid hc
  | invalid findings =>
    rw [hc] at h
    cases h

end HandleSystem

end RouteCatalog
