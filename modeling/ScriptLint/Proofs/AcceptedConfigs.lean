import ScriptLint.Proofs.ConfigEntries

namespace ScriptLint.Config

open ConfigEntry

variable {c : Config} {v : Json} {entries : List (String × Json)} {error : ConfigError}

theorem exists_readEntries_iff :
    (∃ c', c.readEntries entries = .ok c') ↔ ∀ e ∈ entries, IsOff e ∨ IsValid e := by
  induction entries generalizing c with
  | nil => simp [readEntries]
  | cons e rest ih =>
      rw [List.forall_mem_cons, ← exists_readEntry_iff (c := c)]
      simp only [readEntries, bind_eq_ok_iff]
      constructor
      · rintro ⟨c', d, hd, hrest⟩
        exact ⟨⟨d, hd⟩, ih.mp ⟨c', hrest⟩⟩
      · rintro ⟨⟨d, hd⟩, hrest⟩
        obtain ⟨c', hc'⟩ := (ih (c := d)).mpr hrest
        exact ⟨c', d, hd, hc'⟩

theorem readEntries_of_fault {before after : List (String × Json)} {e : String × Json}
    (hbefore : ∀ x ∈ before, IsOff x ∨ IsValid x) (h : Fault e error) :
    c.readEntries (before ++ e :: after) = .error error := by
  induction before generalizing c with
  | nil =>
      rw [List.nil_append, readEntries, readEntry_of_fault h]
      rfl
  | cons x before ih =>
      obtain ⟨hx, hrest⟩ := List.forall_mem_cons.mp hbefore
      obtain ⟨d, hd⟩ := exists_readEntry_iff.mpr hx
      rw [List.cons_append, readEntries, hd]
      exact ih hrest

theorem readEntries_eq_error_iff :
    c.readEntries entries = .error error ↔ ∃ before e after, entries = before ++ e :: after ∧
      (∀ x ∈ before, IsOff x ∨ IsValid x) ∧ Fault e error := by
  constructor
  · intro h
    induction entries generalizing c with
    | nil => cases h
    | cons e rest ih =>
        rw [readEntries] at h
        cases hread : c.readEntry e.1 e.2 with
        | error other =>
            rw [hread] at h
            cases h
            exact ⟨[], e, rest, rfl, by simp, readEntry_eq_error_iff.mp hread⟩
        | ok d =>
            rw [hread] at h
            obtain ⟨before, x, after, rfl, hbefore, hx⟩ := ih h
            refine ⟨e :: before, x, after, rfl, ?_, hx⟩
            exact List.forall_mem_cons.mpr ⟨exists_readEntry_iff.mp ⟨d, hread⟩, hbefore⟩
  · rintro ⟨before, e, after, rfl, hbefore, h⟩
    exact readEntries_of_fault hbefore h

theorem ofJson_of_not_rules (h : ∀ entries, v.get? "rules" ≠ some (.object entries)) :
    ofJson v = .error .missingRules := by
  have hentries : (v.get? "rules").bind Json.entries? = Option.none := by
    cases hrules : v.get? "rules" with
    | none => rfl
    | some rules =>
        cases rules with
        | object entries => exact absurd hrules (h entries)
        | _ => rfl
  rw [ofJson, hentries]

theorem exists_ofJson_iff :
    (∃ c, ofJson v = .ok c) ↔ ∃ entries, v.get? "rules" = some (.object entries) ∧
      ∀ e ∈ entries, IsOff e ∨ IsValid e := by
  by_cases hrules : ∃ entries, v.get? "rules" = some (.object entries)
  · obtain ⟨entries, h⟩ := hrules
    rw [ofJson_of_rules h, exists_readEntries_iff, h]
    simp
  · rw [not_exists] at hrules
    simp [ofJson_of_not_rules hrules, hrules]

theorem ofJson_eq_error_iff :
    ofJson v = .error error ↔
      ((∀ entries, v.get? "rules" ≠ some (.object entries)) ∧ error = .missingRules) ∨
        ∃ before e after, v.get? "rules" = some (.object (before ++ e :: after)) ∧
          (∀ x ∈ before, IsOff x ∨ IsValid x) ∧ Fault e error := by
  by_cases hrules : ∃ entries, v.get? "rules" = some (.object entries)
  · obtain ⟨entries, h⟩ := hrules
    rw [ofJson_of_rules h, readEntries_eq_error_iff, h]
    simp
  · rw [not_exists] at hrules
    simp [ofJson_of_not_rules hrules, hrules, eq_comm]

/-- What a configuration is accepted for, what it is refused for, and when to be accepted is to
be valid. -/
theorem accepted_iff_valid_iff (v : Json) :
    ((∃ c, ofJson v = .ok c) ↔ ∃ entries, v.get? "rules" = some (.object entries) ∧
      ∀ e ∈ entries, IsOff e ∨ IsValid e) ∧
    (∀ error, ofJson v = .error error ↔
      ((∀ entries, v.get? "rules" ≠ some (.object entries)) ∧ error = .missingRules) ∨
        ∃ before e after, v.get? "rules" = some (.object (before ++ e :: after)) ∧
          (∀ x ∈ before, IsOff x ∨ IsValid x) ∧ Fault e error) ∧
    (((∃ c, ofJson v = .ok c) ↔ ∃ entries, v.get? "rules" = some (.object entries) ∧
        ∀ e ∈ entries, IsValid e) ↔
      ¬∃ entries, v.get? "rules" = some (.object entries) ∧
        (∀ e ∈ entries, IsOff e ∨ IsValid e) ∧ ∃ e ∈ entries, IsOff e ∧ ¬IsValid e) := by
  refine ⟨exists_ofJson_iff, fun error => ofJson_eq_error_iff, ?_⟩
  rw [exists_ofJson_iff]
  constructor
  · rintro h ⟨entries, hrules, hread, e, he, -, hinvalid⟩
    obtain ⟨entries', hrules', hvalid⟩ := h.mp ⟨entries, hrules, hread⟩
    cases hrules.symm.trans hrules'
    exact hinvalid (hvalid e he)
  · intro h
    constructor
    · rintro ⟨entries, hrules, hread⟩
      refine ⟨entries, hrules, fun e he => ?_⟩
      by_contra hinvalid
      exact h ⟨entries, hrules, hread, e, he, (hread e he).resolve_right hinvalid, hinvalid⟩
    · rintro ⟨entries, hrules, hvalid⟩
      exact ⟨entries, hrules, fun e he => .inr (hvalid e he)⟩

/-- A name that is that of no rule is accepted where the entry is off. -/
theorem accepted_unknown_rule :
    let v : Json := .object [("rules", .object [("no-such-rule", .string "off")])]
    ofJson v = .ok none ∧
      ¬∃ entries, v.get? "rules" = some (.object entries) ∧ ∀ e ∈ entries, IsValid e := by
  intro v
  refine ⟨rfl, ?_⟩
  rintro ⟨entries, hrules, hvalid⟩
  cases hrules
  obtain ⟨r, hr⟩ := (hvalid _ List.mem_cons_self).rule
  cases r <;> exact absurd hr (by decide)

end ScriptLint.Config
