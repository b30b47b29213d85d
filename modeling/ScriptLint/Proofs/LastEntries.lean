import ScriptLint.Proofs.ConfigEntries

namespace ScriptLint

open ConfigEntry

namespace KnownRule

/-- The state that an entry gives a rule that it names. -/
def given (r : KnownRule) (e : String × Json) : Option (Severity × r.Options) :=
  match Config.decodeSeverity? (writtenSeverity e), r.readOptions (writtenOptions? e) with
  | some (some s), .ok o => some (s, o)
  | _, _ => none

theorem given_eq_some_iff {r : KnownRule} {e : String × Json} {s : Severity} {o : r.Options} :
    r.given e = some (s, o) ↔
      (writtenSeverity e, some s) ∈ Config.writtenSeverities ∧
        r.readOptions (writtenOptions? e) = .ok o := by
  rw [← Config.decodeSeverity?_eq_some_iff, given]
  split <;> simp_all

end KnownRule

namespace Config

variable {c c' : Config} {r : KnownRule} {e : String × Json}
  {entries before after : List (String × Json)}

theorem given_of_isOff (h : IsOff e) : r.given e = Option.none := by
  rw [Option.eq_none_iff_forall_ne_some]
  rintro ⟨s, o⟩ hsome
  have hs := (KnownRule.given_eq_some_iff.mp hsome).1
  rw [← decodeSeverity?_eq_some_iff] at hs
  have hoff := decodeSeverity?_eq_some_iff.mpr h
  rw [hs] at hoff
  cases hoff

theorem state_readEntry_of_passed (h : c.readEntry e.1 e.2 = .ok c')
    (hpassed : r.Names e.1 → IsOff e) : c'.state r = c.state r := by
  rcases readEntry_eq_ok_iff.mp h with ⟨-, rfl⟩ | ⟨x, hx, rfl⟩
  · rfl
  · apply state_switch_of_ne
    rintro rfl
    have hgiven := KnownRule.given_eq_some_iff.mpr ⟨hx.severity, hx.options⟩
    rw [given_of_isOff (hpassed hx.rule)] at hgiven
    cases hgiven

theorem state_readEntry_of_on (h : c.readEntry e.1 e.2 = .ok c') (hr : r.Names e.1)
    (hon : ¬IsOff e) : c'.state r = r.given e ∧ (r.given e).isSome := by
  rcases readEntry_eq_ok_iff.mp h with ⟨hoff, -⟩ | ⟨⟨t, s, o⟩, hx, rfl⟩
  · exact absurd hoff hon
  · cases hr.unique hx.rule
    rw [KnownRule.given_eq_some_iff.mpr ⟨hx.severity, hx.options⟩]
    exact ⟨state_switch_self c _ s o, rfl⟩

theorem readEntries_append (c : Config) (before after : List (String × Json)) :
    c.readEntries (before ++ after) = (c.readEntries before).bind (·.readEntries after) := by
  induction before generalizing c with
  | nil => rfl
  | cons e rest ih =>
      rw [List.cons_append, readEntries, readEntries]
      cases c.readEntry e.1 e.2 with
      | error error => rfl
      | ok d => exact ih d

theorem state_readEntries_of_passed (h : c.readEntries entries = .ok c')
    (hpassed : ∀ e ∈ entries, r.Names e.1 → IsOff e) : c'.state r = c.state r := by
  induction entries generalizing c with
  | nil =>
      cases h
      rfl
  | cons e rest ih =>
      obtain ⟨he, hrest⟩ := List.forall_mem_cons.mp hpassed
      rw [readEntries, bind_eq_ok_iff] at h
      obtain ⟨d, hd, hc'⟩ := h
      rw [ih hc' hrest, state_readEntry_of_passed hd he]

theorem state_readEntries_last (h : c.readEntries (before ++ e :: after) = .ok c')
    (hr : r.Names e.1) (hon : ¬IsOff e) (hafter : ∀ x ∈ after, r.Names x.1 → IsOff x) :
    c'.state r = r.given e ∧ (r.given e).isSome := by
  rw [readEntries_append, bind_eq_ok_iff] at h
  obtain ⟨d, -, hd⟩ := h
  rw [readEntries, bind_eq_ok_iff] at hd
  obtain ⟨d', he, hc'⟩ := hd
  rw [state_readEntries_of_passed hc' hafter]
  exact state_readEntry_of_on he hr hon

theorem isSome_state_readEntries_iff (h : c.readEntries entries = .ok c') :
    (c'.state r).isSome ↔ (c.state r).isSome ∨ ∃ e ∈ entries, r.Names e.1 ∧ ¬IsOff e := by
  induction entries generalizing c with
  | nil =>
      cases h
      simp
  | cons e rest ih =>
      rw [readEntries, bind_eq_ok_iff] at h
      obtain ⟨d, hd, hc'⟩ := h
      rw [ih hc', List.exists_mem_cons_iff, ← or_assoc]
      refine or_congr_left ?_
      by_cases hon : r.Names e.1 ∧ ¬IsOff e
      · obtain ⟨hstate, hsome⟩ := state_readEntry_of_on hd hon.1 hon.2
        exact iff_of_true (hstate ▸ hsome) (.inr hon)
      · rw [state_readEntry_of_passed hd fun hr => not_not.mp fun hoff => hon ⟨hr, hoff⟩]
        exact (or_iff_left hon).symm

/-- Which entry for a rule counts. Without one the rule is off. The last one decides exactly if
it is on or all before it are off. In any case the last one that is on does. -/
theorem state_ofJson_iff {v : Json} (hrules : v.get? "rules" = some (.object entries))
    (hread : ofJson v = .ok c) (r : KnownRule) :
    ((∀ e ∈ entries, ¬r.Names e.1) → c.state r = Option.none) ∧
      (∀ before e after, entries = before ++ e :: after → r.Names e.1 →
        (∀ x ∈ after, ¬r.Names x.1) →
          (c.state r = r.given e ↔ (IsOff e → ∀ x ∈ before, r.Names x.1 → IsOff x))) ∧
      ∀ before e after, entries = before ++ e :: after → r.Names e.1 → ¬IsOff e →
        (∀ x ∈ after, r.Names x.1 → IsOff x) → c.state r = r.given e ∧ (r.given e).isSome := by
  have h : none.readEntries entries = .ok c := ofJson_of_rules hrules ▸ hread
  refine ⟨?_, ?_, ?_⟩
  · intro hnone
    rw [state_readEntries_of_passed h fun e he hr => absurd hr (hnone e he), state_none]
  · rintro before e after rfl hr hafter
    by_cases hoff : IsOff e
    · rw [given_of_isOff hoff, ← Option.not_isSome_iff_eq_none, isSome_state_readEntries_iff h,
        state_none]
      constructor
      · intro hnever _ x hx hrx
        by_contra hon
        exact hnever (.inr ⟨x, List.mem_append_left _ hx, hrx, hon⟩)
      · rintro hbefore (hsome | ⟨x, hx, hrx, hon⟩)
        · cases hsome
        · rcases List.mem_append.mp hx with hx | hx
          · exact hon (hbefore hoff x hx hrx)
          · rcases List.mem_cons.mp hx with rfl | hx
            · exact hon hoff
            · exact hafter x hx hrx
    · refine iff_of_true ?_ fun hoff' => absurd hoff' hoff
      exact (state_readEntries_last h hr hoff fun x hx hrx => absurd hrx (hafter x hx)).1
  · rintro before e after rfl hr hon hafter
    exact state_readEntries_last h hr hon hafter

theorem state_ofJson_iff_overwritten :
    let first : String × Json := ("@typescript-eslint/explicit-function-return-type",
      .array [.string "error", .object [("allowIIFEs", .bool true)]])
    let last : String × Json := ("explicit-function-return-type",
      .array [.integer 1, .object [("allowExpressions", .bool true)]])
    let other : String × Json := ("no-unnecessary-template-expression", .string "off")
    let v : Json := .object [("rules", .object [first, last, other])]
    ∃ c, v.get? "rules" = some (.object [first, last, other]) ∧ ofJson v = .ok c ∧
      c.state .returnTypes =
        some (.warning, { ReturnTypeOptions.standard with allowExpressions := true }) ∧
      c.state .templates = Option.none := by
  intro first last other v
  have hrules : v.get? "rules" = some (.object [first, last, other]) := rfl
  refine ⟨_, hrules, rfl, ?_, ?_⟩
  · obtain ⟨-, -, hlast⟩ := state_ofJson_iff hrules rfl .returnTypes
    have hon : ¬IsOff last := by
      intro hoff
      cases decodeSeverity?_eq_some_iff.mpr hoff
    refine (hlast [first] last [other] rfl (.inl rfl) hon ?_).1.trans rfl
    intro x hx hrx
    cases List.mem_singleton.mp hx
    exact absurd hrx (by decide)
  · obtain ⟨-, hlast, -⟩ := state_ofJson_iff hrules rfl .templates
    refine ((hlast [first, last] other [] rfl (.inl rfl) (by simp)).mpr ?_).trans rfl
    intro _ x hx hrx
    rcases List.mem_cons.mp hx with rfl | hx
    · exact absurd hrx (by decide)
    · cases List.mem_singleton.mp hx
      exact absurd hrx (by decide)

/-- The last entry for the rule is off, and the rule stays on as the one before it says. -/
theorem state_kept_by_off :
    let first : String × Json :=
      ("@typescript-eslint/explicit-function-return-type", .string "error")
    let last : String × Json := ("explicit-function-return-type", .string "off")
    let v : Json := .object [("rules", .object [first, last])]
    ∃ c, ofJson v = .ok c ∧ KnownRule.returnTypes.Names first.1 ∧
      KnownRule.returnTypes.Names last.1 ∧ KnownRule.returnTypes.given last = Option.none ∧
      c.state .returnTypes = some (.error, ReturnTypeOptions.standard) :=
  ⟨_, rfl, .inr rfl, .inl rfl, rfl, rfl⟩

end Config

end ScriptLint
