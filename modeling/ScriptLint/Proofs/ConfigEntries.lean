import ScriptLint.Proofs.RuleRuns
import ScriptLint.Config.Basic

namespace ScriptLint

inductive KnownRule where
  | returnTypes
  | templates
deriving DecidableEq, Repr

namespace KnownRule

def name : KnownRule → String
  | returnTypes => ReturnTypeOptions.ruleName
  | templates => Interpolation.ruleName

abbrev Options : KnownRule → Type
  | returnTypes => ReturnTypeOptions
  | templates => Unit

def standard : (r : KnownRule) → r.Options
  | returnTypes => ReturnTypeOptions.standard
  | templates => ()

def decode : (r : KnownRule) → Json → Except OptionsError r.Options
  | returnTypes => ReturnTypeOptions.decode
  | templates => Interpolation.decodeOptions

/-- The options of the rule where an entry gives some, and the standard ones where it does not. -/
def readOptions (r : KnownRule) : Option Json → Except OptionsError r.Options
  | none => .ok r.standard
  | some options => r.decode options

/-- The two spellings of the name of a rule. -/
def Names (r : KnownRule) (name : String) : Prop :=
  name = r.name ∨ name = String.ofList Config.scope ++ r.name

instance (r : KnownRule) (name : String) : Decidable (r.Names name) :=
  inferInstanceAs (Decidable (_ ∨ _))

theorem name_injective {r s : KnownRule} (h : r.name = s.name) : r = s := by
  cases r <;> cases s <;> first | rfl | exact absurd h (by decide)

theorem plainName_name (r : KnownRule) : Config.plainName r.name = r.name := by
  cases r <;> rfl

theorem plainName_eq_name_iff {r : KnownRule} {name : String} :
    Config.plainName name = r.name ↔ r.Names name := by
  constructor
  · intro h
    rw [Config.plainName] at h
    split at h
    · rename_i hscope
      obtain ⟨rest, hrest⟩ := List.isPrefixOf_iff_prefix.mp hscope
      right
      rw [← h, ← hrest, List.drop_left, ← String.ofList_append, hrest, String.ofList_toList]
    · exact .inl h
  · rintro (rfl | rfl)
    · exact r.plainName_name
    · simp [Config.plainName]

theorem Names.unique {r s : KnownRule} {name : String} (hr : r.Names name) (hs : s.Names name) :
    r = s :=
  name_injective ((plainName_eq_name_iff.mpr hr).symm.trans (plainName_eq_name_iff.mpr hs))

end KnownRule

/-- A rule is on, with a severity and options. -/
structure Switch where
  rule : KnownRule
  severity : Severity
  options : rule.Options

namespace Config

def enabled? (c : Config) : (r : KnownRule) → Option r.Options
  | .returnTypes => c.returnTypes
  | .templates => if c.templates then some () else Option.none

def enable (c : Config) : (r : KnownRule) → r.Options → Config
  | .returnTypes, o => c.withReturnTypes o
  | .templates, _ => c.withTemplates

def switch (c : Config) (x : Switch) : Config :=
  (c.enable x.rule x.options).withSeverity x.rule.name x.severity

/-- The severity and the options of a rule that is on. -/
def state (c : Config) (r : KnownRule) : Option (Severity × r.Options) :=
  (c.enabled? r).map fun o => (c.severity r.name, o)

@[simp] theorem enabled?_withSeverity (c : Config) (rule : String) (s : Severity)
    (r : KnownRule) : (c.withSeverity rule s).enabled? r = c.enabled? r := by
  cases r <;> rfl

@[simp] theorem severity_enable (c : Config) (r : KnownRule) (o : r.Options) (rule : String) :
    (c.enable r o).severity rule = c.severity rule := by
  cases r <;> rfl

@[simp] theorem enabled?_enable_self (c : Config) (r : KnownRule) (o : r.Options) :
    (c.enable r o).enabled? r = some o := by
  cases r <;> rfl

theorem enabled?_enable_of_ne (c : Config) {r t : KnownRule} (o : r.Options) (h : r ≠ t) :
    (c.enable r o).enabled? t = c.enabled? t := by
  cases r <;> cases t <;> first | rfl | exact absurd rfl h

theorem state_switch_self (c : Config) (r : KnownRule) (s : Severity) (o : r.Options) :
    (c.switch ⟨r, s, o⟩).state r = some (s, o) := by
  simp [switch, state]

theorem state_switch_of_ne (c : Config) {x : Switch} {r : KnownRule} (h : x.rule ≠ r) :
    (c.switch x).state r = c.state r := by
  have hname : x.rule.name ≠ r.name := mt KnownRule.name_injective h
  rw [switch, state, enabled?_withSeverity, enabled?_enable_of_ne c x.options h,
    severity_withSeverity_of_ne _ _ hname, severity_enable, state]

theorem state_none (r : KnownRule) : none.state r = Option.none := by
  cases r <;> rfl

/-- The ways to write a severity, with what each says: that the rule is off, or how much its
findings count. -/
def writtenSeverities : List (Json × Option Severity) :=
  [(.string "off", Option.none), (.integer 0, Option.none),
    (.string "warn", some .warning), (.integer 1, some .warning),
    (.string "error", some .error), (.integer 2, some .error)]

theorem decodeSeverity?_eq_some_iff {value : Json} {s : Option Severity} :
    decodeSeverity? value = some s ↔ (value, s) ∈ writtenSeverities := by
  constructor
  · intro h
    unfold decodeSeverity? at h
    split at h <;> simp_all [writtenSeverities]
  · intro h
    simp only [writtenSeverities, List.mem_cons, Prod.mk.injEq, List.not_mem_nil, or_false] at h
    rcases h with ⟨rfl, rfl⟩ | ⟨rfl, rfl⟩ | ⟨rfl, rfl⟩ | ⟨rfl, rfl⟩ | ⟨rfl, rfl⟩ | ⟨rfl, rfl⟩
    all_goals rfl

end Config

namespace ConfigEntry

/-- What stands for the severity: the setting, or the first item of an array. -/
def writtenSeverity (e : String × Json) : Json := (Config.splitSetting e.2).1

def writtenOptions? (e : String × Json) : Option Json := (Config.splitSetting e.2).2

def IsOff (e : String × Json) : Prop := (writtenSeverity e, Option.none) ∈ Config.writtenSeverities

/-- Everything that an entry says can be read: the severity is one of the six, the name is that
of a rule, and the options, if any, are options of the rule. -/
structure IsValid (e : String × Json) : Prop where
  severity : ∃ s, (writtenSeverity e, s) ∈ Config.writtenSeverities
  rule : ∃ r : KnownRule, r.Names e.1
  options : ∀ r : KnownRule, r.Names e.1 → ∀ value, writtenOptions? e = some value →
    ∃ o, r.decode value = .ok o

/-- What is wrong with an entry. The name and the options count only where the entry switches
its rule on. -/
inductive Fault (e : String × Json) : ConfigError → Prop
  | severity : (∀ s, (writtenSeverity e, s) ∉ Config.writtenSeverities) →
      Fault e (.invalidSeverity e.1 (writtenSeverity e))
  | rule {s : Severity} : (writtenSeverity e, some s) ∈ Config.writtenSeverities →
      (∀ r : KnownRule, ¬r.Names e.1) → Fault e (.unknownRule e.1)
  | options {s : Severity} {r : KnownRule} {value : Json} {error : OptionsError} :
      (writtenSeverity e, some s) ∈ Config.writtenSeverities → r.Names e.1 →
      writtenOptions? e = some value → r.decode value = .error error →
      Fault e (.invalidOptions e.1 error)

/-- The entry switches its rule on. -/
structure Switches (e : String × Json) (x : Switch) : Prop where
  severity : (writtenSeverity e, some x.severity) ∈ Config.writtenSeverities
  rule : x.rule.Names e.1
  options : x.rule.readOptions (writtenOptions? e) = .ok x.options

variable {e : String × Json}

theorem isOff_or_isValid_iff : IsOff e ∨ IsValid e ↔ IsOff e ∨ ∃ x, Switches e x := by
  constructor
  · rintro (hoff | ⟨⟨s, hs⟩, ⟨r, hr⟩, hoptions⟩)
    · exact .inl hoff
    · cases s with
      | none => exact .inl hs
      | some s =>
          obtain ⟨o, ho⟩ : ∃ o, r.readOptions (writtenOptions? e) = .ok o := by
            cases hvalue : writtenOptions? e with
            | none => exact ⟨r.standard, rfl⟩
            | some value => exact hoptions r hr value hvalue
          exact .inr ⟨⟨r, s, o⟩, hs, hr, ho⟩
  · rintro (hoff | ⟨⟨r, s, o⟩, hs, hr, ho⟩)
    · exact .inl hoff
    · refine .inr ⟨⟨some s, hs⟩, ⟨r, hr⟩, ?_⟩
      intro t ht value hvalue
      cases ht.unique hr
      rw [hvalue] at ho
      exact ⟨o, ho⟩

theorem cases_of_entry (e : String × Json) :
    IsOff e ∨ (∃ x, Switches e x) ∨ ∃ error, Fault e error := by
  by_cases hseverity : ∃ s, (writtenSeverity e, s) ∈ Config.writtenSeverities
  · obtain ⟨_ | s, hs⟩ := hseverity
    · exact .inl hs
    · by_cases hrule : ∃ r : KnownRule, r.Names e.1
      · obtain ⟨r, hr⟩ := hrule
        cases hread : r.readOptions (writtenOptions? e) with
        | ok o => exact .inr (.inl ⟨⟨r, s, o⟩, hs, hr, hread⟩)
        | error error =>
            cases hvalue : writtenOptions? e with
            | none =>
                rw [hvalue] at hread
                cases hread
            | some value =>
                rw [hvalue] at hread
                exact .inr (.inr ⟨_, .options hs hr hvalue hread⟩)
      · exact .inr (.inr ⟨_, .rule hs (not_exists.mp hrule)⟩)
  · exact .inr (.inr ⟨_, .severity (not_exists.mp hseverity)⟩)

end ConfigEntry

namespace Config

open ConfigEntry

variable {c c' : Config} {e : String × Json}

theorem switchOn_of_names {r : KnownRule} {name : String} (h : r.Names name) (s : Severity)
    (options : Option Json) :
    c.switchOn name s options =
      match r.readOptions options with
      | .ok o => .ok (c.switch ⟨r, s, o⟩)
      | .error error => .error (.invalidOptions name error) := by
  cases r with
  | returnTypes =>
      have hname : plainName name = ReturnTypeOptions.ruleName :=
        KnownRule.plainName_eq_name_iff.mpr h
      rw [switchOn, if_pos hname]
      cases options with
      | none => rfl
      | some value =>
          rw [KnownRule.readOptions, KnownRule.decode, Option.map_some]
          cases ReturnTypeOptions.decode value <;> rfl
  | templates =>
      have hname : plainName name = Interpolation.ruleName :=
        KnownRule.plainName_eq_name_iff.mpr h
      have hother : plainName name ≠ ReturnTypeOptions.ruleName := hname ▸ by decide
      rw [switchOn, if_neg hother, if_pos hname]
      cases options with
      | none => rfl
      | some value =>
          rw [KnownRule.readOptions, KnownRule.decode, Option.map_some]
          cases Interpolation.decodeOptions value <;> rfl

theorem switchOn_of_unknown {name : String} (h : ∀ r : KnownRule, ¬r.Names name) (s : Severity)
    (options : Option Json) : c.switchOn name s options = .error (.unknownRule name) := by
  have hreturnTypes : plainName name ≠ ReturnTypeOptions.ruleName :=
    fun hname => h .returnTypes (KnownRule.plainName_eq_name_iff.mp hname)
  have htemplates : plainName name ≠ Interpolation.ruleName :=
    fun hname => h .templates (KnownRule.plainName_eq_name_iff.mp hname)
  rw [switchOn, if_neg hreturnTypes, if_neg htemplates]

theorem readEntry_of_isOff (h : IsOff e) : c.readEntry e.1 e.2 = .ok c := by
  have hseverity : decodeSeverity? (splitSetting e.2).1 = some Option.none :=
    decodeSeverity?_eq_some_iff.mpr h
  rw [readEntry, hseverity]

theorem readEntry_of_severity {s : Severity} (h : (writtenSeverity e, some s) ∈ writtenSeverities) :
    c.readEntry e.1 e.2 = c.switchOn e.1 s (writtenOptions? e) := by
  have hseverity : decodeSeverity? (splitSetting e.2).1 = some (some s) :=
    decodeSeverity?_eq_some_iff.mpr h
  rw [readEntry, hseverity]
  rfl

theorem readEntry_of_switches {x : Switch} (h : Switches e x) :
    c.readEntry e.1 e.2 = .ok (c.switch x) := by
  rw [readEntry_of_severity h.severity, switchOn_of_names h.rule, h.options]

theorem readEntry_of_fault {error : ConfigError} (h : Fault e error) :
    c.readEntry e.1 e.2 = .error error := by
  cases h with
  | severity hs =>
      have hseverity : decodeSeverity? (splitSetting e.2).1 = Option.none := by
        rw [Option.eq_none_iff_forall_ne_some]
        exact fun s h => hs s (decodeSeverity?_eq_some_iff.mp h)
      rw [readEntry, hseverity]
      rfl
  | rule hs hr => rw [readEntry_of_severity hs, switchOn_of_unknown hr]
  | options hs hr hvalue herror =>
      rw [readEntry_of_severity hs, switchOn_of_names hr, hvalue, KnownRule.readOptions, herror]

theorem readEntry_eq_ok_iff :
    c.readEntry e.1 e.2 = .ok c' ↔
      (IsOff e ∧ c' = c) ∨ ∃ x, Switches e x ∧ c' = c.switch x := by
  constructor
  · intro h
    rcases cases_of_entry e with hoff | ⟨x, hx⟩ | ⟨error, herror⟩
    · rw [readEntry_of_isOff hoff, Except.ok.injEq] at h
      exact .inl ⟨hoff, h.symm⟩
    · rw [readEntry_of_switches hx, Except.ok.injEq] at h
      exact .inr ⟨x, hx, h.symm⟩
    · rw [readEntry_of_fault herror] at h
      cases h
  · rintro (⟨hoff, rfl⟩ | ⟨x, hx, rfl⟩)
    · exact readEntry_of_isOff hoff
    · exact readEntry_of_switches hx

theorem readEntry_eq_error_iff {error : ConfigError} :
    c.readEntry e.1 e.2 = .error error ↔ Fault e error := by
  refine ⟨fun h => ?_, readEntry_of_fault⟩
  rcases cases_of_entry e with hoff | ⟨x, hx⟩ | ⟨other, hother⟩
  · rw [readEntry_of_isOff hoff] at h
    cases h
  · rw [readEntry_of_switches hx] at h
    cases h
  · rw [readEntry_of_fault hother, Except.error.injEq] at h
    exact h ▸ hother

theorem exists_readEntry_iff :
    (∃ c', c.readEntry e.1 e.2 = .ok c') ↔ IsOff e ∨ IsValid e := by
  rw [isOff_or_isValid_iff]
  simp only [readEntry_eq_ok_iff]
  constructor
  · rintro ⟨c', ⟨hoff, -⟩ | ⟨x, hx, -⟩⟩
    · exact .inl hoff
    · exact .inr ⟨x, hx⟩
  · rintro (hoff | ⟨x, hx⟩)
    · exact ⟨c, .inl ⟨hoff, rfl⟩⟩
    · exact ⟨c.switch x, .inr ⟨x, hx, rfl⟩⟩

theorem ofJson_of_rules {v : Json} {entries : List (String × Json)}
    (h : v.get? "rules" = some (.object entries)) : ofJson v = none.readEntries entries := by
  rw [ofJson, h]
  rfl

end Config

end ScriptLint
