import Mathlib.Data.Set.List
import ScriptLint.Config.Catalogue
import ScriptLint.Proofs.AcceptedConfigs

namespace ScriptLint

namespace Json

/-- The types that a schema may ask for where it takes the value. -/
def typeNames : Json → List String
  | .null => ["null"]
  | .bool _ => ["boolean"]
  | .integer _ => ["integer", "number"]
  | .float _ => ["number"]
  | .string _ => ["string"]
  | .array _ => ["array"]
  | .object _ => ["object"]

/-- The schema that a schema gives for one property of an object. -/
def property? (schema : Json) (name : String) : Option Json :=
  (schema.get? "properties").bind (get? name)

/-- A value is valid against a schema. Each keyword limits the values of one type only, and a
schema that is a truth value takes everything or nothing. -/
inductive Validates : (schema value : Json) → Prop
  | intro {schema value : Json} (takes : schema ≠ .bool false)
      (type : ∀ name, schema.get? "type" = some (.string name) → name ∈ value.typeNames)
      (items : ∀ inner, schema.get? "items" = some inner →
        ∀ item ∈ value.items?.getD [], Validates inner item)
      (properties : ∀ e ∈ value.entries?.getD [], ∀ inner, schema.property? e.1 = some inner →
        Validates inner e.2)
      (additional : ∀ e ∈ value.entries?.getD [], schema.property? e.1 = none →
        ∀ inner, schema.get? "additionalProperties" = some inner → Validates inner e.2) :
      Validates schema value

theorem not_validates_false {value : Json} : ¬Validates (.bool false) value := by
  rintro ⟨htakes, -⟩
  exact htakes rfl

theorem property?_eq_none {schema : Json} (h : schema.get? "properties" = none) (name : String) :
    schema.property? name = none := by
  rw [property?, h]
  rfl

theorem Validates.of_type {schema value : Json} {name : String}
    (htype : schema.get? "type" = some (.string name)) (hname : name ∈ value.typeNames)
    (hitems : ∀ inner, schema.get? "items" = some inner →
      ∀ item ∈ value.items?.getD [], Validates inner item)
    (hproperties : ∀ e ∈ value.entries?.getD [], ∀ inner, schema.property? e.1 = some inner →
      Validates inner e.2)
    (hadditional : ∀ e ∈ value.entries?.getD [], schema.property? e.1 = none →
      ∀ inner, schema.get? "additionalProperties" = some inner → Validates inner e.2) :
    Validates schema value := by
  refine .intro ?_ ?_ hitems hproperties hadditional
  · rintro rfl
    cases htype
  · intro other hother
    cases htype.symm.trans hother
    exact hname

theorem validates_iff_of_type {schema value : Json} {name : String}
    (htype : schema.get? "type" = some (.string name)) (hitems : schema.get? "items" = none)
    (hproperties : schema.get? "properties" = none)
    (hadditional : schema.get? "additionalProperties" = none) :
    Validates schema value ↔ name ∈ value.typeNames := by
  have hproperty := property?_eq_none hproperties
  constructor
  · rintro ⟨-, hnamed, -⟩
    exact hnamed name htype
  · intro hname
    exact .of_type htype hname (by simp [hitems]) (by simp [hproperty]) (by simp [hadditional])

theorem validates_flagSchema_iff {description : String} {value : Json} :
    Validates (RuleDefinition.flagSchema description) value ↔ ∃ b, value = .bool b := by
  rw [validates_iff_of_type rfl rfl rfl rfl]
  cases value with
  | bool b => simp [typeNames]
  | _ => simp [typeNames]

theorem validates_string_iff {value : Json} :
    Validates (.object [("type", .string "string")]) value ↔ ∃ s, value = .string s := by
  rw [validates_iff_of_type rfl rfl rfl rfl]
  cases value with
  | string s => simp [typeNames]
  | _ => simp [typeNames]

theorem validates_names_iff {schema value : Json}
    (htype : schema.get? "type" = some (.string "array"))
    (hitems : schema.get? "items" = some (.object [("type", .string "string")]))
    (hproperties : schema.get? "properties" = none)
    (hadditional : schema.get? "additionalProperties" = none) :
    Validates schema value ↔ ∃ names : List String, value = .array (names.map .string) := by
  have hproperty := property?_eq_none hproperties
  constructor
  · rintro ⟨-, hnamed, hinner, -⟩
    obtain ⟨items, rfl⟩ : ∃ items, value = .array items := by
      have harray := hnamed _ htype
      cases value with
      | array items => exact ⟨items, rfl⟩
      | _ => simp [typeNames] at harray
    have hstrings : items ∈ Set.range (List.map Json.string) := by
      rw [Set.range_list_map]
      intro item hitem
      obtain ⟨s, rfl⟩ := validates_string_iff.mp (hinner _ hitems item hitem)
      exact ⟨s, rfl⟩
    obtain ⟨names, rfl⟩ := hstrings
    exact ⟨names, rfl⟩
  · rintro ⟨names, rfl⟩
    refine .of_type htype (List.mem_singleton_self _) ?_ (by simp [hproperty])
      (by simp [hadditional])
    intro inner hinner item hitem
    cases hitems.symm.trans hinner
    obtain ⟨s, -, rfl⟩ := List.mem_map.mp hitem
    exact validates_string_iff.mpr ⟨s, rfl⟩

/-- A schema of objects that lets no property pass which it does not declare. -/
theorem validates_object_iff {schema value : Json}
    (htype : schema.get? "type" = some (.string "object")) (hitems : schema.get? "items" = none)
    (hadditional : schema.get? "additionalProperties" = some (.bool false)) :
    Validates schema value ↔ ∃ entries, value = .object entries ∧
      ∀ e ∈ entries, ∃ inner, schema.property? e.1 = some inner ∧ Validates inner e.2 := by
  constructor
  · rintro ⟨-, hnamed, -, hproperties, hrest⟩
    obtain ⟨entries, rfl⟩ : ∃ entries, value = .object entries := by
      have hobject := hnamed _ htype
      cases value with
      | object entries => exact ⟨entries, rfl⟩
      | _ => simp [typeNames] at hobject
    refine ⟨entries, rfl, fun e he => ?_⟩
    cases hproperty : schema.property? e.1 with
    | none => exact absurd (hrest e he hproperty _ hadditional) not_validates_false
    | some inner => exact ⟨inner, rfl, hproperties e he inner hproperty⟩
  · rintro ⟨entries, rfl, hentries⟩
    refine .of_type htype (List.mem_singleton_self _) (by simp [hitems]) ?_ ?_
    · intro e he inner hinner
      obtain ⟨declared, hdeclared, hvalid⟩ := hentries e he
      cases hdeclared.symm.trans hinner
      exact hvalid
    · intro e he hnone
      obtain ⟨declared, hdeclared, -⟩ := hentries e he
      cases hdeclared.symm.trans hnone

end Json

namespace ReturnTypeOptions

open RuleDefinition

variable {o : ReturnTypeOptions} {name : String} {value : Json}

/-- The schema lets the value stand for the option. -/
def IsOption (name : String) (value : Json) : Prop :=
  ∃ schema, returnTypeSchema.property? name = some schema ∧ Json.Validates schema value

theorem exists_flagField_iff {set : ReturnTypeOptions → Bool → ReturnTypeOptions} :
    (∃ o', flagField set o value = .ok o') ↔ ∃ b, value = .bool b := by
  cases value with
  | bool b => simp [flagField, Json.decodeBool, Except.map]
  | _ => simp [flagField, Json.decodeBool, Except.map]

theorem decodeStrings_map (names : List String) :
    Json.decodeStrings (names.map .string) = .ok names := by
  induction names with
  | nil => rfl
  | cons name names ih => rw [List.map_cons, Json.decodeStrings, ih, Except.map]

theorem exists_decodeNames_iff :
    (∃ names, value.decodeNames = .ok names) ↔
      ∃ names : List String, value = .array (names.map .string) := by
  constructor
  · rintro ⟨names, h⟩
    cases value with
    | array items =>
        refine ⟨names, congrArg Json.array ?_⟩
        rw [Json.decodeNames] at h
        induction items generalizing names with
        | nil =>
            cases h
            rfl
        | cons item items ih =>
            cases item with
            | string s =>
                rw [Json.decodeStrings, map_eq_ok_iff] at h
                obtain ⟨rest, hrest, rfl⟩ := h
                rw [List.map_cons, ← ih rest hrest]
            | _ => cases h
    | _ => cases h
  · rintro ⟨names, rfl⟩
    exact ⟨names, decodeStrings_map names⟩

theorem exists_schema_of_mem_fields {field : Field} (h : (name, field) ∈ fields) :
    ∃ schema, returnTypeSchema.property? name = some schema ∧
      ∀ o value, (∃ o', field o value = .ok o') ↔ Json.Validates schema value := by
  simp only [fields, List.mem_cons, Prod.mk.injEq, List.not_mem_nil, or_false] at h
  rcases h with ⟨rfl, rfl⟩ | ⟨rfl, rfl⟩ | ⟨rfl, rfl⟩ | ⟨rfl, rfl⟩ | ⟨rfl, rfl⟩ | ⟨rfl, rfl⟩ |
    ⟨rfl, rfl⟩ | ⟨rfl, rfl⟩
  case inr.inr.inr.inr.inr.inr.inl =>
    refine ⟨_, rfl, fun o value => ?_⟩
    rw [Json.validates_names_iff rfl rfl rfl rfl, ← exists_decodeNames_iff]
    simp [map_eq_ok_iff]
  all_goals
    exact ⟨_, rfl, fun o value => exists_flagField_iff.trans Json.validates_flagSchema_iff.symm⟩

theorem exists_mem_fields_of_property? {schema : Json}
    (h : returnTypeSchema.property? name = some schema) : ∃ field, (name, field) ∈ fields := by
  obtain ⟨declared, hdeclared, hnames⟩ : ∃ declared,
      returnTypeSchema.get? "properties" = some (.object declared) ∧
      (declared.all fun e => fields.any fun f => f.1 == e.1) = true := ⟨_, rfl, rfl⟩
  rw [Json.property?, hdeclared] at h
  obtain ⟨e, he, -⟩ := Option.map_eq_some_iff.mp h
  obtain ⟨f, hf, hfe⟩ := List.any_eq_true.mp
    (List.all_eq_true.mp hnames e (List.mem_of_find?_eq_some he))
  have hname : f.1 = name := (beq_iff_eq.mp hfe).trans (by simpa using List.find?_some he)
  exact ⟨f.2, hname ▸ hf⟩

theorem find?_fields_of_isOption (h : IsOption name value) :
    ∃ field, fields.find? (·.1 == name) = some (name, field) ∧
      ∀ o, ∃ o', field o value = .ok o' := by
  obtain ⟨schema, hschema, hvalid⟩ := h
  obtain ⟨field, hfield⟩ := exists_mem_fields_of_property? hschema
  obtain ⟨⟨other, found⟩, hfind⟩ := Option.isSome_iff_exists.mp
    (List.find?_isSome (p := fun f => f.1 == name) |>.mpr ⟨_, hfield, beq_self_eq_true name⟩)
  obtain rfl : other = name := by simpa using List.find?_some hfind
  obtain ⟨schema', hschema', hreads⟩ := exists_schema_of_mem_fields (List.mem_of_find?_eq_some hfind)
  cases hschema.symm.trans hschema'
  exact ⟨found, hfind, fun o => (hreads o value).mpr hvalid⟩

theorem isOption_of_mem_fields {field : Field} (h : (name, field) ∈ fields) :
    (∃ o', field o value = .ok o') ↔ IsOption name value := by
  obtain ⟨schema, hschema, hreads⟩ := exists_schema_of_mem_fields h
  rw [hreads o value, IsOption, hschema]
  simp

theorem exists_decodeEntries_iff {entries : List (String × Json)} :
    (∃ o', decodeEntries o entries = .ok o') ↔ ∀ e ∈ entries, IsOption e.1 e.2 := by
  induction entries generalizing o with
  | nil => simp [decodeEntries]
  | cons e rest ih =>
      obtain ⟨name, value⟩ := e
      rw [List.forall_mem_cons, decodeEntries]
      constructor
      · rintro ⟨o', h⟩
        split at h
        · cases h
        · rename_i other field hfind
          obtain rfl : other = name := by simpa using List.find?_some hfind
          obtain ⟨o₁, ho₁, hrest⟩ := bind_eq_ok_iff.mp h
          exact ⟨(isOption_of_mem_fields (List.mem_of_find?_eq_some hfind)).mp ⟨o₁, ho₁⟩,
            ih.mp ⟨o', hrest⟩⟩
      · rintro ⟨hoption, hrest⟩
        obtain ⟨field, hfind, hread⟩ := find?_fields_of_isOption hoption
        obtain ⟨o₁, ho₁⟩ := hread o
        obtain ⟨o', ho'⟩ := (ih (o := o₁)).mpr hrest
        exact ⟨o', by rw [hfind]; exact bind_eq_ok_iff.mpr ⟨o₁, ho₁, ho'⟩⟩

theorem exists_decodeItems_iff {fs : List (String × Field)} {items left : List Json}
    (hfs : fs ⊆ fields) :
    (∃ o', decodeItems o (fs.map Prod.snd) items = .ok (o', left)) ↔
      left = items.drop fs.length ∧ ∀ e ∈ (fs.map Prod.fst).zip items, IsOption e.1 e.2 := by
  induction fs generalizing o items with
  | nil => simp [decodeItems, eq_comm]
  | cons f fs ih =>
      obtain ⟨hf, hfs⟩ := List.cons_subset.mp hfs
      cases items with
      | nil => simp [decodeItems, eq_comm]
      | cons item items =>
          simp only [List.map_cons, decodeItems, bind_eq_ok_iff, List.zip_cons_cons,
            List.forall_mem_cons, List.length_cons, List.drop_succ_cons]
          rw [← isOption_of_mem_fields (o := o) hf]
          constructor
          · rintro ⟨o', o₁, ho₁, hrest⟩
            obtain ⟨hleft, hoptions⟩ := (ih hfs).mp ⟨o', hrest⟩
            exact ⟨hleft, ⟨o₁, ho₁⟩, hoptions⟩
          · rintro ⟨hleft, ⟨o₁, ho₁⟩, hoptions⟩
            obtain ⟨o', ho'⟩ := (ih (o := o₁) hfs).mpr ⟨hleft, hoptions⟩
            exact ⟨o', o₁, ho₁, ho'⟩

/-- The value is an array of no more items than there are options, each of which may stand for
the option at its position. -/
def IsPositional (value : Json) : Prop :=
  ∃ items, value = .array items ∧ items.length ≤ fields.length ∧
    ∀ e ∈ (fields.map Prod.fst).zip items, IsOption e.1 e.2

theorem exists_decode_iff :
    (∃ o, decode value = .ok o) ↔ Json.Validates returnTypeSchema value ∨ IsPositional value := by
  rw [Json.validates_object_iff rfl rfl rfl]
  cases value with
  | object entries => simp [decode, exists_decodeEntries_iff, IsPositional, IsOption]
  | array items =>
      have hobject : ¬∃ entries, Json.array items = .object entries ∧ ∀ e ∈ entries,
          ∃ inner, returnTypeSchema.property? e.1 = some inner ∧ Json.Validates inner e.2 := by
        simp
      rw [or_iff_right hobject]
      have hfields := List.Subset.refl fields
      constructor
      · rintro ⟨o, h⟩
        obtain ⟨⟨o', left⟩, hread, hend⟩ := bind_eq_ok_iff.mp h
        obtain ⟨rfl, hoptions⟩ := (exists_decodeItems_iff hfields).mp ⟨o', hread⟩
        refine ⟨items, rfl, ?_, hoptions⟩
        by_contra hlonger
        have hleft : ¬(items.drop fields.length).isEmpty = true := by simpa using hlonger
        simp only [if_neg hleft] at hend
        cases hend
      · rintro ⟨items', hsame, hlength, hoptions⟩
        cases hsame
        obtain ⟨o, ho⟩ := (exists_decodeItems_iff (o := standard) hfields).mpr
          ⟨(List.drop_eq_nil_of_le hlength).symm, hoptions⟩
        exact ⟨o, bind_eq_ok_iff.mpr ⟨_, ho, rfl⟩⟩
  | _ => simp [decode, IsPositional]

theorem decode_encode (o : ReturnTypeOptions) : decode o.encode = .ok o := by
  calc decode o.encode
      = (((Json.array (o.allowedNames.map .string)).decodeNames.map fun names =>
          { o with allowedNames := names }).bind .ok) := rfl
    _ = .ok o := by
      rw [Json.decodeNames, decodeStrings_map]
      rfl

/-- A configuration that gives the rule on return types a severity and options. -/
def configuration (name : String) (severity options : Json) : Json :=
  .object [("rules", .object [(name, .array [severity, options])])]

section

variable {written : Json} {severity? : Option Severity} {s : Severity}

theorem ofJson_configuration (hname : KnownRule.returnTypes.Names name)
    (hwritten : (written, some s) ∈ Config.writtenSeverities) :
    Config.ofJson (configuration name written value) =
      match decode value with
      | .ok o => .ok (Config.none.switch ⟨.returnTypes, s, o⟩)
      | .error error => .error (.invalidOptions name error) := by
  have hseverity : (ConfigEntry.writtenSeverity (name, .array [written, value]), some s) ∈
      Config.writtenSeverities := hwritten
  have hoptions : ConfigEntry.writtenOptions? (name, .array [written, value]) = some value := rfl
  rw [Config.ofJson_of_rules (v := configuration name written value) rfl, Config.readEntries,
    Config.readEntry_of_severity hseverity, Config.switchOn_of_names hname, hoptions,
    KnownRule.readOptions, KnownRule.decode]
  cases decode value <;> rfl

theorem ofJson_configuration_off (hwritten : (written, none) ∈ Config.writtenSeverities) :
    Config.ofJson (configuration name written value) = .ok Config.none := by
  have hoff : ConfigEntry.IsOff (name, .array [written, value]) := hwritten
  rw [Config.ofJson_of_rules (v := configuration name written value) rfl, Config.readEntries,
    Config.readEntry_of_isOff hoff]
  rfl

theorem exists_ofJson_configuration_iff (hname : KnownRule.returnTypes.Names name)
    (hwritten : (written, severity?) ∈ Config.writtenSeverities) :
    (∃ c, Config.ofJson (configuration name written value) = .ok c) ↔
      severity? = none ∨ ∃ o, decode value = .ok o := by
  cases severity? with
  | none => exact iff_of_true ⟨_, ofJson_configuration_off hwritten⟩ (.inl rfl)
  | some s =>
      rw [ofJson_configuration hname hwritten, or_iff_right (Option.some_ne_none s)]
      cases decode value <;> simp

theorem not_exists_ofJson_configuration_iff (hname : KnownRule.returnTypes.Names name)
    (hwritten : (written, severity?) ∈ Config.writtenSeverities) :
    (¬∃ c, Config.ofJson (configuration name written value) = .ok c) ↔
      ∃ error, Config.ofJson (configuration name written value) =
        .error (.invalidOptions name error) := by
  cases severity? with
  | none => simp [ofJson_configuration_off hwritten]
  | some s =>
      rw [ofJson_configuration hname hwritten]
      cases decode value <;> simp

end

theorem not_isPositional_of_validates (h : Json.Validates returnTypeSchema value) :
    ¬IsPositional value := by
  rintro ⟨items, rfl, -⟩
  obtain ⟨entries, hsame, -⟩ := (Json.validates_object_iff rfl rfl rfl).mp h
  cases hsame

/-- Which options are accepted, what becomes of the others, and when to be accepted is to be
valid against the schema. What is written for options is read as these options. -/
theorem schema_agrees_iff {name : String} {written : Json} {severity? : Option Severity}
    (hname : KnownRule.returnTypes.Names name)
    (hwritten : (written, severity?) ∈ Config.writtenSeverities) :
    (∀ value, let valid := Json.Validates returnTypeSchema value
      let accepted := ∃ c, Config.ofJson (configuration name written value) = .ok c
      (accepted ↔ severity? = none ∨ valid ∨ IsPositional value) ∧
      (¬accepted ↔ ∃ error, Config.ofJson (configuration name written value) =
        .error (.invalidOptions name error)) ∧
      ((accepted ↔ valid) ↔ ¬IsPositional value ∧ (severity? = none → valid))) ∧
    ∀ o : ReturnTypeOptions, decode o.encode = .ok o ∧
      ∀ s, severity? = some s → ∃ c, Config.ofJson (configuration name written o.encode) = .ok c ∧
        c.state .returnTypes = some (s, o) := by
  constructor
  · intro value valid accepted
    have haccepted : accepted ↔ severity? = none ∨ valid ∨ IsPositional value :=
      (exists_ofJson_configuration_iff hname hwritten).trans (or_congr_right exists_decode_iff)
    have harray : valid → ¬IsPositional value := not_isPositional_of_validates
    refine ⟨haccepted, not_exists_ofJson_configuration_iff hname hwritten, ?_⟩
    rw [haccepted]
    tauto
  · intro o
    refine ⟨decode_encode o, fun s hs => ?_⟩
    subst hs
    rw [ofJson_configuration hname hwritten, decode_encode]
    exact ⟨_, rfl, Config.state_switch_self ..⟩

theorem schema_agrees_iff_names :
    let options : Json := .object [("allowIIFEs", .bool true), ("allowedNames",
      .array [.string "main"])]
    KnownRule.returnTypes.Names "@typescript-eslint/explicit-function-return-type" ∧
      (Json.integer 1, some Severity.warning) ∈ Config.writtenSeverities ∧
      (∃ c, Config.ofJson (configuration "@typescript-eslint/explicit-function-return-type"
        (.integer 1) options) = .ok c) ∧
      Json.Validates returnTypeSchema options := by
  intro options
  have hname : KnownRule.returnTypes.Names "@typescript-eslint/explicit-function-return-type" :=
    .inr rfl
  have hwritten : (Json.integer 1, some Severity.warning) ∈ Config.writtenSeverities := by
    simp [Config.writtenSeverities]
  have haccepted : ∃ c, Config.ofJson (configuration
      "@typescript-eslint/explicit-function-return-type" (.integer 1) options) = .ok c := ⟨_, rfl⟩
  refine ⟨hname, hwritten, haccepted, ?_⟩
  have hagrees := ((schema_agrees_iff hname hwritten).1 options).2.2.mpr
  refine (hagrees ⟨?_, by simp⟩).mp haccepted
  rintro ⟨items, hitems, -⟩
  simp [options] at hitems

/-- The empty array is accepted, and it is no object. -/
theorem schema_refuses_array :
    (∃ c, Config.ofJson (configuration "explicit-function-return-type" (.string "error")
      (.array [])) = .ok c) ∧ ¬Json.Validates returnTypeSchema (.array []) := by
  refine ⟨⟨_, rfl⟩, fun hvalid => ?_⟩
  obtain ⟨entries, hsame, -⟩ := (Json.validates_object_iff rfl rfl rfl).mp hvalid
  cases hsame

end ReturnTypeOptions

end ScriptLint
