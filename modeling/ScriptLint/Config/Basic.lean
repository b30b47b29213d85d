import ScriptLint.Config.Decode
import ScriptLint.Interpolation.Checker
import ScriptLint.ReturnType.Checker
import ScriptLint.Syntax.Program

namespace ScriptLint

structure Config where
  returnTypes : Option ReturnTypeOptions
  templates : Bool
  /-- Severities by the names of rules; the first entry for a name counts. -/
  severities : List (String × Severity)
deriving DecidableEq, Repr

inductive ConfigError where
  | unknownRule (name : String)
  | invalidSeverity (rule : String) (value : Json)
  | invalidOptions (rule : String) (error : OptionsError)
  | missingRules

def ConfigError.message : ConfigError → String
  | unknownRule name => "unknown rule `" ++ name ++ "`"
  | invalidSeverity rule value =>
    "invalid severity `" ++ String.ofList value.compact ++ "` for rule `" ++ rule ++
      "`; expected \"off\", \"warn\", \"error\", 0, 1 or 2"
  | invalidOptions rule error =>
    "invalid options for rule `" ++ rule ++ "`: " ++ error.message
  | missingRules => "expected a `rules` object"

namespace Config

def none : Config := ⟨Option.none, false, []⟩

def all : Config := ⟨some .standard, true, []⟩

def withSeverity (c : Config) (rule : String) (severity : Severity) : Config :=
  { c with severities := (rule, severity) :: c.severities }

/-- How much the findings of a rule count: they are warnings unless it is said. -/
def severity (c : Config) (rule : String) : Severity :=
  ((c.severities.find? (·.1 == rule)).map Prod.snd).getD .warning

@[simp] theorem severity_withSeverity_self (c : Config) (rule : String) (s : Severity) :
    (c.withSeverity rule s).severity rule = s := by
  simp [withSeverity, severity]

theorem severity_withSeverity_of_ne (c : Config) {rule other : String} (s : Severity)
    (h : rule ≠ other) : (c.withSeverity rule s).severity other = c.severity other := by
  simp [withSeverity, severity, h]

def withReturnTypes (c : Config) (o : ReturnTypeOptions) : Config :=
  { c with returnTypes := some o }

def withTemplates (c : Config) : Config := { c with templates := true }

/-- What may stand before the name of a rule. -/
def scope : Text := "@typescript-eslint/".toList

def plainName (name : String) : String :=
  if scope.isPrefixOf name.toList then String.ofList (name.toList.drop scope.length) else name

/-- A severity as it is written; `none` within for a rule that is off. -/
def decodeSeverity? : Json → Option (Option Severity)
  | .string "off" | .integer 0 => some Option.none
  | .string "warn" | .integer 1 => some (some .warning)
  | .string "error" | .integer 2 => some (some .error)
  | _ => Option.none

def splitSetting : Json → Json × Option Json
  | .array items => (items.head?.getD .null, items[1]?)
  | setting => (setting, Option.none)

def switchOn (c : Config) (name : String) (severity : Severity) (options : Option Json) :
    Except ConfigError Config :=
  if plainName name = ReturnTypeOptions.ruleName then
    match options.map ReturnTypeOptions.decode with
    | Option.none =>
      .ok ((c.withReturnTypes .standard).withSeverity ReturnTypeOptions.ruleName severity)
    | some (.ok o) => .ok ((c.withReturnTypes o).withSeverity ReturnTypeOptions.ruleName severity)
    | some (.error error) => .error (.invalidOptions name error)
  else if plainName name = Interpolation.ruleName then
    match options.map Interpolation.decodeOptions with
    | Option.none | some (.ok ()) =>
      .ok (c.withTemplates.withSeverity Interpolation.ruleName severity)
    | some (.error error) => .error (.invalidOptions name error)
  else .error (.unknownRule name)

/-- Read one entry into a configuration. An entry that switches a rule off is passed over. -/
def readEntry (c : Config) (name : String) (setting : Json) : Except ConfigError Config :=
  match decodeSeverity? (splitSetting setting).1 with
  | Option.none => .error (.invalidSeverity name (splitSetting setting).1)
  | some Option.none => .ok c
  | some (some severity) => c.switchOn name severity (splitSetting setting).2

def readEntries (c : Config) : List (String × Json) → Except ConfigError Config
  | [] => .ok c
  | (name, setting) :: rest => (c.readEntry name setting).bind fun c => readEntries c rest

/-- Read an object that gives each rule a severity, or an array of a severity and options. Rules
that are not named stay off. -/
def ofJson (value : Json) : Except ConfigError Config :=
  match (value.get? "rules").bind Json.entries? with
  | Option.none => .error .missingRules
  | some entries => readEntries none entries

/-- The rules that are on, in the order in which they are asked. -/
def activeRules (c : Config) (ctx : LintContext) : List ActiveRule :=
  let returnTypes := c.returnTypes.map fun o =>
    { name := ReturnTypeOptions.ruleName
      messages := ReturnTypeOptions.messages
      severity := c.severity ReturnTypeOptions.ruleName
      checker := o.checker ctx.source : ActiveRule }
  let templates := if c.templates then
    [{ name := Interpolation.ruleName
       messages := Interpolation.messages
       severity := c.severity Interpolation.ruleName
       checker := Interpolation.checker ctx : ActiveRule }] else []
  returnTypes.toList ++ templates

end Config

def lint (config : Config) (ctx : LintContext) (program : Program) : LintResult :=
  lintTree (config.activeRules ctx) program.root

end ScriptLint
