import ScriptLint.Json.Value
import ScriptLint.ReturnType.Options
import ScriptLint.Text.Quoted

namespace ScriptLint

inductive OptionsError where
  | wrongType (found : Json) (wanted : String)
  | unknownField (name : String)
  /-- The array has items left over. -/
  | tooLong (length : Nat)

def Json.describe : Json → Text
  | .null => "null".toList
  | .bool value => "boolean `".toList ++ (if value then "true" else "false").toList ++ ['\x60']
  | .integer value => "integer `".toList ++ (toString value).toList ++ ['\x60']
  | .float value =>
    "floating point `".toList ++ value.dataText ++ ['\x60']
  | .string value => "string ".toList ++ Text.quote value.toList
  | .array _ => "sequence".toList
  | .object _ => "map".toList

def Json.decodeBool : Json → Except OptionsError Bool
  | .bool value => .ok value
  | found => .error (.wrongType found "a boolean")

def Json.decodeStrings : List Json → Except OptionsError (List String)
  | [] => .ok []
  | .string value :: rest => (decodeStrings rest).map (value :: ·)
  | found :: _ => .error (.wrongType found "a string")

def Json.decodeNames : Json → Except OptionsError (List String)
  | .array items => decodeStrings items
  | found => .error (.wrongType found "a sequence")

namespace ReturnTypeOptions

abbrev Field := ReturnTypeOptions → Json → Except OptionsError ReturnTypeOptions

def flagField (set : ReturnTypeOptions → Bool → ReturnTypeOptions) : Field := fun o value =>
  value.decodeBool.map (set o)

/-- The options by name, in the order of their positions. -/
def fields : List (String × Field) :=
  [("allowExpressions", flagField fun o b => { o with allowExpressions := b }),
    ("allowTypedFunctionExpressions",
      flagField fun o b => { o with allowTypedFunctionExpressions := b }),
    ("allowHigherOrderFunctions",
      flagField fun o b => { o with allowHigherOrderFunctions := b }),
    ("allowDirectConstAssertionInArrowFunctions",
      flagField fun o b => { o with allowDirectConstAssertionInArrowFunctions := b }),
    ("allowConciseArrowFunctionExpressionsStartingWithVoid",
      flagField fun o b =>
        { o with allowConciseArrowFunctionExpressionsStartingWithVoid := b }),
    ("allowFunctionsWithoutTypeParameters",
      flagField fun o b => { o with allowFunctionsWithoutTypeParameters := b }),
    ("allowedNames", fun o value =>
      value.decodeNames.map fun names => { o with allowedNames := names }),
    ("allowIIFEs", flagField fun o b => { o with allowIIFEs := b })]

def typeName : String := "struct ExplicitFunctionReturnTypeOptions"

def decodeEntries (o : ReturnTypeOptions) :
    List (String × Json) → Except OptionsError ReturnTypeOptions
  | [] => .ok o
  | (name, value) :: rest =>
    match fields.find? (·.1 == name) with
    | none => .error (.unknownField name)
    | some (_, field) => (field o value).bind fun o => decodeEntries o rest

/-- Read the items of an array by position, for the options that are left. -/
def decodeItems (o : ReturnTypeOptions) :
    List Field → List Json → Except OptionsError (ReturnTypeOptions × List Json)
  | field :: fields, item :: items =>
    (field o item).bind fun o => decodeItems o fields items
  | _, items => .ok (o, items)

/-- Read the options of the rule on return types: an object in which no other key may occur, or an
array with the options by position. What is not given keeps its standard value, and of several
faults the first one met counts. -/
def decode : Json → Except OptionsError ReturnTypeOptions
  | .object entries => decodeEntries standard entries
  | .array items =>
    (decodeItems standard (fields.map Prod.snd) items).bind fun (o, left) =>
      if left.isEmpty then .ok o else .error (.tooLong items.length)
  | found => .error (.wrongType found typeName)

def encode (o : ReturnTypeOptions) : Json :=
  Json.ofEntries
    [("allowExpressions", .bool o.allowExpressions),
      ("allowTypedFunctionExpressions", .bool o.allowTypedFunctionExpressions),
      ("allowHigherOrderFunctions", .bool o.allowHigherOrderFunctions),
      ("allowDirectConstAssertionInArrowFunctions",
        .bool o.allowDirectConstAssertionInArrowFunctions),
      ("allowConciseArrowFunctionExpressionsStartingWithVoid",
        .bool o.allowConciseArrowFunctionExpressionsStartingWithVoid),
      ("allowFunctionsWithoutTypeParameters", .bool o.allowFunctionsWithoutTypeParameters),
      ("allowedNames", .array (o.allowedNames.map Json.string)),
      ("allowIIFEs", .bool o.allowIIFEs)]

end ReturnTypeOptions

namespace Interpolation

/-- Read the options of the rule on templates, of which there are none. -/
def decodeOptions : Json → Except OptionsError Unit
  | .object _ | .array [] => .ok ()
  | .array items => .error (.tooLong items.length)
  | found => .error (.wrongType found "struct NoUnnecessaryTemplateExpressionOptions")

end Interpolation

def OptionsError.message : OptionsError → String
  | wrongType found wanted =>
    "invalid type: " ++ String.ofList found.describe ++ ", expected " ++ wanted
  | unknownField name =>
    "unknown field `" ++ name ++ "`, expected one of " ++
      ", ".intercalate (ReturnTypeOptions.fields.map fun field => "`" ++ field.1 ++ "`")
  | tooLong length =>
    "invalid length " ++ toString length ++ ", expected fewer elements in array"

end ScriptLint
