import ScriptLint.Config.Basic
import ScriptLint.Text.Blank

namespace ScriptLint

inductive RuleType where
  | problem
  | suggestion
deriving DecidableEq, Repr

def RuleType.name : RuleType → String
  | problem => "Problem"
  | suggestion => "Suggestion"

structure RuleDefinition where
  name : String
  type : RuleType
  /-- What its fixes change, if it has any. -/
  fixable : Option String
  description : String
  recommended : Option String
  requiresTypes : Bool
  messages : List (String × String)
  defaultOptions : Json
  /-- A schema for each position of its options. -/
  schema : Json

namespace RuleDefinition

def docsUrl (d : RuleDefinition) : String := "https://typescript-eslint.io/rules/" ++ d.name

def isDescribed (schema : Json) : Bool :=
  ((schema.get? "description").bind Json.string?).any fun text =>
    !Text.isBlankText text.toList

def undocumentedIn (schemas : Json) : List String :=
  let properties := (schemas.items?.getD []).flatMap fun schema =>
    ((schema.get? "properties").bind Json.entries?).getD []
  (properties.filter fun (_, schema) => !isDescribed schema).map Prod.fst

def undocumented (d : RuleDefinition) : List String := undocumentedIn d.schema

def flagSchema (description : String) : Json :=
  Json.ofEntries [("type", .string "boolean"), ("description", .string description)]

def returnTypeSchema : Json :=
  Json.ofEntries
    [("type", .string "object"),
      ("additionalProperties", .bool false),
      ("properties", Json.ofEntries
        [("allowConciseArrowFunctionExpressionsStartingWithVoid", flagSchema
            "Whether to allow arrow functions that start with the `void` keyword."),
          ("allowDirectConstAssertionInArrowFunctions", flagSchema
            "Whether to ignore arrow functions immediately returning a `as const` value."),
          ("allowedNames", Json.ofEntries
            [("type", .string "array"),
              ("description", .string
                ("An array of function/method names that will not have their arguments or " ++
                  "return values checked.")),
              ("items", Json.ofEntries [("type", .string "string")])]),
          ("allowExpressions", flagSchema
            ("Whether to ignore function expressions (functions which are not part of a " ++
              "declaration).")),
          ("allowFunctionsWithoutTypeParameters", flagSchema
            "Whether to ignore functions that don't have generic type parameters."),
          ("allowHigherOrderFunctions", flagSchema
            "Whether to ignore functions immediately returning another function expression."),
          ("allowIIFEs", flagSchema
            "Whether to ignore immediately invoked function expressions (IIFEs)."),
          ("allowTypedFunctionExpressions", flagSchema
            "Whether to ignore type annotations on the variable of function expressions.")])]

def returnTypes : RuleDefinition where
  name := ReturnTypeOptions.ruleName
  type := .problem
  fixable := none
  description := "Require explicit return types on functions and class methods"
  recommended := none
  requiresTypes := false
  messages := ReturnTypeOptions.messages
  defaultOptions := ReturnTypeOptions.standard.encode
  schema := .array [returnTypeSchema]

def templates : RuleDefinition where
  name := Interpolation.ruleName
  type := .suggestion
  fixable := some "Code"
  description := "Disallow unnecessary template expressions"
  recommended := some "Strict"
  requiresTypes := true
  messages := Interpolation.messages
  defaultOptions := Json.ofEntries []
  schema := .array []

/-- All rules, in the order in which they are asked. -/
def all : List RuleDefinition := [returnTypes, templates]

def find? (name : String) : Option RuleDefinition := all.find? (·.name == name)

end RuleDefinition

end ScriptLint
