namespace ScriptLint

/-- Each option names functions that may go without an explicit return type. -/
structure ReturnTypeOptions where
  /-- Function expressions that are not the value of a variable, a member or a default
  export. -/
  allowExpressions : Bool
  /-- Functions whose type comes from where they stand. -/
  allowTypedFunctionExpressions : Bool
  allowHigherOrderFunctions : Bool
  allowDirectConstAssertionInArrowFunctions : Bool
  allowConciseArrowFunctionExpressionsStartingWithVoid : Bool
  allowFunctionsWithoutTypeParameters : Bool
  allowedNames : List String
  allowIIFEs : Bool
deriving DecidableEq, Repr

namespace ReturnTypeOptions

def standard : ReturnTypeOptions where
  allowExpressions := false
  allowTypedFunctionExpressions := true
  allowHigherOrderFunctions := true
  allowDirectConstAssertionInArrowFunctions := true
  allowConciseArrowFunctionExpressionsStartingWithVoid := false
  allowFunctionsWithoutTypeParameters := false
  allowedNames := []
  allowIIFEs := false

end ReturnTypeOptions

end ScriptLint
