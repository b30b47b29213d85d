namespace ScriptLint

/-- Operators between two operands that are both evaluated. -/
inductive BinaryOperator where
  | addition | subtraction | multiplication | division | remainder | exponential
  | equality | inequality | strictEquality | strictInequality
  | lessThan | lessEqualThan | greaterThan | greaterEqualThan
  | shiftLeft | shiftRight | shiftRightZeroFill
  | bitwiseOr | bitwiseXor | bitwiseAnd
  | membership | instanceTest
deriving DecidableEq, Repr

def BinaryOperator.isTest : BinaryOperator → Bool
  | .equality | .inequality | .strictEquality | .strictInequality
  | .lessThan | .lessEqualThan | .greaterThan | .greaterEqualThan
  | .membership | .instanceTest => true
  | _ => false

inductive UnaryOperator where
  | typeOf | voidOf | logicalNot | delete | plus | negation | bitwiseNot
deriving DecidableEq, Repr

/-- Operators that evaluate their right operand only where the left does not decide. -/
inductive LogicalOperator where
  | and | or | coalesce
deriving DecidableEq, Repr

inductive TypeKeyword where
  | any | unknown | never | void | undefined | null
  | string | number | boolean | bigint | symbol | object
deriving DecidableEq, Repr

namespace TypeKeyword

def name : TypeKeyword → String
  | any => "any"
  | unknown => "unknown"
  | never => "never"
  | void => "void"
  | undefined => "undefined"
  | null => "null"
  | string => "string"
  | number => "number"
  | boolean => "boolean"
  | bigint => "bigint"
  | symbol => "symbol"
  | object => "object"

def all : List TypeKeyword :=
  [any, unknown, never, void, undefined, null, string, number, boolean, bigint, symbol, object]

def ofName? (s : String) : Option TypeKeyword := all.find? (·.name == s)

theorem mem_all (k : TypeKeyword) : k ∈ all := by
  cases k <;> decide

end TypeKeyword

end ScriptLint
