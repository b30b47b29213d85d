import ScriptLint.Decimal.Binary64
import ScriptLint.Syntax.Operator
import ScriptLint.Text.Bytes

namespace ScriptLint

/-- A declaration in a file: the name of the kind of its node, and the place of the node. -/
structure DeclarationSite where
  kind : String
  span : Span
deriving DecidableEq, Repr

inductive Resolution where
  /-- Names have not been resolved in this tree. -/
  | unchecked
  /-- The file does not declare the name where it is used. -/
  | free
  | declared (site : DeclarationSite)
deriving DecidableEq, Repr

inductive FunctionForm where
  | declaration | expression
  | signature
  | bodiless
deriving DecidableEq, Repr

inductive MethodKind where
  | constructor | method | get | set
deriving DecidableEq, Repr

inductive PropertyKind where
  | init | get | set
deriving DecidableEq, Repr

/-- What a node is, with what it says of itself: names, values, operators and flags. Kinds that no
analysis asks about are `other` with their name. -/
inductive Kind where
  -- names
  | identifierReference (name : String) (resolution : Resolution)
  | identifierName (name : String)
  | bindingIdentifier (name : String)
  -- literals
  | stringLiteral (value : Text)
  | numericLiteral (value : Binary64)
  | bigIntLiteral
  | booleanLiteral (value : Bool)
  | nullLiteral
  | regExpLiteral
  -- templates
  | templateLiteral
  | templateElement (raw : Text) (cooked : Option Text)
  | taggedTemplate
  -- operators
  | binary (operator : BinaryOperator)
  | unary (operator : UnaryOperator)
  | logical (operator : LogicalOperator)
  | conditional
  | assignment
  | update
  | await
  | yield
  | privateIn
  | sequence
  | parenthesized
  -- access and calls
  | staticMember
  | computedMember
  | privateField
  | chain
  | call
  | new
  | importCall
  | metaProperty
  | this
  | super
  -- objects
  | array
  | object
  | objectProperty (kind : PropertyKind) (computed : Bool)
  -- functions and classes
  | arrow (concise : Bool)
  | function (form : FunctionForm)
  | functionBody
  | formalParameters
  /-- A parameter; `optional` where a question mark says that it may be left out. -/
  | formalParameter (optional : Bool := false)
  | classDefinition
  | methodDefinition (kind : MethodKind) (computed : Bool)
  | propertyDefinition (computed : Bool)
  | decorator
  -- markup
  | markupElement
  | markupFragment
  | markupExpression
  | markupSpread
  -- expressions with types
  | asExpression
  | typeAssertion
  | satisfiesExpression
  | nonNull
  | instantiation
  -- statements and patterns
  | program
  | expressionStatement
  | returnStatement
  | exportDefault
  | variableDeclarator (constant : Bool)
  | assignmentPattern
  -- types
  | typeAscription
  | keywordType (keyword : TypeKeyword)
  | literalType
  | templateType
  | unionType
  | intersectionType
  | parenthesizedType
  | typeReference
  | typeLiteral
  | functionType
  | constructorType
  | mappedType
  | arrayType
  | tupleType
  | typeAlias
  | typeParameter
  | interface
  | other (name : String)
deriving DecidableEq, Repr

namespace Kind

def keywordTypeName : TypeKeyword → String
  | .any => "TSAnyKeyword"
  | .unknown => "TSUnknownKeyword"
  | .never => "TSNeverKeyword"
  | .void => "TSVoidKeyword"
  | .undefined => "TSUndefinedKeyword"
  | .null => "TSNullKeyword"
  | .string => "TSStringKeyword"
  | .number => "TSNumberKeyword"
  | .boolean => "TSBooleanKeyword"
  | .bigint => "TSBigIntKeyword"
  | .symbol => "TSSymbolKeyword"
  | .object => "TSObjectKeyword"

def name : Kind → String
  | identifierReference .. => "IdentifierReference"
  | identifierName _ => "IdentifierName"
  | bindingIdentifier _ => "BindingIdentifier"
  | stringLiteral _ => "StringLiteral"
  | numericLiteral _ => "NumericLiteral"
  | bigIntLiteral => "BigIntLiteral"
  | booleanLiteral _ => "BooleanLiteral"
  | nullLiteral => "NullLiteral"
  | regExpLiteral => "RegExpLiteral"
  | templateLiteral => "TemplateLiteral"
  | templateElement .. => "TemplateElement"
  | taggedTemplate => "TaggedTemplateExpression"
  | binary _ => "BinaryExpression"
  | unary _ => "UnaryExpression"
  | logical _ => "LogicalExpression"
  | conditional => "ConditionalExpression"
  | assignment => "AssignmentExpression"
  | update => "UpdateExpression"
  | await => "AwaitExpression"
  | yield => "YieldExpression"
  | privateIn => "PrivateInExpression"
  | sequence => "SequenceExpression"
  | parenthesized => "ParenthesizedExpression"
  | staticMember => "StaticMemberExpression"
  | computedMember => "ComputedMemberExpression"
  | privateField => "PrivateFieldExpression"
  | chain => "ChainExpression"
  | call => "CallExpression"
  | new => "NewExpression"
  | importCall => "ImportExpression"
  | metaProperty => "MetaProperty"
  | this => "ThisExpression"
  | super => "Super"
  | array => "ArrayExpression"
  | object => "ObjectExpression"
  | objectProperty .. => "ObjectProperty"
  | arrow _ => "ArrowFunctionExpression"
  | function _ => "Function"
  | functionBody => "FunctionBody"
  | formalParameters => "FormalParameters"
  | formalParameter _ => "FormalParameter"
  | classDefinition => "Class"
  | methodDefinition .. => "MethodDefinition"
  | propertyDefinition _ => "PropertyDefinition"
  | decorator => "Decorator"
  | markupElement => "JSXElement"
  | markupFragment => "JSXFragment"
  | markupExpression => "JSXExpressionContainer"
  | markupSpread => "JSXSpreadAttribute"
  | asExpression => "TSAsExpression"
  | typeAssertion => "TSTypeAssertion"
  | satisfiesExpression => "TSSatisfiesExpression"
  | nonNull => "TSNonNullExpression"
  | instantiation => "TSInstantiationExpression"
  | program => "Program"
  | expressionStatement => "ExpressionStatement"
  | returnStatement => "ReturnStatement"
  | exportDefault => "ExportDefaultDeclaration"
  | variableDeclarator _ => "VariableDeclarator"
  | assignmentPattern => "AssignmentPattern"
  | typeAscription => "TSTypeAnnotation"
  | keywordType keyword => keywordTypeName keyword
  | literalType => "TSLiteralType"
  | templateType => "TSTemplateLiteralType"
  | unionType => "TSUnionType"
  | intersectionType => "TSIntersectionType"
  | parenthesizedType => "TSParenthesizedType"
  | typeReference => "TSTypeReference"
  | typeLiteral => "TSTypeLiteral"
  | functionType => "TSFunctionType"
  | constructorType => "TSConstructorType"
  | mappedType => "TSMappedType"
  | arrayType => "TSArrayType"
  | tupleType => "TSTupleType"
  | typeAlias => "TSTypeAliasDeclaration"
  | typeParameter => "TSTypeParameter"
  | interface => "TSInterfaceDeclaration"
  | other name => name

/-- The node is one of the literals: a string, a number, a big integer, a truth value,
`null` or a regular expression. -/
def isLiteral : Kind → Bool
  | stringLiteral _ | numericLiteral _ | bigIntLiteral | booleanLiteral _ | nullLiteral
  | regExpLiteral => true
  | _ => false

def isReferenceTo (name : String) : Kind → Bool
  | identifierReference n _ => n == name
  | _ => false

def isFunctionExpression : Kind → Bool
  | arrow _ | function .expression => true
  | _ => false

def isParameter : Kind → Bool
  | formalParameter _ => true
  | _ => false

def isConciseArrow : Kind → Bool
  | arrow concise => concise
  | _ => false

def isVoid : Kind → Bool
  | unary .voidOf => true
  | _ => false

def isExpression : Kind → Bool
  | identifierReference .. | stringLiteral _ | numericLiteral _ | bigIntLiteral
  | booleanLiteral _ | nullLiteral | regExpLiteral | templateLiteral | taggedTemplate
  | binary _ | unary _ | logical _ | conditional | assignment | update | await | yield
  | privateIn | sequence | parenthesized | staticMember | computedMember | privateField
  | chain | call | new | importCall | metaProperty | this | super | array | object
  | arrow _ | function _ | classDefinition | markupElement | markupFragment | asExpression
  | typeAssertion | satisfiesExpression | nonNull | instantiation => true
  | _ => false

/-- The node binds at least as tightly as the object of a member access, so that it can
stand anywhere without parentheses. -/
def isTight : Kind → Bool
  | identifierReference .. | stringLiteral _ | numericLiteral _ | bigIntLiteral
  | booleanLiteral _ | nullLiteral | regExpLiteral | templateLiteral | taggedTemplate
  | parenthesized | this | super | array | object | staticMember | computedMember
  | privateField | call | metaProperty | nonNull => true
  | _ => false

end Kind

end ScriptLint
