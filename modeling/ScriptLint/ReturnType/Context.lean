import ScriptLint.Inference.DeclaredType
import ScriptLint.Syntax.Ancestors

namespace ScriptLint

namespace Node

/-- Arrow functions, function declarations and function expressions. Signatures and members
without a body have nothing to annotate. -/
def isTrackedFunction (n : Node) : Bool :=
  match n.kind with
  | .arrow _ | .function .declaration | .function .expression => true
  | _ => false

def isFunctionNode (n : Node) : Bool :=
  match n.kind with
  | .arrow _ | .function _ => true
  | _ => false

def hasReturnType (n : Node) : Bool := n.isFunctionNode && n.has .returnType

def hasTypeParameters (n : Node) : Bool := n.isFunctionNode && n.has .typeParameters

def memberName? (member : Node) : Option String :=
  let name? := (member.child? .key).bind fun key =>
    match key.kind with
    | .identifierName name => some name
    | _ => none
  match member.kind with
  | .methodDefinition _ false | .propertyDefinition false | .objectProperty _ false => name?
  | _ => none

def isAssertion (n : Node) : Bool := n.kind == .asExpression || n.kind == .typeAssertion

/-- An arrow function whose body is asserted to be constant, as in `() => x as const`. -/
def returnsConst (n : Node) : Bool :=
  match n.conciseBody?.map Node.withoutParentheses with
  | some body =>
    body.isAssertion && ((body.child? .typeAscription).map Node.isConstType).getD false
  | none => false

def isTypedVariable (n : Node) : Bool :=
  match n.kind with
  | .variableDeclarator _ => n.isAnnotated
  | _ => false

def isTypedParameter (n : Node) : Bool := n.kind.isParameter && n.isAnnotated

def isTypedProperty (n : Node) : Bool :=
  match n.kind with
  | .propertyDefinition _ => n.has .typeAscription
  | _ => false

/-- A call or an instantiation with `new`, unless what is called lies at `callee`. -/
def passesArgument (n : Node) (callee : Option Span) : Bool :=
  match n.kind with
  | .call | .new =>
    (n.child? .callee).map (fun c => c.withoutParentheses.span) |>.all (callee != some ·)
  | _ => false

def isMarkupSlot (n : Node) : Bool :=
  n.kind == .markupExpression || n.kind == .markupSpread

def isConstructor (n : Node) : Bool :=
  match n.kind with
  | .methodDefinition .constructor _ => true
  | _ => false

def isSetter (n : Node) : Bool :=
  match n.kind with
  | .methodDefinition .set _ | .objectProperty .set _ => true
  | _ => false

end Node

def startsInTypedParameter : List Node → Bool
  | [] => false
  | n :: outer =>
    if n.kind.isParameter then n.isTypedParameter
    else n.kind == .assignmentPattern && (outer.head?.map Node.isTypedParameter).getD false

/-- The chain starts with a property of an object literal whose type comes from where the
object stands, through any number of objects in objects. -/
def startsInTypedObject : List Node → Bool
  | property :: object :: outer =>
    match property.kind, object.kind, outer with
    | .objectProperty .., .object, parent :: _ =>
      parent.isAssertion || parent.isTypedProperty || parent.passesArgument none ||
        startsInTypedObject outer || parent.isMarkupSlot || parent.isTypedVariable
    | _, _, _ => false
  | _ => false

/-- A function with a return type is met on the way out, before a variable or property
without a type of its own and before the end of an expression statement. -/
def meetsReturnType : List Node → Bool
  | [] => false
  | n :: outer =>
    match n.kind with
    | .variableDeclarator _ => n.isTypedVariable
    | .propertyDefinition _ => n.isTypedProperty
    | .expressionStatement => false
    | _ => (n.isTrackedFunction && n.hasReturnType) || meetsReturnType outer

/-- Where the search for an outer return type starts: at the function itself if it is the
value of a property of an object, and else around it. -/
def returnPath (fn : Node) (chain : List Node) : List Node :=
  match chain with
  | [] => []
  | n :: _ =>
    match n.kind with
    | .objectProperty .. => fn :: chain
    | _ => chain

/-- The path starts at a returned value: a return statement, or a concise arrow function
whose body it is. -/
def startsAtReturn : List Node → Bool
  | [] => false
  | n :: _ => n.kind == .returnStatement || n.kind.isConciseArrow

def isReturnedWithType (fn : Node) (chain : List Node) : Bool :=
  startsAtReturn (returnPath fn chain) && meetsReturnType (returnPath fn chain)

end ScriptLint
