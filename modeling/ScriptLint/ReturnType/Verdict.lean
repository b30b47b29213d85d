import ScriptLint.ReturnType.Context
import ScriptLint.ReturnType.Options

namespace ScriptLint

/-- A function and the return statements that belong to it, in source order. -/
structure Frame where
  function : Node
  returns : List Node

namespace Frame

/-- The function directly returns a function: as its concise body, or in every return. -/
def returnsFunction (frame : Frame) : Bool :=
  (frame.function.conciseBody?.any fun body => body.withoutParentheses.kind.isFunctionExpression)
    || (!frame.returns.isEmpty && frame.returns.all fun statement =>
      (statement.child? .argument).any fun value =>
        value.withoutParentheses.kind.isFunctionExpression)

end Frame

namespace ReturnTypeOptions

/-- The name of a function: its own, or that of the variable or member whose value it is. -/
def functionName? (fn : Node) (parent : Option Node) : Option String :=
  let own? := match fn.kind with
    | .function _ => (fn.child? .id).bind Node.boundName?
    | _ => none
  if fn.kind.isFunctionExpression then
    own?.or (parent.bind fun p =>
      match p.kind with
      | .variableDeclarator _ => (p.child? .id).bind Node.boundName?
      | _ => p.memberName?)
  else own?

def allowsFunction (o : ReturnTypeOptions) (fn : Node) (parent : Option Node) : Bool :=
  (o.allowFunctionsWithoutTypeParameters && !fn.hasTypeParameters)
    || (o.allowIIFEs && parent.any (·.kind == .call))
    || (functionName? fn parent).any o.allowedNames.contains

def isTypedByContext (fn : Node) (chain : List Node) : Bool :=
  match chain with
  | [] => false
  | parent :: _ =>
    parent.isAssertion || parent.isTypedVariable || startsInTypedParameter chain ||
      parent.isTypedProperty || parent.passesArgument (some fn.span) ||
      startsInTypedObject chain || parent.isMarkupSlot

def isDeclared (chain : List Node) : Bool :=
  match chain.head?.map Node.kind with
  | some (.variableDeclarator _) | some (.methodDefinition ..) | some .exportDefault
  | some (.propertyDefinition _) => true
  | _ => false

/-- The function expression is allowed for where it stands or what it returns. These
options count only together with the one for typed function expressions. -/
def allowsExpression (o : ReturnTypeOptions) (fn : Node) (chain : List Node) : Bool :=
  o.allowTypedFunctionExpressions &&
    (isTypedByContext fn chain
      || (o.allowExpressions && !isDeclared chain)
      || (o.allowDirectConstAssertionInArrowFunctions && fn.returnsConst)
      || isReturnedWithType fn chain)

def allowsVoid (o : ReturnTypeOptions) (fn : Node) : Bool :=
  o.allowConciseArrowFunctionExpressionsStartingWithVoid &&
    fn.conciseBody?.any fun body => body.withoutParentheses.kind.isVoid

def isComplete (o : ReturnTypeOptions) (frame : Frame) (parent : Option Node) : Bool :=
  (o.allowHigherOrderFunctions && frame.returnsFunction)
    || frame.function.hasReturnType
    || parent.any fun p => p.isConstructor || p.isSetter

def needsReturnType (o : ReturnTypeOptions) (fn : Node) (frame : Frame) (chain : List Node) :
    Bool :=
  let allowed :=
    if fn.kind.isFunctionExpression then
      o.allowsVoid fn || o.allowsFunction fn chain.head? || o.allowsExpression fn chain
    else
      o.allowsFunction fn chain.head? || (o.allowTypedFunctionExpressions && fn.hasReturnType)
  !allowed && !o.isComplete frame chain.head?

end ReturnTypeOptions

end ScriptLint
