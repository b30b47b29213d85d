import ScriptLint.Interpolation.Slot
import ScriptLint.Syntax.Ancestors
import ScriptLint.Syntax.Placement

namespace ScriptLint

namespace Placement

def isAtRole (template : Span) (parent : Node) (role : Role) : Bool :=
  (parent.child? role).any fun child => child.withoutParentheses.span == template

/-- What the place of a statement that is the template asks for: the body of a concise
arrow function is no sequence. -/
def ofStatement : Ancestors → Placement
  | body :: arrow :: _ =>
    if body.kind = .functionBody && arrow.kind.isConciseArrow then assignment else unrestricted
  | _ => unrestricted

def ofTemplate (template : Span) : Ancestors → Placement
  | [] => unrestricted
  | parent :: outer =>
    match parent.kind with
    | .parenthesized | .templateLiteral | .sequence | .returnStatement => unrestricted
    | .expressionStatement => ofStatement outer
    | .computedMember =>
      if isAtRole template parent .expression then unrestricted else operand
    | .call | .new => if isAtRole template parent .callee then operand else assignment
    | .conditional => if isAtRole template parent .test then operand else assignment
    | .staticMember | .privateField | .unary _ | .binary _ | .logical _ | .await
    | .asExpression | .satisfiesExpression | .nonNull | .typeAssertion => operand
    | _ => assignment

end Placement

/-- The expression of a template that is one slot without text around it. -/
def onlyExpression? (template : Node) : Option Node :=
  match template.inRole .quasis, template.inRole .expressions with
  | [before, after], [e] =>
    if (Slot.rawText before).isEmpty && (Slot.rawText after).isEmpty then some e else none
  | _, _ => none

/-- The report on a template that only wraps a string: the expression takes its place, in
parentheses if the place binds tighter than the expression. -/
def wholeReport (source : Text) (template e : Node) (ancestors : Ancestors) : Report :=
  let inner := e.withoutParentheses
  let place := Placement.ofTemplate template.span ancestors
  ⟨template.span, Slot.messageId,
    [⟨template.span, place.place inner.kind (source.slice inner.span)⟩]⟩

end ScriptLint
