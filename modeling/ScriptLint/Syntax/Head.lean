import ScriptLint.Syntax.Ancestors
import ScriptLint.Text.Blank

/-!
The head of a function: the part of the source that names it in a report.

The value of a class member or of an object property begins at the member, after its
decorators, and ends at the parameters. An arrow function elsewhere runs through its `=>`;
any other function runs from its start to the parameters.
-/

namespace ScriptLint

namespace Node

def paramsStart (fn : Node) : Nat := ((fn.child? .params).map (·.span.start)).getD fn.span.start

/-- Where the parameters of a function end, with the return type if there is one. -/
def signatureStop (fn : Node) : Nat :=
  match fn.child? .returnType, fn.child? .params with
  | some returnType, _ => returnType.span.stop
  | none, some params => params.span.stop
  | none, none => fn.span.start

def arrowToken : Text := ['=', '>']

def arrowGap (fn : Node) : Span :=
  ⟨fn.signatureStop,
    max ((fn.child? .body).map (·.span.start) |>.getD fn.signatureStop) fn.signatureStop⟩

/-- Where the first `=>` in the gap ends; the end of the gap where there is none. -/
def arrowTokenStop (source : Text) (fn : Node) : Nat :=
  match (source.slice? fn.arrowGap).bind (Text.find? arrowToken) with
  | some offset => fn.signatureStop + offset + 2
  | none => fn.arrowGap.stop

def memberStart (source : Text) (member : Node) : Nat :=
  match (member.inRole .decorators).getLast? with
  | some decorator => source.skipBlanks decorator.span.stop
  | none => member.span.start

/-- Where the member begins of which a function is the value. -/
def ownerStart? (source : Text) (parent : Option Node) : Option Nat :=
  parent.bind fun p =>
    match p.kind with
    | .methodDefinition .. | .propertyDefinition _ => some (memberStart source p)
    | .objectProperty .. => some p.span.start
    | _ => none

def head (source : Text) (fn : Node) (parent : Option Node) : Span :=
  match fn.kind, ownerStart? source parent with
  | .arrow _, none => ⟨fn.span.start, arrowTokenStop source fn⟩
  | .function _, none => ⟨fn.span.start, fn.paramsStart⟩
  | .arrow _, some start | .function _, some start => ⟨start, max fn.paramsStart start⟩
  | _, _ => ⟨0, 0⟩

end Node

end ScriptLint
