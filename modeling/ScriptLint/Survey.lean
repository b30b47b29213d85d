import ScriptLint.Inference.Annotated
import ScriptLint.Lint.Visit
import ScriptLint.Sorting
import ScriptLint.Syntax.Head

namespace ScriptLint

def startsBefore (a b : Visit) : Bool := a.node.span.start ≤ b.node.span.start

def Program.survey (p : Program) (test : Node → Bool) : List Visit :=
  stableSort startsBefore (p.root.entriesOf test)

structure InitialValue where
  name : String
  value : Node

def Program.initialValues (p : Program) : List InitialValue :=
  (p.survey Node.isDeclaration).filterMap fun v =>
    match v.node.kind, (v.node.child? .id).bind Node.boundName?, v.node.child? .init with
    | .variableDeclarator _, some name, some value => some ⟨name, value⟩
    | _, _, _ => none

def Program.aliases (p : Program) : List (String × Node) :=
  (p.survey (·.kind == .typeAlias)).filterMap fun v =>
    match (v.node.child? .id).bind Node.boundName?, v.node.child? .typeAscription with
    | some name, some t => some (name, t)
    | _, _ => none

def Program.declarations (p : Program) : List (Node × Option Node) :=
  (p.survey Node.isDeclaration).map fun v => (v.node, v.node.declaredType?)

structure FunctionHead where
  function : Node
  head : Span
  ancestors : List Node

def Program.functionHeads (p : Program) (source : Text) : List FunctionHead :=
  let isFunction := fun n : Node =>
    match n.kind with
    | .arrow _ | .function _ => true
    | _ => false
  (p.survey isFunction).map fun v =>
    let chain := v.ancestors.logical
    ⟨v.node, v.node.head source chain.head?, chain⟩

end ScriptLint
