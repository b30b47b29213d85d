import ScriptLint.Syntax.Node

/-!
The path from a node to the root, innermost node first.

Parentheses, and the body and statement that wrap the expression of a concise arrow
function, stand in the tree for the sake of the written form only. The logical ancestors
are the others, so that the parent of `x` in `() => (x)` is the arrow function.
-/

namespace ScriptLint

/-- The nodes around a node, innermost first. -/
abbrev Ancestors := List Node

namespace Ancestors

/-- The node only carries the written form; `outer` is what stands around it. -/
def isWrapper (n : Node) (outer : Ancestors) : Bool :=
  match n.kind, outer with
  | .parenthesized, _ => true
  | .functionBody, arrow :: _ => arrow.kind.isConciseArrow
  | .expressionStatement, body :: arrow :: _ =>
    body.kind == .functionBody && arrow.kind.isConciseArrow
  | _, _ => false

def logical : Ancestors → List Node
  | [] => []
  | n :: outer => if isWrapper n outer then logical outer else n :: logical outer

theorem logical_cons_of_isWrapper {n : Node} {outer : Ancestors} (h : isWrapper n outer) :
    logical (n :: outer) = logical outer := by
  simp [logical, h]

end Ancestors

end ScriptLint
