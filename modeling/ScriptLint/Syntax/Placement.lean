import ScriptLint.Syntax.Node

namespace ScriptLint

/-- A place for an expression. It admits expressions down to some level of precedence; below it
they need parentheses. -/
inductive Placement where
  | unrestricted
  /-- Any expression but a sequence with commas. -/
  | assignment
  /-- Only what binds as tightly as the object of a member access. -/
  | operand
deriving DecidableEq, Repr

namespace Placement

/-- An expression of this kind stands in the place only between parentheses. -/
def needsParentheses : Placement → Kind → Bool
  | unrestricted, _ => false
  | assignment, kind => kind == .sequence
  | operand, kind => !kind.isTight

def all : List Placement := [unrestricted, assignment, operand]

def place (p : Placement) (kind : Kind) (text : Text) : Text :=
  if p.needsParentheses kind then ['('] ++ text ++ [')'] else text

end Placement

end ScriptLint
