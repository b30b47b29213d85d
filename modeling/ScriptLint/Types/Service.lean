import ScriptLint.Syntax.Node
import ScriptLint.Types.Basic

namespace ScriptLint

inductive TypeError where
  /-- Names have not been resolved in the tree that the reference stands in. -/
  | unresolvedReference (name : String)
  | unavailable (reason : String)
deriving DecidableEq, Repr

def TypeError.message : TypeError → String
  | unresolvedReference name =>
    "identifier `" ++ name ++
      "` has no resolved reference; was semantic analysis run on this program?"
  | unavailable reason => "type service unavailable: " ++ reason

/-- Anything that answers, for an expression, with a type or with the reason why it cannot. -/
abbrev TypeService := Node → Except TypeError Ty

namespace TypeService

def unavailable (reason : String) : TypeService := fun _ => .error (.unavailable reason)

def fixed (t : Ty) : TypeService := fun _ => .ok t

/-- The type of an expression with the type parameters replaced by what they are
constrained to. -/
def constrainedType (service : TypeService) (e : Node) : Except TypeError Ty :=
  (service e).map Ty.constrained

end TypeService

end ScriptLint
