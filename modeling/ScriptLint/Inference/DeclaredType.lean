import ScriptLint.Syntax.Node

namespace ScriptLint

namespace Node

mutual

/-- The first annotation in a tree outside every expression. -/
def firstAnnotation? : Node → Option Node
  | .mk kind span children =>
    if kind = .typeAscription then some (.mk kind span children)
    else if kind.isExpression then none
    else firstAnnotationIn? children

def firstAnnotationIn? : List (Role × Node) → Option Node
  | [] => none
  | (_, child) :: rest => (firstAnnotation? child).or (firstAnnotationIn? rest)

end

theorem firstAnnotationIn?_eq_findSome? (children : List (Role × Node)) :
    firstAnnotationIn? children = children.findSome? fun (_, child) => firstAnnotation? child := by
  induction children with
  | nil => rfl
  | cons entry rest ih =>
    obtain ⟨role, child⟩ := entry
    simp only [firstAnnotationIn?, ih, List.findSome?_cons]
    cases firstAnnotation? child <;> rfl

theorem firstAnnotation?_eq_none_of_isExpression {n : Node} (h : n.kind.isExpression) :
    n.firstAnnotation? = none := by
  obtain ⟨kind, span, children⟩ := n
  have hne : kind ≠ .typeAscription := by
    rintro rfl
    simp [Kind.isExpression] at h
  simp_all [firstAnnotation?]

def isDeclaration (n : Node) : Bool :=
  match n.kind with
  | .variableDeclarator _ | .formalParameter _ => true
  | _ => false

def declaredAnnotation? (n : Node) : Option Node :=
  if n.isDeclaration then firstAnnotationIn? n.children else none

def isAnnotated (n : Node) : Bool := n.declaredAnnotation?.isSome

def declaredType? (n : Node) : Option Node :=
  n.declaredAnnotation?.bind (·.child? .typeAscription)

end Node

end ScriptLint
