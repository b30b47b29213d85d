import ScriptLint.Inference.DeclaredType
import ScriptLint.Syntax.Program
import ScriptLint.Types.Service

/-!
Types from what a file declares: annotations of variables and parameters, aliases,
constraints of type parameters, return types of functions and literal values.

An answer is put together from answers to questions about parts of the expression or about
declarations that its names lead to. Declarations can lead in circles, so every step from a
question to another goes one level deeper, a step into a declaration two levels, and a
question past the last level is answered `any`. `answer` is one step; `infer` takes as many
as the levels allow.
-/

namespace ScriptLint

inductive TypeQuestion where
  | ofExpression (e : Node)
  | ofType (t : Node)

namespace Inference

abbrev Answers := TypeQuestion → Except TypeError Ty

def caseMappings : List String := ["Uppercase", "Lowercase", "Capitalize", "Uncapitalize"]

def freeNameType (name : String) : Ty :=
  if name = "undefined" then .keyword .undefined
  else if name = "NaN" || name = "Infinity" then .number
  else .any

/-- Ask about the child of a node, or answer `any` where there is none. -/
def askChild (ask : Node → Except TypeError Ty) (n : Node) (role : Role) : Except TypeError Ty :=
  match n.child? role with
  | some child => ask child
  | none => .ok .any

def declarationType (deeper : Answers) (d : Node) : Except TypeError Ty :=
  match d.kind with
  | .variableDeclarator constant =>
    if ((d.child? .id).bind Node.boundName?).isNone then .ok .any
    else
      match d.declaredType?, d.child? .init with
      | some t, _ => deeper (.ofType t)
      | none, some init =>
        (deeper (.ofExpression init)).map fun t => if constant then t else t.widened
      | none, none => .ok .any
  | .formalParameter _ =>
    if ((d.child? .pattern).bind Node.boundName?).isNone then .ok .any
    else
      match d.declaredType? with
      | some t => deeper (.ofType t)
      | none => .ok .any
  | .function _ | .classDefinition => .ok (.object none)
  | _ => .ok .any

def returnType? (fn : Node) : Option Node :=
  (fn.child? .returnType).bind (·.child? .typeAscription)

def calledReturnType? (d : Node) : Option Node :=
  match d.kind with
  | .function _ => returnType? d
  | .variableDeclarator _ =>
    ((d.child? .init).map Node.withoutParentheses).bind fun init =>
      match init.kind with
      | .arrow _ | .function _ => returnType? init
      | _ => none
  | _ => none

def nameType (p : Program) (deeper : Answers) (name : String) :
    Resolution → Except TypeError Ty
  | .unchecked => .error (.unresolvedReference name)
  | .free => .ok (freeNameType name)
  | .declared site =>
    match p.declarationAt? site with
    | some d => declarationType deeper d
    | none => .ok .any

def callType (p : Program) (ask : Answers) (callee : Node) : Except TypeError Ty :=
  match callee.withoutParentheses.kind with
  | .identifierReference name .unchecked => .error (.unresolvedReference name)
  | .identifierReference _ (.declared site) =>
    match (p.declarationAt? site).bind calledReturnType? with
    | some t => ask (.ofType t)
    | none => .ok .any
  | _ => .ok .any

def sumType (left right : Ty) : Ty :=
  if left.flags.meets .stringLike || right.flags.meets .stringLike then .string
  else if left.flags.meets .numberLike && right.flags.meets .numberLike then .number
  else .any

def unaryType : UnaryOperator → Ty
  | .typeOf => .string
  | .voidOf => .keyword .undefined
  | .logicalNot | .delete => .boolean
  | _ => .number

/-- The type of a template, which is known where it has no slot. -/
def templateType (template : Node) : Ty :=
  match (template.inRole .expressions).isEmpty, (template.child? .quasis).map Node.kind with
  | true, some (.templateElement raw cooked) => .literal (.string (cooked.getD raw))
  | _, _ => .string

def assertedType (ask : Answers) (e : Node) : Except TypeError Ty :=
  match e.child? .typeAscription with
  | some t =>
    if t.isConstType then askChild (ask ∘ .ofExpression) e .expression else ask (.ofType t)
  | none => .ok .any

def expressionType (p : Program) (ask deeper : Answers) (e : Node) : Except TypeError Ty :=
  let operand := askChild (ask ∘ .ofExpression) e
  match e.kind with
  | .stringLiteral value => .ok (.literal (.string value))
  | .numericLiteral value => .ok (.literal (.number value))
  | .bigIntLiteral => .ok (.keyword .bigint)
  | .booleanLiteral value => .ok (.literal (.boolean value))
  | .nullLiteral => .ok (.keyword .null)
  | .regExpLiteral => .ok (.object (some "RegExp"))
  | .templateLiteral => .ok (templateType e)
  | .identifierReference name resolution => nameType p deeper name resolution
  | .parenthesized | .satisfiesExpression => operand .expression
  | .asExpression | .typeAssertion => assertedType ask e
  | .nonNull => (operand .expression).map Ty.nonNullable
  | .binary .addition => do return sumType (← operand .left) (← operand .right)
  | .binary operator => .ok (if operator.isTest then .boolean else .number)
  | .unary operator => .ok (unaryType operator)
  | .logical _ => do return Ty.unionOf [← operand .left, ← operand .right]
  | .conditional => do return Ty.unionOf [← operand .consequent, ← operand .alternate]
  | .call => match e.child? .callee with
    | some callee => callType p ask callee
    | none => .ok .any
  | .arrow _ | .function _ | .classDefinition | .object | .array => .ok (.object none)
  | _ => .ok .any

def literalType : Kind → Ty
  | .stringLiteral value => .literal (.string value)
  | .numericLiteral value => .literal (.number value)
  | .booleanLiteral value => .literal (.boolean value)
  | .bigIntLiteral => .keyword .bigint
  | _ => .any

/-- The type that a name stands for where no declaration tells: a mapping of the case of
strings, or an object type of that name. -/
def undeclaredType (name : String) : Ty :=
  if caseMappings.contains name then .mapping else .object (some name)

def declaredNameType (ask : Answers) (name : String) (d : Node) : Except TypeError Ty :=
  match d.kind with
  | .typeAlias => askChild (ask ∘ .ofType) d .typeAscription
  | .typeParameter =>
    match d.child? .constraint with
    | some constraint => (ask (.ofType constraint)).map fun t => .parameter name (some t)
    | none => .ok (.parameter name none)
  | .interface | .classDefinition => .ok (.object (some name))
  | _ => .ok (undeclaredType name)

/-- Where the name of a type is declared. A name that was never resolved is looked up in
the outermost scope. -/
def typeNameSite? (p : Program) (name : String) : Resolution → Option DeclarationSite
  | .unchecked => p.global? name
  | .free => none
  | .declared site => some site

def referenceType (p : Program) (ask : Answers) (reference : Node) : Except TypeError Ty :=
  match (reference.child? .typeName).map Node.kind with
  | some (.identifierReference name resolution) =>
    match (typeNameSite? p name resolution).bind p.declarationAt? with
    | some d => declaredNameType ask name d
    | none => .ok (undeclaredType name)
  | _ => .ok (.object none)

def writtenType (p : Program) (ask : Answers) (t : Node) : Except TypeError Ty :=
  match t.kind with
  | .keywordType keyword => .ok (.keyword keyword)
  | .literalType => .ok (((t.child? .literal).map fun l => literalType l.kind).getD .any)
  | .templateType => .ok .template
  | .unionType => do return Ty.unionOf (← (t.inRole .types).mapM (ask ∘ .ofType))
  | .intersectionType => do return Ty.intersectionOf (← (t.inRole .types).mapM (ask ∘ .ofType))
  | .parenthesizedType => askChild (ask ∘ .ofType) t .typeAscription
  | .typeReference => referenceType p ask t
  | .typeLiteral | .functionType | .constructorType | .mappedType => .ok (.object none)
  | .arrayType | .tupleType => .ok (.object (some "Array"))
  | _ => .ok .any

/-- One step: an answer from answers one and two levels deeper. -/
def answer (p : Program) (ask deeper : Answers) : Answers
  | .ofExpression e => expressionType p ask deeper e
  | .ofType t => writtenType p ask t

/-- Past the last level nothing is known. -/
def unknowing : Answers := fun _ => .ok .any

def infer (p : Program) : (levels : Nat) → Answers
  | 0 => unknowing
  | 1 => answer p unknowing unknowing
  | levels + 2 => answer p (infer p (levels + 1)) (infer p levels)

def levelCount : Nat := 33

def inferAt (p : Program) (depth : Nat) : Answers := infer p (levelCount - depth)

theorem infer_zero (p : Program) : infer p 0 = unknowing := rfl

theorem infer_succ (p : Program) (levels : Nat) :
    infer p (levels + 1) = answer p (infer p levels) (infer p (levels - 1)) := by
  cases levels <;> rfl

theorem inferAt_of_levelCount_le (p : Program) {depth : Nat} (h : levelCount ≤ depth) :
    inferAt p depth = unknowing := by
  rw [inferAt, Nat.sub_eq_zero_of_le h, infer_zero]

end Inference

def Program.types (p : Program) : TypeService := fun e => Inference.inferAt p 0 (.ofExpression e)

end ScriptLint
