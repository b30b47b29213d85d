import ScriptLint.Types.Render

namespace ScriptLint

/-- What a type is made of, apart from its classes. Keywords differ in their classes alone. -/
inductive TypeShape (α : Type) where
  | plain
  | literal (value : LiteralValue)
  | union (members : List α)
  | intersection (members : List α)
  | parameter (name : String) (constraint : Option α)
  | object (name : Option String)

/-- A type as it is stored, with its classes beside its shape. Nothing but the operations keeps
the two in step. -/
inductive TypeRecord where
  | mk (flags : TypeFlags) (shape : TypeShape TypeRecord)

namespace TypeRecord

def flags : TypeRecord → TypeFlags
  | .mk flags _ => flags

def shape : TypeRecord → TypeShape TypeRecord
  | .mk _ shape => shape

def keyword (k : TypeKeyword) : TypeRecord := .mk (Ty.keywordFlags k) .plain

def template : TypeRecord := .mk .template .plain

def mapping : TypeRecord := .mk .mapping .plain

def literalFlags : LiteralValue → TypeFlags
  | .string _ => .stringLiteral
  | .number _ => .numberLiteral
  | .bigint _ => .bigintLiteral
  | .boolean _ => .booleanLiteral

def literal (value : LiteralValue) : TypeRecord := .mk (literalFlags value) (.literal value)

def object (name : Option String) : TypeRecord := .mk .object (.object name)

def parameter (name : String) (constraint : Option TypeRecord) : TypeRecord :=
  .mk .typeParameter (.parameter name constraint)

mutual

/-- Stored types are the same if their classes and their shapes are. -/
def same : TypeRecord → TypeRecord → Bool
  | .mk flags shape, .mk flags' shape' => flags == flags' && sameShape shape shape'

def sameShape : TypeShape TypeRecord → TypeShape TypeRecord → Bool
  | .plain, .plain => true
  | .literal a, .literal b => a.same b
  | .union as, .union bs => sameAll as bs
  | .intersection as, .intersection bs => sameAll as bs
  | .parameter a none, .parameter b none => a == b
  | .parameter a (some c), .parameter b (some d) => a == b && same c d
  | .object a, .object b => a == b
  | _, _ => false

def sameAll : List TypeRecord → List TypeRecord → Bool
  | [], [] => true
  | a :: as, b :: bs => same a b && sameAll as bs
  | _, _ => false

end

def unionMembers? (r : TypeRecord) : Option (List TypeRecord) :=
  match r.shape with
  | .union members => some members
  | _ => none

def intersectionMembers? (r : TypeRecord) : Option (List TypeRecord) :=
  match r.shape with
  | .intersection members => some members
  | _ => none

def parts (r : TypeRecord) : List TypeRecord := r.unionMembers?.getD [r]

def factors (r : TypeRecord) : List TypeRecord := r.intersectionMembers?.getD [r]

def dropRepeatsOf (last : TypeRecord) : List TypeRecord → List TypeRecord
  | [] => []
  | r :: rest => if last.same r then dropRepeatsOf last rest else r :: dropRepeatsOf r rest

def dropRepeats : List TypeRecord → List TypeRecord
  | [] => []
  | r :: rest => r :: dropRepeatsOf r rest

def unionOf (rs : List TypeRecord) : TypeRecord :=
  match dropRepeats (rs.flatMap parts) with
  | [] => keyword .never
  | [r] => r
  | members => .mk .union (.union members)

def intersectionOf (rs : List TypeRecord) : TypeRecord :=
  match rs.flatMap factors with
  | [] => keyword .unknown
  | [r] => r
  | members => .mk .intersection (.intersection members)

def allFlags (r : TypeRecord) : TypeFlags :=
  r.parts.foldl (fun flags part => flags ||| part.flags) .none

def isAnyOf (r : TypeRecord) (classes : TypeFlags) : Bool := r.allFlags.meets classes

def isStringLike (r : TypeRecord) : Bool :=
  match r.shape with
  | .union members => members.all (isAnyOf · .stringLike)
  | .intersection members => members.any (isAnyOf · .stringLike)
  | _ => r.isAnyOf .stringLike

mutual

def widened : TypeRecord → TypeRecord
  | .mk _ (.literal (.string _)) => keyword .string
  | .mk _ (.literal (.number _)) => keyword .number
  | .mk _ (.literal (.bigint _)) => keyword .bigint
  | .mk _ (.literal (.boolean _)) => keyword .boolean
  | .mk _ (.union members) => unionOf (widenedAll members)
  | .mk flags shape => .mk flags shape

def widenedAll : List TypeRecord → List TypeRecord
  | [] => []
  | r :: rest => widened r :: widenedAll rest

end

def nonNullable : TypeRecord → TypeRecord
  | .mk _ (.union members) => unionOf (members.filter fun r => !r.flags.meets .nullable)
  | .mk flags shape => .mk flags shape

mutual

def baseConstraint? : TypeRecord → Option TypeRecord
  | .mk _ (.parameter _ none) => some (keyword .unknown)
  | .mk _ (.parameter _ (some c)) => some ((baseConstraint? c).getD c)
  | .mk _ (.union members) =>
    let constraints := baseConstraints members
    if constraints.any Option.isSome then
      some (unionOf (List.zipWith Option.getD constraints members))
    else none
  | .mk _ (.intersection members) =>
    let constraints := baseConstraints members
    if constraints.any Option.isSome then
      some (intersectionOf (List.zipWith Option.getD constraints members))
    else none
  | _ => none

def baseConstraints : List TypeRecord → List (Option TypeRecord)
  | [] => []
  | r :: rest => baseConstraint? r :: baseConstraints rest

end

def constrained (r : TypeRecord) : TypeRecord := r.baseConstraint?.getD r

/-- The texts of types without a shape of their own. The first class that is stored decides. -/
def plainTexts : List (TypeFlags × Text) :=
  TypeKeyword.all.map (fun k => (Ty.keywordFlags k, k.name.toList)) ++
    [(.template, Ty.template.render), (.mapping, Ty.mapping.render)]

mutual

def render : TypeRecord → Text
  | .mk flags .plain =>
    ((plainTexts.find? fun (c, _) => flags.contains c).map Prod.snd).getD "unknown".toList
  | .mk _ (.literal value) => value.render
  | .mk _ (.union members) => [' ', '|', ' '].intercalate (renderAll members)
  | .mk _ (.intersection members) => [' ', '&', ' '].intercalate (renderAll members)
  | .mk _ (.parameter name _) => name.toList
  | .mk _ (.object (some name)) => name.toList
  | .mk _ (.object none) => ['\x7b', '\x7d']

def renderAll : List TypeRecord → List Text
  | [] => []
  | r :: rest => render r :: renderAll rest

end

def form (r : TypeRecord) : String :=
  match r.shape with
  | .plain => "Intrinsic"
  | .literal _ => "Literal"
  | .union _ => "Union"
  | .intersection _ => "Intersection"
  | .parameter .. => "TypeParameter"
  | .object _ => "Object"

end TypeRecord

namespace Ty

mutual

/-- The type as it is stored. -/
def record : Ty → TypeRecord
  | .keyword k => .keyword k
  | .template => .template
  | .mapping => .mapping
  | .literal value => .literal value
  | .union members => .mk .union (.union (recordAll members))
  | .intersection members => .mk .intersection (.intersection (recordAll members))
  | .parameter name constraint => .parameter name (recordConstraint constraint)
  | .object name => .object name

def recordConstraint : Option Ty → Option TypeRecord
  | none => none
  | some c => some (record c)

def recordAll : List Ty → List TypeRecord
  | [] => []
  | t :: rest => record t :: recordAll rest

end

end Ty

end ScriptLint
